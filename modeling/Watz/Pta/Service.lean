import Watz.Lib.History
import Watz.OpTee.HukSubkey
import Watz.Pta

/-!
# The life of the attestation service

The service keeps three globals: the seed, the key pair generated from it, and the exported
public key that goes into the quotes.  Two flags say which of them are there.  `create` fills them
in; it may fail half-way and be called again.  This file follows the globals through any sequence
of calls of `create` and of commands, and asks whether a quote names the key that signed it.  At
the end it asks which claim a quote stands for.

A key pair is kept in numbers of `mbedtls`.  To use it, `ecc_populate_ltc_private_key` copies the
numbers into a fresh key of `libtomcrypt`, whose numbers have to grow first; it does not look at
the results of the copies.
-/

namespace Watz.Pta

open Lib

/-! ## Numbers -/

/-- `mbedtls_mpi`: how many limbs of 64 bits are allocated, and the value. -/
structure Mpi where
  limbs : ℕ
  value : ℕ
deriving DecidableEq

/-- The limbs `mbedtls_mpi_copy` needs for a value. -/
def limbCount (v : ℕ) : ℕ := Nat.log2 v / 64 + 1

/-- `mbedtls_mpi_copy`, the value of the target when it returns: a target with too few limbs
grows, and if it cannot, it keeps its value. -/
def Mpi.copy (grows : Bool) (x y : Mpi) : Mpi :=
  if y.limbs = 0 then ⟨0, 0⟩
  else if x.limbs < limbCount y.value then
    if grows then ⟨limbCount y.value, y.value⟩ else x
  else ⟨x.limbs, y.value⟩

/-- A number that has just been computed. -/
def Mpi.ofNat (v : ℕ) : Mpi := ⟨limbCount v, v⟩

/-- A number after `mp_init`. -/
def Mpi.init : Mpi := ⟨0, 0⟩

/-- A number after `bn_alloc_max`: `CFG_CORE_BIGNUM_MAX_BITS` is 4096. -/
def Mpi.allocMax : Mpi := ⟨4096 / 64, 0⟩

/-- The numbers of a key pair. -/
inductive Number where
  | d
  | x
  | y
deriving DecidableEq

/-- `struct ecc_keypair`, on the curve P-256. -/
structure EccKeypair where
  d : Mpi
  x : Mpi
  y : Mpi

/-- `ecc_key` of `libtomcrypt`, on the curve P-256. -/
structure LtcKey where
  k : Mpi
  x : Mpi
  y : Mpi

/-- The copies at the end of `ecc_populate_ltc_private_key`. -/
def LtcKey.populate (grows : Number → Bool) (key : EccKeypair) : LtcKey where
  k := Mpi.init.copy (grows .d) key.d
  x := Mpi.init.copy (grows .x) key.x
  y := Mpi.init.copy (grows .y) key.y

/-! ## The generator -/

/-- The part of `prng_state` that a Fortuna generator with one source uses. -/
structure Prng where
  key : Bytes 32
  pool : List UInt8

/-- `fortuna_start`. -/
def fortunaStart : Prng := ⟨Bytes.zero 32, []⟩

/-- `fortuna_add_entropy`: the number of the source, the length, and at most 32 bytes. -/
def fortunaAddEntropy (input : List UInt8) (prng : Prng) : Prng :=
  let input := input.take 32
  { prng with pool := prng.pool ++ (0 :: UInt8.ofNat input.length :: input) }

/-- `fortuna_ready`. -/
def fortunaReady (C : Crypto) (prng : Prng) : Prng :=
  ⟨C.sha256 (prng.key.toList ++ (C.sha256 prng.pool).toList), []⟩

/-! ## Creation -/

/-- The calls of the creation that report failures. -/
inductive LibCall where
  | cryptoMacAllocCtx
  /-- The calls of `huk_subkey_derive` behind the first one. -/
  | cryptoMac
  | cryptoAcipherAllocEccKeypair
  | registerAllPrngs
  | fortunaStart
  | fortunaAddEntropy
  | fortunaReady
  | eccMakeKey
  | eccSetCurve
  | eccGetKey
deriving DecidableEq

/-- What one execution of `create` meets. -/
structure CreateEnv where
  outcome : LibCall → Option TeeError
  /-- Whether there is memory for the numbers of the key pair to grow. -/
  keypairGrows : Number → Bool
  /-- Whether there is memory for the numbers of the key of `libtomcrypt` to grow. -/
  ltcKeyGrows : Number → Bool
  /-- What a failed export leaves in the buffer for the public key. -/
  leftover : Bytes 65

/-- The device: its algorithms, its hardware unique key, and the scalar that `ecc_make_key` takes
from a Fortuna generator with a given key. -/
structure Device where
  crypto : Crypto
  hmac : OpTee.MacCtx → Bytes 32
  hukSubkeyCompat : Bool
  huk : List UInt8
  makeKey : Bytes 32 → ℕ

/-- The globals of the service. -/
structure Service where
  isAttestationSeedDerived : Bool
  attestationSeed : Bytes 32
  isAttestationEcdsaKeypairDerived : Bool
  attestationEcdsaKeypair : EccKeypair
  ltcAttestationExportedPublicKey : Bytes 65

/-- The globals when the TEE starts. -/
def Service.init : Service where
  isAttestationSeedDerived := false
  attestationSeed := Bytes.zero 32
  isAttestationEcdsaKeypairDerived := false
  attestationEcdsaKeypair := ⟨Mpi.init, Mpi.init, Mpi.init⟩
  ltcAttestationExportedPublicKey := Bytes.zero 65

/-- The point in the format of `ltc_ecc_export_point`. -/
def exportPoint (x y : ℕ) : Bytes 65 := Bytes.slice 65 (4 :: (bigEndian 32 x ++ bigEndian 32 y))

section

variable (D : Device) (env : CreateEnv)

/-- A call whose error the caller returns. -/
def call {σ : Type} (c : LibCall) : EStateM TeeError σ Unit :=
  match env.outcome c with
  | none => pure ()
  | some e => throw e

/-- A call for whose errors the caller has one of its own. -/
def callElse {σ : Type} (c : LibCall) (e : TeeError) : EStateM TeeError σ Unit :=
  match env.outcome c with
  | none => pure ()
  | some _ => throw e

/-- The seed `huk_subkey_derive` computes for `derive_attestation_seed`. -/
def Device.seed : Bytes 32 :=
  match OpTee.deriveAttestationSeed D.hukSubkeyCompat D.huk with
  | some subkey => D.hmac subkey.ctx
  | none => Bytes.zero 32

/-- The calls of `derive_attestation_seed`; a failure in `huk_subkey_derive` clears the seed. -/
def hukSubkeyDerive : EStateM TeeError Service Unit := do
  call env .cryptoMacAllocCtx
  modify fun s => { s with attestationSeed := Bytes.zero 32 }
  call env .cryptoMac
  modify fun s => { s with attestationSeed := D.seed, isAttestationSeedDerived := true }

/-- `derive_attestation_seed`. -/
def deriveAttestationSeed : EStateM TeeError Service Unit := do
  let s ← get
  if s.isAttestationSeedDerived then pure () else hukSubkeyDerive D env

/-- `_ltc_ecc_generate_keypair_with_prng`, into a key pair whose numbers are allocated. -/
def ltcEccGenerateKeypairWithPrng (key : EccKeypair) (prng : Prng) :
    EStateM TeeError Service EccKeypair := do
  callElse env .eccMakeKey .badParameters
  let k := D.makeKey prng.key
  let q := D.crypto.publicKey k
  failIf (2 ^ 256 ≤ q.x ∨ 2 ^ 256 ≤ q.y ∨ 2 ^ 256 ≤ k) .badParameters
  pure
    { d := key.d.copy (env.keypairGrows .d) (Mpi.ofNat k)
      x := key.x.copy (env.keypairGrows .x) (Mpi.ofNat q.x)
      y := key.y.copy (env.keypairGrows .y) (Mpi.ofNat q.y) }

/-- `gen_ecdsa_key_with_seed`. -/
def genEcdsaKeyWithSeed (seed : Bytes 32) (key : EccKeypair) :
    EStateM TeeError Service EccKeypair := do
  callElse env .registerAllPrngs .generic
  callElse env .fortunaStart .generic
  callElse env .fortunaAddEntropy .generic
  callElse env .fortunaReady .generic
  ltcEccGenerateKeypairWithPrng D env key
    (fortunaReady D.crypto (fortunaAddEntropy seed.toList fortunaStart))

/-- `ecc_export_public_in_buffer`, into the global for the exported key. -/
def eccExportPublicInBuffer (key : EccKeypair) : EStateM TeeError Service Unit := do
  callElse env .eccSetCurve .generic
  let ltcKey := LtcKey.populate env.ltcKeyGrows key
  failIf (256 ^ 32 ≤ ltcKey.x.value ∨ 256 ^ 32 ≤ ltcKey.y.value) .generic
  modify fun s => { s with ltcAttestationExportedPublicKey := env.leftover }
  callElse env .eccGetKey .generic
  modify fun s => { s with
    ltcAttestationExportedPublicKey := exportPoint ltcKey.x.value ltcKey.y.value }

/-- The part of `derive_attestation_ecdsa_keypair` behind the check of the flag. -/
def generateAndExport : EStateM TeeError Service Unit := do
  modify fun s => { s with attestationEcdsaKeypair := ⟨Mpi.init, Mpi.init, Mpi.init⟩ }
  call env .cryptoAcipherAllocEccKeypair
  modify fun s => { s with attestationEcdsaKeypair := ⟨Mpi.allocMax, Mpi.allocMax, Mpi.allocMax⟩ }
  let s ← get
  let key ← genEcdsaKeyWithSeed D env s.attestationSeed s.attestationEcdsaKeypair
  modify fun s => { s with attestationEcdsaKeypair := key }
  eccExportPublicInBuffer env key
  modify fun s => { s with isAttestationEcdsaKeypairDerived := true }

/-- `derive_attestation_ecdsa_keypair`. -/
def deriveAttestationEcdsaKeypair : EStateM TeeError Service Unit := do
  let s ← get
  if s.isAttestationEcdsaKeypairDerived then pure () else generateAndExport D env

/-- `create`. -/
def create : EStateM TeeError Service Unit := do
  deriveAttestationSeed D env
  deriveAttestationEcdsaKeypair D env

end

/-! ## The service at work -/

/-- The key `generate_quote` works with: `crypto_acipher_ecc_sign` signs with a copy of the scalar
of the key pair. -/
def Service.key (s : Service) (grows : Number → Bool) : AttestationKey where
  keypair := (LtcKey.populate grows s.attestationEcdsaKeypair).k.value
  exportedPublicKey := s.ltcAttestationExportedPublicKey

/-- What the service is asked to do. -/
inductive Request where
  | create (env : CreateEnv)
  | genQuote (env : Env Fn) (ltcKeyGrows : Number → Bool) (claim : List UInt8) (anchor : Bytes 32)
      (anchorSize : ℕ) (quote : Quote)

/-- What it answers: whether the creation succeeded, or the quote, if there is one. -/
inductive Answer where
  | created (success : Bool)
  | quote (quote : Option Quote)

/-- One call of the service. -/
def serve (D : Device) (s : Service) : Request → Answer × Service
  | .create env =>
    match create D env s with
    | .ok _ s' => (.created true, s')
    | .error _ s' => (.created false, s')
  | .genQuote env grows claim anchor anchorSize quote =>
    match generateQuote D.crypto env (s.key grows) claim anchor anchorSize quote with
    | .ok _ q => (.quote (some q), s)
    | .error _ _ => (.quote none, s)

/-- The scalar generated from the seed that is derived from the hardware unique key. -/
def Device.scalar (D : Device) : ℕ :=
  D.makeKey (fortunaReady D.crypto (fortunaAddEntropy D.seed.toList fortunaStart)).key

/-- The quote is signed with the scalar of the device, and has the public key of this scalar as
its attestation key. -/
def NamesSigner (D : Device) (q : Quote) : Prop :=
  q.attestationKey
      = exportPoint (D.crypto.publicKey D.scalar).x (D.crypto.publicKey D.scalar).y
    ∧ ∃ nonce, q.signature = D.crypto.sign D.scalar nonce (D.crypto.sha256 (hashQuoteInput q))

/-- The copies the request makes of the numbers that it goes on to use find memory. -/
def CopiesOk (s : Service) : Request → Prop
  | .create env => s.isAttestationEcdsaKeypairDerived = false →
      env.ltcKeyGrows .x = true ∧ env.ltcKeyGrows .y = true
  | .genQuote _ grows _ _ _ _ => grows .d = true

/-! ## What the creation keeps -/

variable {v : ℕ} {grows : Bool} {C : Crypto} {c : List UInt8}

lemma limbCount_le (h : v < 2 ^ 256) : limbCount v ≤ 4 := by
  have hlog : Nat.log2 v < 256 := by
    rcases Nat.eq_zero_or_pos v with rfl | hpos
    · simp
    · exact (Nat.log2_lt hpos.ne').mpr h
  rw [limbCount]
  omega

/-- A copy into a number with enough limbs, or one that can grow, has the value. -/
lemma Mpi.copy_value {x y : Mpi} (hy : y.limbs ≠ 0)
    (h : limbCount y.value ≤ x.limbs ∨ grows = true) : (x.copy grows y).value = y.value := by
  rw [Mpi.copy, if_neg hy]
  by_cases hlimbs : x.limbs < limbCount y.value
  · have hgrows : grows = true := h.resolve_left (by omega)
    rw [if_pos hlimbs, if_pos hgrows]
  · rw [if_neg hlimbs]

lemma Mpi.copy_allocMax (h : v < 2 ^ 256) :
    Mpi.allocMax.copy grows (Mpi.ofNat v) = ⟨64, v⟩ := by
  have hle : limbCount v ≤ 4 := limbCount_le h
  have hlimbs : ¬ Mpi.allocMax.limbs < (limbCount v) := by
    show ¬ 4096 / 64 < limbCount v
    omega
  have hne : ¬ (Mpi.ofNat v).limbs = 0 := Nat.succ_ne_zero _
  rw [Mpi.copy, if_neg hne]
  exact if_neg hlimbs

/-- The key pair of the device. -/
def Device.keypair (D : Device) : EccKeypair where
  d := ⟨64, D.scalar⟩
  x := ⟨64, (D.crypto.publicKey D.scalar).x⟩
  y := ⟨64, (D.crypto.publicKey D.scalar).y⟩

/-- Each flag says the truth about its globals. -/
structure Consistent (D : Device) (s : Service) : Prop where
  seed : s.isAttestationSeedDerived = true → s.attestationSeed = D.seed
  keypair : s.isAttestationEcdsaKeypairDerived = true →
    s.isAttestationSeedDerived = true ∧ s.attestationEcdsaKeypair = D.keypair
      ∧ s.ltcAttestationExportedPublicKey
        = exportPoint (D.crypto.publicKey D.scalar).x (D.crypto.publicKey D.scalar).y

section

variable {D : Device} {env : CreateEnv} {s s' : Service}

lemma consistent_init : Consistent D Service.init := ⟨nofun, nofun⟩

variable {σ : Type} {I : Service → Prop}

lemma keeps_call {I : σ → Prop} {c : LibCall} : Keeps I (call env c) := by
  rw [call]
  cases env.outcome c with
  | none => exact Keeps.pure ()
  | some e => exact Keeps.throw e

lemma keeps_callElse {I : σ → Prop} {c : LibCall} {e : TeeError} :
    Keeps I (callElse env c e) := by
  rw [callElse]
  cases env.outcome c with
  | none => exact Keeps.pure ()
  | some _ => exact Keeps.throw e

/-- Nothing has been derived. -/
def Underived (s : Service) : Prop :=
  s.isAttestationSeedDerived = false ∧ s.isAttestationEcdsaKeypairDerived = false

/-- Only the seed has been derived. -/
def Seeded (D : Device) (s : Service) : Prop :=
  s.isAttestationSeedDerived = true ∧ s.attestationSeed = D.seed
    ∧ s.isAttestationEcdsaKeypairDerived = false

lemma Underived.consistent (h : Underived s) : Consistent D s :=
  ⟨fun hseed => absurd (h.1.symm.trans hseed) nofun,
    fun hkey => absurd (h.2.symm.trans hkey) nofun⟩

lemma Seeded.consistent (h : Seeded D s) : Consistent D s :=
  ⟨fun _ => h.2.1, fun hkey => absurd (h.2.2.symm.trans hkey) nofun⟩

lemma hukSubkeyDerive_spec :
    Triple Underived (hukSubkeyDerive D env) (fun _ => Seeded D) Underived := by
  unfold hukSubkeyDerive
  refine Triple.bind keeps_call fun _ => ?_
  refine Triple.bind (Keeps.modify fun _ hs => hs) fun _ => ?_
  refine Triple.bind keeps_call fun _ => ?_
  exact Triple.modify fun _ hs => ⟨rfl, rfl, hs.2⟩

lemma ltcEccGenerateKeypairWithPrng_spec {prng : Prng} (hprng : D.makeKey prng.key = D.scalar) :
    Triple I (ltcEccGenerateKeypairWithPrng D env
        ⟨Mpi.allocMax, Mpi.allocMax, Mpi.allocMax⟩ prng)
      (fun key s => key = D.keypair ∧ I s) I := by
  unfold ltcEccGenerateKeypairWithPrng
  refine Triple.bind keeps_callElse fun _ => ?_
  refine Triple.failIf_bind (fun _ hs => hs) fun hbits => Triple.pure fun s hs => ⟨?_, hs⟩
  push Not at hbits
  obtain ⟨hx, hy, hk⟩ := hbits
  rw [Mpi.copy_allocMax hk, Mpi.copy_allocMax hx, Mpi.copy_allocMax hy, hprng]
  rfl

lemma genEcdsaKeyWithSeed_spec :
    Triple I (genEcdsaKeyWithSeed D env D.seed ⟨Mpi.allocMax, Mpi.allocMax, Mpi.allocMax⟩)
      (fun key s => key = D.keypair ∧ I s) I := by
  unfold genEcdsaKeyWithSeed
  refine Triple.bind keeps_callElse fun _ => Triple.bind keeps_callElse fun _ => ?_
  refine Triple.bind keeps_callElse fun _ => Triple.bind keeps_callElse fun _ => ?_
  exact ltcEccGenerateKeypairWithPrng_spec rfl

lemma eccExportPublicInBuffer_spec
    (hcopies : env.ltcKeyGrows .x = true ∧ env.ltcKeyGrows .y = true) :
    Triple (fun s => Seeded D s ∧ s.attestationEcdsaKeypair = D.keypair)
      (eccExportPublicInBuffer env D.keypair)
      (fun _ s => Seeded D s ∧ s.attestationEcdsaKeypair = D.keypair
        ∧ s.ltcAttestationExportedPublicKey
          = exportPoint (D.crypto.publicKey D.scalar).x (D.crypto.publicKey D.scalar).y)
      (Seeded D) := by
  have hx : (LtcKey.populate env.ltcKeyGrows D.keypair).x.value
      = (D.crypto.publicKey D.scalar).x := Mpi.copy_value (Nat.succ_ne_zero _) (.inr hcopies.1)
  have hy : (LtcKey.populate env.ltcKeyGrows D.keypair).y.value
      = (D.crypto.publicKey D.scalar).y := Mpi.copy_value (Nat.succ_ne_zero _) (.inr hcopies.2)
  have hcalls : ∀ {c : LibCall} {e : TeeError},
      Triple (fun s => Seeded D s ∧ s.attestationEcdsaKeypair = D.keypair) (callElse env c e)
        (fun _ s => Seeded D s ∧ s.attestationEcdsaKeypair = D.keypair) (Seeded D) :=
    Triple.conseq keeps_callElse (fun _ hs => hs) (fun _ _ hs => hs) fun _ hs => hs.1
  unfold eccExportPublicInBuffer
  refine Triple.bind hcalls fun _ => ?_
  refine Triple.failIf_bind (fun _ hs => hs.1) fun _ => ?_
  refine Triple.modify_bind (fun s => Seeded D s ∧ s.attestationEcdsaKeypair = D.keypair)
    (fun _ hs => hs) ?_
  refine Triple.bind hcalls fun _ => Triple.modify fun s hs => ⟨hs.1, hs.2, ?_⟩
  show exportPoint _ _ = _
  rw [hx, hy]

lemma generateAndExport_spec
    (hcopies : env.ltcKeyGrows .x = true ∧ env.ltcKeyGrows .y = true) :
    Triple (Seeded D) (generateAndExport D env)
      (fun _ s => Consistent D s ∧ s.isAttestationEcdsaKeypairDerived = true) (Seeded D) := by
  unfold generateAndExport
  refine Triple.bind (Keeps.modify fun _ hs => hs) fun _ => Triple.bind keeps_call fun _ => ?_
  refine Triple.modify_bind (fun s => Seeded D s
    ∧ s.attestationEcdsaKeypair = ⟨Mpi.allocMax, Mpi.allocMax, Mpi.allocMax⟩)
    (fun _ hs => ⟨hs, rfl⟩) ?_
  refine Triple.get_bind fun s hs => ?_
  -- from here on the seed and the allocated key pair are those of the state that was read
  have hgenerate : Triple (fun t => t = s)
      (genEcdsaKeyWithSeed D env s.attestationSeed s.attestationEcdsaKeypair)
      (fun key t => key = D.keypair ∧ Seeded D t) (Seeded D) := by
    rw [hs.1.2.1, hs.2]
    exact Triple.conseq genEcdsaKeyWithSeed_spec (fun t ht => ht ▸ hs.1) (fun _ _ ht => ht)
      fun _ ht => ht
  refine Triple.bind hgenerate fun key => ?_
  intro t ht
  obtain ⟨rfl, ht⟩ := ht
  refine Triple.modify_bind (fun s => Seeded D s ∧ s.attestationEcdsaKeypair = D.keypair)
    (fun _ hs => ⟨hs, rfl⟩) ?_ t ht
  refine Triple.bind (eccExportPublicInBuffer_spec hcopies) fun _ => ?_
  refine Triple.modify fun u hu => ⟨⟨fun _ => hu.1.2.1, fun _ => ⟨hu.1.1, hu.2.1, hu.2.2⟩⟩, rfl⟩

lemma create_spec {ready : Prop}
    (hcopies : ready → env.ltcKeyGrows .x = true ∧ env.ltcKeyGrows .y = true) :
    Triple (fun s => Consistent D s ∧ (s.isAttestationEcdsaKeypairDerived = false → ready))
      (create D env)
      (fun _ s => Consistent D s ∧ s.isAttestationEcdsaKeypairDerived = true) (Consistent D) := by
  unfold create
  refine Triple.bind (Q := fun _ s => Consistent D s ∧ s.isAttestationSeedDerived = true
    ∧ (s.isAttestationEcdsaKeypairDerived = false → ready)) ?_ fun _ => ?_
  · unfold deriveAttestationSeed
    refine Triple.get_bind fun s ⟨hs, hready⟩ => Triple.ite (fun hflag => ?_) fun hflag => ?_
    · exact Triple.pure fun t ht => ht ▸ ⟨hs, hflag, hready⟩
    · -- without a seed there is no key pair either
      have hkey : s.isAttestationEcdsaKeypairDerived = false := by
        by_contra hkey
        exact hflag (hs.keypair (Bool.not_eq_false _ ▸ hkey)).1
      have hseed : s.isAttestationSeedDerived = false := Bool.not_eq_true _ ▸ hflag
      refine Triple.conseq hukSubkeyDerive_spec (fun t ht => ht ▸ ⟨hseed, hkey⟩) (fun _ t ht => ?_)
        fun t ht => ht.consistent
      exact ⟨ht.consistent, ht.1, fun _ => hready hkey⟩
  · unfold deriveAttestationEcdsaKeypair
    refine Triple.get_bind fun s ⟨hs, hseed, hready⟩ =>
      Triple.ite (fun hflag => ?_) fun hflag => ?_
    · exact Triple.pure fun t ht => ht ▸ ⟨hs, hflag⟩
    · have hkey : s.isAttestationEcdsaKeypairDerived = false := Bool.not_eq_true _ ▸ hflag
      exact Triple.conseq (generateAndExport_spec (hcopies (hready hkey)))
        (fun t ht => ht ▸ ⟨hseed, hs.seed hseed, hkey⟩) (fun _ _ ht => ht) fun t ht => ht.consistent

end

/-! ## Every quote of a run -/

section

variable {D : Device} {s : Service} {r : Request}

lemma consistent_serve (hs : Consistent D s) (hr : CopiesOk s r) : Consistent D (serve D s r).2 := by
  cases r with
  | create env =>
    have hspec := create_spec (D := D) (fun h : _ ∧ _ => h) s ⟨hs, hr⟩
    obtain ⟨hok, herror⟩ := hspec
    cases hcreate : create D env s with
    | ok u s' => simpa [serve, hcreate] using (hok u s' hcreate).1
    | error e s' => simpa [serve, hcreate] using herror e s' hcreate
  | genQuote env grows claim anchor anchorSize quote =>
    cases hquote : generateQuote D.crypto env (s.key grows) claim anchor anchorSize quote with
    | ok u q => simpa [serve, hquote] using hs
    | error stop q => simpa [serve, hquote] using hs

lemma namesSigner_of_serve {q : Quote} (hs : Consistent D s)
    (hkey : s.isAttestationEcdsaKeypairDerived = true) (hr : CopiesOk s r)
    (h : (serve D s r).1 = .quote (some q)) : NamesSigner D q := by
  cases r with
  | create env => cases hcreate : create D env s <;> simp [serve, hcreate] at h
  | genQuote env grows claim anchor anchorSize quote =>
    obtain ⟨-, hpair, hexported⟩ := hs.keypair hkey
    have hscalar : (s.key grows).keypair = D.scalar := by
      show (LtcKey.populate grows s.attestationEcdsaKeypair).k.value = _
      rw [hpair]
      exact Mpi.copy_value (Nat.succ_ne_zero _) (.inr hr)
    have hpublic : (s.key grows).exportedPublicKey
        = exportPoint (D.crypto.publicKey D.scalar).x (D.crypto.publicKey D.scalar).y := hexported
    cases hquote : generateQuote D.crypto env (s.key grows) claim anchor anchorSize quote with
    | error stop q' => simp [serve, hquote] at h
    | ok u q' =>
      obtain rfl : q' = q := by simpa [serve, hquote] using h
      obtain ⟨-, -, -, -, rfl⟩ := generateQuote_eq_ok.mp hquote
      refine ⟨hpublic, env.nonce, ?_⟩
      show D.crypto.sign (s.key grows).keypair env.nonce _ = _
      rw [hscalar]
      rfl

lemma keeps_keypairDerived_create {env : CreateEnv} :
    Keeps (fun s => s.isAttestationEcdsaKeypairDerived = true) (create D env) := by
  unfold create deriveAttestationSeed hukSubkeyDerive deriveAttestationEcdsaKeypair
  refine Keeps.bind (Keeps.get_bind fun _ _ => Keeps.ite (Keeps.pure ()) ?_) fun _ => ?_
  · refine Keeps.bind keeps_call fun _ => Keeps.bind (Keeps.modify fun _ hs => hs) fun _ => ?_
    exact Keeps.bind keeps_call fun _ => Keeps.modify fun _ hs => hs
  · refine Keeps.get_bind fun s hs => ?_
    rw [if_pos hs]
    exact Keeps.pure ()

lemma keypairDerived_of_create {env : CreateEnv} {s' : Service} {u : Unit}
    (h : create D env s = .ok u s') : s'.isAttestationEcdsaKeypairDerived = true := by
  obtain ⟨_, t, -, hkey⟩ := bind_eq_ok.mp h
  rw [deriveAttestationEcdsaKeypair, get_bind_eq_ok] at hkey
  by_cases hflag : t.isAttestationEcdsaKeypairDerived = true
  · rw [if_pos hflag] at hkey
    obtain ⟨-, rfl⟩ := pure_eq_ok.mp hkey
    exact hflag
  · rw [if_neg hflag] at hkey
    simp only [generateAndExport, bind_eq_ok, modify_eq_ok] at hkey
    obtain ⟨_, _, -, _, _, -, _, _, -, _, _, -, _, _, -, _, _, -, _, _, -, rfl⟩ := hkey
    rfl

end

/-- The request is a command. -/
def Request.IsCommand : Request → Prop
  | .create _ => False
  | .genQuote .. => True

/-- Commands are only issued after some `create` returned success. -/
def CommandsAfterCreate (D : Device) (rs : List Request) : Prop :=
  Guarded (fun e => e.input.IsCommand) (fun _ => False) (fun e => e.output = .created true)
    (history (serve D) Service.init rs)

lemma keypairDerived_of_command {D : Device} {rs : List Request}
    (hcommands : CommandsAfterCreate D rs) {e : Entry Service Request Answer}
    (he : e ∈ history (serve D) Service.init rs) (hinput : e.input.IsCommand) :
    e.before.isAttestationEcdsaKeypairDerived = true := by
  obtain ⟨pre, post, heq⟩ := List.append_of_mem he
  have hsince := hcommands pre e post heq hinput
  obtain ⟨js, ks, -, rfl, hbefore⟩ := exists_of_history_eq_append heq
  rw [hbefore]
  refine flag_of_since (fun s => s.isAttestationEcdsaKeypairDerived = true) ?_ ?_ hsince
  · intro s r hset
    cases r with
    | create env =>
      cases hcreate : create D env s with
      | ok u s' => simpa [serve, hcreate] using keypairDerived_of_create hcreate
      | error e s' => simp [serve, hcreate] at hset
    | genQuote env grows claim anchor anchorSize quote =>
      cases hquote : generateQuote D.crypto env (s.key grows) claim anchor anchorSize quote <;>
        simp [serve, hquote] at hset
  · intro s r hs _
    cases r with
    | create env =>
      have hkeeps := (keeps_keypairDerived_create (D := D)).final_of (x := create D env) hs
      cases hcreate : create D env s <;> simpa [serve, hcreate] using hkeeps
    | genQuote env grows claim anchor anchorSize quote =>
      cases hquote : generateQuote D.crypto env (s.key grows) claim anchor anchorSize quote <;>
        simpa [serve, hquote] using hs

/-- In every run in which the copies of the numbers of the key find memory, whatever else fails,
each quote has the public part of the key that signed it, which is the key generated from the seed
of the device. -/
theorem quotes_name_their_signer (D : Device) (rs : List Request)
    (hcommands : CommandsAfterCreate D rs)
    (hcopies : ∀ e ∈ history (serve D) Service.init rs, CopiesOk e.before e.input) :
    ∀ e ∈ history (serve D) Service.init rs, ∀ q, e.output = .quote (some q) →
      NamesSigner D q := by
  intro e he q hq
  have hconsistent : Consistent D e.before :=
    invariant_before (fun s r hs hr => consistent_serve hs hr) consistent_init hcopies e he
  rw [output_of_mem_history he] at hq
  have hinput : e.input.IsCommand := by
    cases hr : e.input with
    | create env =>
      rw [hr] at hq
      cases hcreate : create D env e.before <;> simp [serve, hcreate] at hq
    | genQuote => trivial
  exact namesSigner_of_serve hconsistent (keypairDerived_of_command hcommands he hinput)
    (hcopies e he) hq

/-- A device for concrete runs. -/
def Device.sample : Device where
  crypto := Crypto.sample
  hmac _ := Bytes.zero 32
  hukSubkeyCompat := false
  huk := []
  makeKey _ := 1

/-- A creation in which every call succeeds and the copies succeed as given. -/
def CreateEnv.calm (ltcKeyGrows : Number → Bool) : CreateEnv where
  outcome _ := none
  keypairGrows _ := true
  ltcKeyGrows := ltcKeyGrows
  leftover := Bytes.zero 65

/-- A command for a quote on the empty claim. -/
def quoteRequest : Request :=
  .genQuote (Env.calm Fn 0) (fun _ => true) [] (Bytes.zero 32) 32 Quote.zero

lemma commandsAfterCreate_pair {D : Device} {env : CreateEnv} (r : Request)
    (h : (serve D Service.init (.create env)).1 = .created true) :
    CommandsAfterCreate D [.create env, r] := by
  intro pre e post heq he
  cases pre with
  | nil =>
    obtain ⟨rfl, -⟩ := List.cons.inj heq
    exact he.elim
  | cons a pre =>
    obtain ⟨rfl, -⟩ := List.cons.inj heq
    exact ⟨[], _, pre, rfl, h, fun _ _ => not_false⟩

/-- A creation and a command on a device with enough memory. -/
theorem quotes_name_their_signer_sample :
    CommandsAfterCreate Device.sample [.create (.calm fun _ => true), quoteRequest]
      ∧ ∃ q, (serve Device.sample
            (serve Device.sample Service.init (.create (.calm fun _ => true))).2 quoteRequest).1
          = .quote (some q) ∧ NamesSigner Device.sample q := by
  have hcommands : CommandsAfterCreate Device.sample
      [.create (.calm fun _ => true), quoteRequest] := commandsAfterCreate_pair _ rfl
  refine ⟨hcommands, _, rfl, ?_⟩
  refine quotes_name_their_signer _ _ hcommands ?_ _
    (List.mem_cons_of_mem _ List.mem_cons_self) _ rfl
  intro e he
  rcases List.mem_cons.mp he with rfl | he
  · exact fun _ => ⟨rfl, rfl⟩
  · obtain rfl := List.mem_singleton.mp he
    rfl

/-- If the copy of the first coordinate finds no memory during the creation, the creation succeeds
all the same, and the service signs quotes that name another key. -/
theorem quote_names_other_key :
    CommandsAfterCreate Device.sample [.create (.calm (· ≠ .x)), quoteRequest]
      ∧ ∃ e ∈ history (serve Device.sample) Service.init [.create (.calm (· ≠ .x)), quoteRequest],
        ∃ q, e.output = .quote (some q) ∧ ¬ NamesSigner Device.sample q := by
  refine ⟨commandsAfterCreate_pair _ rfl, _, List.mem_cons_of_mem _ List.mem_cons_self, _, rfl, ?_⟩
  rintro ⟨hkey, -⟩
  exact absurd hkey (by decide +kernel)

/-! ## The claim behind a quote -/

lemma claimHashOf_eq_iff {b : Bytes 32} (h : c.length = 32) :
    claimHashOf C c = b ↔ c = b.toList := by
  have hlist : (Bytes.slice 32 c).toList = c := by
    rw [Bytes.slice_toList h.ge, List.take_of_length_le h.le]
  rw [claimHashOf, if_pos h, Bytes.ext_iff, hlist]

lemma claimHashOf_of_ne (h : c.length ≠ 32) :
    claimHashOf C c = C.sha256 c := if_neg h

/-- SHA-256 has no collision among the two claims.  Two quotes then have the same claim hash
exactly for the same claim, or for a claim of 32 bytes that is the hash of the other one: the
service takes every claim of this length for a hash. -/
theorem claimHash_eq_iff {C : Crypto} {env₁ env₂ : Env Fn} {key : AttestationKey}
    {c₁ c₂ : List UInt8} {anchor : Bytes 32} {anchorSize : ℕ} {q₁ q₂ q₁' q₂' : Quote}
    (hhash : C.CollisionFree {c₁, c₂})
    (h₁ : generateQuote C env₁ key c₁ anchor anchorSize q₁ = .ok () q₁')
    (h₂ : generateQuote C env₂ key c₂ anchor anchorSize q₂ = .ok () q₂') :
    q₁'.claimHash = q₂'.claimHash ↔
      c₁ = c₂ ∨ (c₁.length = 32 ∧ c₂.length ≠ 32 ∧ c₁ = (C.sha256 c₂).toList)
        ∨ (c₂.length = 32 ∧ c₁.length ≠ 32 ∧ c₂ = (C.sha256 c₁).toList) := by
  obtain ⟨-, -, -, -, rfl⟩ := generateQuote_eq_ok.mp h₁
  obtain ⟨-, -, -, -, rfl⟩ := generateQuote_eq_ok.mp h₂
  show claimHashOf C c₁ = claimHashOf C c₂ ↔ _
  -- the hash of a claim is the claim itself or a digest, by its length
  by_cases hlen1 : c₁.length = 32 <;> by_cases hlen2 : c₂.length = 32
  · have hlist : (claimHashOf C c₂).toList = c₂ := ((claimHashOf_eq_iff hlen2).mp rfl).symm
    rw [claimHashOf_eq_iff hlen1, hlist]
    simp [hlen1, hlen2]
  · have hne : c₁ ≠ c₂ := fun h => hlen2 (h ▸ hlen1)
    rw [claimHashOf_eq_iff hlen1, claimHashOf_of_ne hlen2]
    simp [hlen1, hlen2, hne]
  · have hne : c₁ ≠ c₂ := fun h => hlen1 (h ▸ hlen2)
    rw [eq_comm, claimHashOf_eq_iff hlen2, claimHashOf_of_ne hlen1]
    simp [hlen1, hlen2, hne]
  · rw [claimHashOf_of_ne hlen1, claimHashOf_of_ne hlen2, hhash.eq_iff (by simp) (by simp)]
    simp [hlen1, hlen2]

/-- Algorithms whose hash depends on the length. -/
def lengthCrypto : Crypto :=
  { Crypto.sample with sha256 := fun l => Bytes.slice 32 (UInt8.ofNat l.length :: l) }

/-- The empty claim and a claim of one byte, with different hashes. -/
theorem claimHash_eq_iff_sample :
    ∃ q₁ q₂, generateQuote lengthCrypto (Env.calm Fn 0) ⟨1, Bytes.zero 65⟩ [] (Bytes.zero 32) 32
          Quote.zero = .ok () q₁
      ∧ generateQuote lengthCrypto (Env.calm Fn 0) ⟨1, Bytes.zero 65⟩ [7] (Bytes.zero 32) 32
          Quote.zero = .ok () q₂
      ∧ q₁.claimHash ≠ q₂.claimHash := by
  have hhash : lengthCrypto.CollisionFree {[], [7]} := by
    intro c hc c' hc' h
    rcases hc with rfl | rfl <;> rcases hc' with rfl | rfl
    · rfl
    · exact absurd h (by decide)
    · exact absurd h (by decide)
    · rfl
  have hquote : ∀ c, ∃ q, generateQuote lengthCrypto (Env.calm Fn 0)
      ⟨1, Bytes.zero 65⟩ c (Bytes.zero 32) 32 Quote.zero = .ok () q := by
    intro c
    exact ⟨_, generateQuote_eq_ok.mpr ⟨le_rfl, fun _ => (Env.calm_allOk Fn 0).ok _ _,
      (Env.calm_allOk Fn 0).ok _ _, (Env.calm_allOk Fn 0).ok _ _, rfl⟩⟩
  obtain ⟨q₁, h₁⟩ := hquote []
  obtain ⟨q₂, h₂⟩ := hquote [7]
  refine ⟨q₁, q₂, h₁, h₂, fun h => ?_⟩
  exact absurd ((claimHash_eq_iff hhash h₁ h₂).mp h) (by decide)

/-- The empty claim and its hash give quotes with the same claim hash. -/
theorem claimHash_of_digest :
    lengthCrypto.CollisionFree {[], (lengthCrypto.sha256 []).toList}
      ∧ [] ≠ (lengthCrypto.sha256 []).toList
      ∧ ∃ q₁ q₂, generateQuote lengthCrypto (Env.calm Fn 0) ⟨1, Bytes.zero 65⟩ [] (Bytes.zero 32) 32
            Quote.zero = .ok () q₁
        ∧ generateQuote lengthCrypto (Env.calm Fn 0) ⟨1, Bytes.zero 65⟩
            (lengthCrypto.sha256 []).toList (Bytes.zero 32) 32 Quote.zero = .ok () q₂
        ∧ q₁.claimHash = q₂.claimHash := by
  refine ⟨?_, by decide, _, _, rfl, rfl, by decide +kernel⟩
  intro c hc c' hc' h
  rcases hc with rfl | rfl <;> rcases hc' with rfl | rfl
  · rfl
  · exact absurd h (by decide)
  · exact absurd h (by decide)
  · rfl

end Watz.Pta
