import Watz.Lib.Program
import Watz.Message

/-!
# The trusted execution environment under the protocol

The two trusted applications and the attestation service call the TEE for memory, handles and
cryptography.  Any of these calls may fail at any time, so an execution is given the outcome
of each call site by its environment; the environment also supplies what the code draws at
random, what the network delivers and the memory that lies behind the messages of a context.

The cryptographic algorithms themselves are parameters, collected in `Crypto`.
-/

namespace Watz

open Lib

/-! ## Results and call sites -/

/-- The error codes of `TEE_Result` that the code names, and all others. -/
inductive TeeError where
  | generic
  | badParameters
  | shortBuffer
  | security
  | communication
  | macInvalid
  | signatureInvalid
  | targetDead
  | other (code : UInt32)
deriving DecidableEq

/-- How a function ends without success: it returns an error code, or `TEE_Panic` ends the
whole application. -/
inductive Stop where
  | error (e : TeeError)
  | panic
deriving DecidableEq

/-- The calls to the TEE that can fail. -/
inductive Api where
  | malloc
  | allocateTransientObject | populateTransientObject | generateKey | getObjectBufferAttribute
  | allocateOperation | setOperationKey | deriveKey | generateRandom
  | digestDoFinal | macComputeFinal | macCompareFinal
  | asymmetricSignDigest | asymmetricVerifyDigest
  | aeInit | aeEncryptFinal | aeDecryptFinal
  | socketOpen | socketSend
  | openTaSession | invokeTaCommand
  | cryptoHashAllocCtx | cryptoHashInit | cryptoHashUpdate | cryptoHashFinal
  | cryptoAcipherEccSign
deriving DecidableEq

/-- A call site: the calling function, the function called, and which of the calls it is. -/
structure CallSite (F : Type) where
  fn : F
  api : Api
  nth : ℕ
deriving DecidableEq

/-- What an execution meets outside the program, `F` being the functions of the program. -/
structure Env (F : Type) where
  /-- The outcome of each call, `none` being `TEE_SUCCESS`. -/
  outcome : CallSite F → Option Stop
  /-- The private key `TEE_GenerateKey` draws. -/
  freshKey : ℕ
  /-- The randomness of a signature. -/
  nonce : ℕ
  /-- The bytes `TEE_GenerateRandom` draws. -/
  random : Bytes 32
  /-- The memory behind the messages of the context. -/
  tail : List UInt8
  /-- What the successive calls of `recv` deliver. -/
  inbox : List (Except Stop (List UInt8))

/-- Every call succeeds. -/
def Env.AllOk {F : Type} (env : Env F) : Prop := ∀ site, env.outcome site = none

/-- The calls a function makes at the listed sites succeed. -/
def Env.Ok {F : Type} (env : Env F) (fn : F) (sites : List (Api × ℕ)) : Prop :=
  ∀ p ∈ sites, env.outcome ⟨fn, p.1, p.2⟩ = none

instance {F : Type} (env : Env F) (fn : F) (sites : List (Api × ℕ)) :
    Decidable (env.Ok fn sites) := inferInstanceAs (Decidable (∀ p ∈ sites, _))

lemma Env.AllOk.ok {F : Type} {env : Env F} (h : env.AllOk) (fn : F)
    (sites : List (Api × ℕ)) : env.Ok fn sites := fun p _ => h ⟨fn, p.1, p.2⟩

@[simp] lemma Env.ok_nil {F : Type} (env : Env F) (fn : F) : env.Ok fn [] := by simp [Env.Ok]

@[simp] lemma Env.ok_cons {F : Type} (env : Env F) (fn : F) (p : Api × ℕ)
    (sites : List (Api × ℕ)) :
    env.Ok fn (p :: sites) ↔ env.outcome ⟨fn, p.1, p.2⟩ = none ∧ env.Ok fn sites := by
  simp [Env.Ok]

/-- The calls the listed functions make succeed, `sites` giving the calls of each function. -/
def CallsOk {F : Type} (sites : F → List (Api × ℕ)) (env : Env F) (fns : List F) : Prop :=
  ∀ fn ∈ fns, env.Ok fn (sites fn)

section

variable {F : Type} {sites : F → List (Api × ℕ)} {env : Env F} {fn : F}

lemma callsOk_of_allOk (h : env.AllOk) (fns : List F) : CallsOk sites env fns :=
  fun fn _ => h.ok fn (sites fn)

@[simp] lemma callsOk_nil : CallsOk sites env [] := by simp [CallsOk]

@[simp] lemma callsOk_cons {fns : List F} :
    CallsOk sites env (fn :: fns) ↔ env.Ok fn (sites fn) ∧ CallsOk sites env fns := by
  simp [CallsOk]

end

/-- The environment in which every call succeeds and the network is silent. -/
def Env.calm (F : Type) (freshKey : ℕ) : Env F where
  outcome _ := none
  freshKey := freshKey
  nonce := 0
  random := Bytes.zero 32
  tail := []
  inbox := []

lemma Env.calm_allOk (F : Type) (freshKey : ℕ) : (Env.calm F freshKey).AllOk := fun _ => rfl

/-! ## Cryptography -/

/-- A point of the curve by its affine coordinates. -/
@[ext] structure Point where
  x : ℕ
  y : ℕ
deriving DecidableEq

/-- The algorithms the TEE implements. -/
structure Crypto where
  /-- SHA-256. -/
  sha256 : List UInt8 → Bytes 32
  /-- AES-CMAC under a 128-bit key. -/
  cmac : Bytes 16 → List UInt8 → Bytes 16
  /-- The P-256 public key of a private key. -/
  publicKey : ℕ → Point
  publicKey_lt : ∀ d, (publicKey d).x < 256 ^ 32 ∧ (publicKey d).y < 256 ^ 32
  /-- The x-coordinate of the product of a private key and a point. -/
  ecdh : ℕ → Point → Bytes 32
  /-- ECDSA: the signature of a digest under a private key, with its randomness. -/
  sign : ℕ → ℕ → Bytes 32 → Bytes 64
  /-- ECDSA: whether a signature of a digest is valid under a public key. -/
  verify : Point → Bytes 32 → Bytes 64 → Bool
  /-- AES-GCM: the ciphertext and the tag of a plaintext under a key and an iv. -/
  encrypt : Bytes 16 → Bytes 32 → List UInt8 → List UInt8 × Bytes 16
  encrypt_length : ∀ k iv m, (encrypt k iv m).1.length = m.length
  /-- AES-GCM: the plaintext, if the tag is right. -/
  decrypt : Bytes 16 → Bytes 32 → List UInt8 → Bytes 16 → Option (List UInt8)

namespace Crypto

variable (C : Crypto)

/-- ECDSA accepts what it has signed. -/
def VerifySign : Prop := ∀ d nonce h, C.verify (C.publicKey d) h (C.sign d nonce h) = true

/-- Both sides of an ECDH exchange compute the same secret. -/
def EcdhComm : Prop := ∀ a b, C.ecdh a (C.publicKey b) = C.ecdh b (C.publicKey a)

/-- Decryption inverts encryption. -/
def DecryptEncrypt : Prop :=
  ∀ k iv m, C.decrypt k iv (C.encrypt k iv m).1 (C.encrypt k iv m).2 = some m

/-- No two of the given strings have the same digest. -/
def CollisionFree (strings : Set (List UInt8)) : Prop := Set.InjOn C.sha256 strings

/-- A signature is valid for no other digests than the given ones. -/
def ValidOnlyFor (key : Point) (signature : Bytes 64) (digests : Set (Bytes 32)) : Prop :=
  ∀ h, C.verify key h signature = true → h ∈ digests

end Crypto

/-- Algorithms for concrete runs, with the equations the protocol relies on and no security. -/
def Crypto.sample : Crypto where
  sha256 := Bytes.slice 32
  cmac k _ := k
  publicKey d := ⟨d % 256 ^ 32, (d + 1) % 256 ^ 32⟩
  publicKey_lt _ := ⟨Nat.mod_lt _ (by norm_num), Nat.mod_lt _ (by norm_num)⟩
  ecdh _ _ := Bytes.zero 32
  sign _ _ h := Bytes.slice 64 h.toList
  verify _ h sig := sig = Bytes.slice 64 h.toList
  encrypt _ _ m := (m, Bytes.zero 16)
  encrypt_length _ _ _ := rfl
  decrypt _ _ c _ := some c

lemma Crypto.sample_verifySign : Crypto.sample.VerifySign := fun _ _ _ => decide_eq_true rfl

lemma Crypto.sample_validOnlyFor (key : Point) (d nonce : ℕ) (h : Bytes 32) :
    Crypto.sample.ValidOnlyFor key (Crypto.sample.sign d nonce h) {h} := by
  intro h' hverify
  have hsig : Bytes.slice 64 h.toList = Bytes.slice 64 h'.toList := of_decide_eq_true hverify
  have hslice : ∀ b : Bytes 32, Bytes.slice 32 (Bytes.slice 64 b.toList).toList = b := by
    intro b
    have htake : (Bytes.slice 64 b.toList).toList = b.toList ++ List.replicate 32 0 := by
      simp [Bytes.slice, List.take_append]
    rw [htake, Bytes.slice_append]
  rw [Set.mem_singleton_iff, ← hslice h', ← hsig, hslice]

lemma Crypto.sample_ecdhComm : Crypto.sample.EcdhComm := fun _ _ => rfl

lemma Crypto.sample_decryptEncrypt : Crypto.sample.DecryptEncrypt := fun _ _ _ => rfl

/-! ## Objects -/

/-- What an object handle stands for. -/
inductive Obj (α : Type) where
  /-- `TEE_HANDLE_NULL`. -/
  | null
  /-- An allocated object that has not been populated. -/
  | blank
  /-- An object with its attributes. -/
  | key (k : α)
deriving DecidableEq

/-- The content of a populated object. -/
def Obj.get? {α : Type} : Obj α → Option α
  | .key k => some k
  | _ => none

@[simp] lemma Obj.get?_eq_some {α : Type} {h : Obj α} {k : α} : h.get? = some k ↔ h = .key k := by
  cases h <;> simp [Obj.get?]

/-- `TEE_InitRefAttribute`: a reference to an array of the context with a length. -/
structure RefAttribute where
  buffer : Field
  length : ℕ
deriving DecidableEq

/-- `TEE_GetObjectBufferAttribute` of an integer into an array of 32 bytes: the big-endian form
without leading zero bytes, its length going to the size field (`op_attr_bignum_to_user`). -/
def Coord.store (c : Coord) (v : ℕ) : Coord :=
  ⟨c.raw.overwrite (minBigEndian 32 v), UInt32.ofNat (minBigEndian 32 v).length⟩

lemma Coord.store_size (c : Coord) (v : ℕ) :
    (c.store v).size.toNat = (minBigEndian 32 v).length := by
  have h := minBigEndian_length_le 32 v
  simp only [Coord.store, UInt32.toNat_ofNat']
  omega

lemma Coord.store_fits (c : Coord) (v : ℕ) : (c.store v).Fits := by
  rw [Coord.Fits, Coord.store_size]
  exact minBigEndian_length_le 32 v

@[simp] lemma Coord.store_bytes (c : Coord) (v : ℕ) : (c.store v).bytes = minBigEndian 32 v := by
  rw [Coord.bytes, Coord.store_size, Coord.store]
  exact Bytes.take_overwrite (minBigEndian_length_le 32 v)

/-- The coordinates that fill 32 bytes without padding, and zero, which has no bytes at all. -/
def Unpadded (v : ℕ) : Prop := v = 0 ∨ 256 ^ 31 ≤ v

variable {v : ℕ} {fx fy : Field} {tail : List UInt8}

/-- An array of zeros to which a coordinate is exported has its 32-byte form exactly if there is
nothing to pad: a shorter export is written to the beginning of the array. -/
lemma Coord.store_raw_eq_iff {c : Coord} (hc : c.raw = Bytes.zero 32) (hv : v < 256 ^ 32) :
    (c.store v).raw.toList = bigEndian 32 v ↔ Unpadded v := by
  have hle := minBigEndian_length_le 32 v
  rw [Coord.store, Bytes.overwrite_toList hle, hc, bigEndian_eq_zeros_append, Unpadded,
    ← minBigEndian_eq_nil_iff hv, ← minBigEndian_length_eq_iff hv]
  cases hm : minBigEndian 32 v with
  | nil => simp [Bytes.zero]
  | cons b l =>
    rw [hm] at hle
    constructor
    · intro h
      by_contra hshort
      -- the padded form begins with a zero byte, the minimal one does not
      obtain ⟨k, hk⟩ : ∃ k, 32 - (b :: l).length = k + 1 :=
        ⟨32 - (b :: l).length - 1, by have := not_or.mp hshort; omega⟩
      rw [hk, List.replicate_succ, List.cons_append, List.cons_append] at h
      exact minBigEndian_head_ne_zero hm (List.cons.inj h).1
    · rintro (h | h)
      · exact absurd h (by simp)
      · simp [Bytes.zero, h]

lemma Coord.ofBigEndian_store_bytes (c : Coord) (h : v < 256 ^ 32) :
    ofBigEndian (c.store v).bytes = v := by
  rw [Coord.store_bytes, ofBigEndian_minBigEndian h]

/-- The point that two arrays spell, each read as far as its size field says. -/
def Messages.point (m : Messages) (tail : List UInt8) (fx fy : Field) : Option Point := do
  let x ← m.read tail fx (fx.coord m).size.toNat
  let y ← m.read tail fy (fy.coord m).size.toNat
  pure ⟨ofBigEndian x, ofBigEndian y⟩

lemma Messages.point_eq_some {m : Messages} {key : Point} :
    m.point tail fx fy = some key ↔
      ∃ x y, m.read tail fx (fx.coord m).size.toNat = some x
        ∧ m.read tail fy (fy.coord m).size.toNat = some y
        ∧ ⟨ofBigEndian x, ofBigEndian y⟩ = key := by
  simp [Messages.point, Option.bind_eq_some_iff]

lemma Messages.point_of_fits (m : Messages) (tail : List UInt8) (hx : (fx.coord m).Fits)
    (hy : (fy.coord m).Fits) :
    m.point tail fx fy
      = some ⟨ofBigEndian (fx.coord m).bytes, ofBigEndian (fy.coord m).bytes⟩ :=
  point_eq_some.mpr ⟨_, _, m.read_coord tail fx hx, m.read_coord tail fy hy, rfl⟩

lemma Messages.exists_point (m : Messages) (htail : 2 ^ 32 ≤ tail.length) (fx fy : Field) :
    ∃ key, m.point tail fx fy = some key := by
  obtain ⟨x, hx⟩ := m.exists_read htail fx (fx.coord m).size
  obtain ⟨y, hy⟩ := m.exists_read htail fy (fy.coord m).size
  exact ⟨_, point_eq_some.mpr ⟨x, y, hx, hy, rfl⟩⟩

/-! ## Programs over a context -/

/-- The state of an application: its context, the messages in it, and the reads made through
size fields so far, which the code does not keep. -/
structure TaState (κ : Type) where
  ctx : κ
  msgs : Messages
  reads : List (Field × ℕ)

namespace TaState

variable {κ : Type}

/-- Note reads made through size fields. -/
def log (s : TaState κ) (l : List (Field × ℕ)) : TaState κ := { s with reads := s.reads ++ l }

@[simp, grind =] lemma log_msgs (s : TaState κ) (l : List (Field × ℕ)) : (s.log l).msgs = s.msgs := rfl

@[simp, grind =] lemma log_reads (s : TaState κ) (l : List (Field × ℕ)) :
    (s.log l).reads = s.reads ++ l := rfl

@[simp, grind =] lemma log_nil (s : TaState κ) : s.log [] = s := by simp [log]

@[simp, grind =] lemma log_log (s : TaState κ) (l r : List (Field × ℕ)) :
    (s.log l).log r = s.log (l ++ r) := by simp [log]

end TaState

/-- The read a use of an array makes. -/
def Messages.use (m : Messages) (f : Field) : Field × ℕ := (f, (f.coord m).size.toNat)

section Programs

variable {F κ σ α : Type} (env : Env F)

/-- A call whose outcome the environment decides. -/
def tee (fn : F) (api : Api) (nth : ℕ) : EStateM Stop σ Unit :=
  match env.outcome ⟨fn, api, nth⟩ with
  | none => pure ()
  | some stop => throw stop

/-- A call that returns nothing: every failure is a panic. -/
def teeVoid (fn : F) (api : Api) (nth : ℕ) : EStateM Stop σ Unit :=
  match env.outcome ⟨fn, api, nth⟩ with
  | none => pure ()
  | some _ => throw .panic

/-- The content of an object.  Using a null or an unpopulated object panics. -/
def content (fn : F) (api : Api) (nth : ℕ) (h : Obj α) : EStateM Stop σ α := do
  tee env fn api nth
  match h with
  | .key k => pure k
  | _ => throw .panic

/-- Read `n` bytes from an array of the context. -/
def readField (f : Field) (n : ℕ) : EStateM Stop (TaState κ) (List UInt8) := do
  modify fun s => s.log [(f, n)]
  let s ← get
  match s.msgs.read env.tail f n with
  | some bs => pure bs
  | none => throw .panic

/-- Read as many bytes from an array as its size field says. -/
def readCoord (f : Field) : EStateM Stop (TaState κ) (List UInt8) := do
  let s ← get
  readField env f (f.coord s.msgs).size.toNat

/-- Feed arrays one after the other to a digest or a MAC; the result is all of the data. -/
def updates : List Field → EStateM Stop (TaState κ) (List UInt8)
  | [] => pure []
  | f :: fs => do
    let a ← readCoord env f
    let b ← updates fs
    pure (a ++ b)

/-- Read the array a reference attribute points to. -/
def readAttribute (a : Option RefAttribute) : EStateM Stop (TaState κ) (List UInt8) :=
  match a with
  | some r => readField env r.buffer r.length
  | none => throw .panic

variable {env} {fn : F} {api : Api} {nth n : ℕ} {bs : List UInt8} {s s' : TaState κ}
  {a : Option RefAttribute}

variable {u : Unit} {stop : Stop} {e : TeeError}

lemma tee_eq_ok {s s' : σ} :
    tee env fn api nth s = .ok u s' ↔ env.outcome ⟨fn, api, nth⟩ = none ∧ s = s' := by
  rw [tee]
  cases h : env.outcome ⟨fn, api, nth⟩ with
  | none => simp [pure_eq_ok]
  | some stop => simp [throw_eq_ok]

lemma tee_of_some {s : σ} (h : env.outcome ⟨fn, api, nth⟩ = some stop) :
    tee env fn api nth s = .error stop s := by
  rw [tee, h]
  rfl

lemma teeVoid_eq_ok {s s' : σ} :
    teeVoid env fn api nth s = .ok u s' ↔ env.outcome ⟨fn, api, nth⟩ = none ∧ s = s' := by
  rw [teeVoid]
  cases h : env.outcome ⟨fn, api, nth⟩ with
  | none => simp [pure_eq_ok]
  | some stop => simp [throw_eq_ok]

lemma content_eq_ok {h : Obj α} {s s' : σ} {k : α} :
    content env fn api nth h s = .ok k s' ↔
      env.outcome ⟨fn, api, nth⟩ = none ∧ h = .key k ∧ s = s' := by
  unfold content
  rw [bind_eq_ok]
  constructor
  · rintro ⟨u, t, htee, hmatch⟩
    obtain ⟨hout, rfl⟩ := tee_eq_ok.mp htee
    cases h with
    | key k' =>
      obtain ⟨rfl, rfl⟩ := pure_eq_ok.mp hmatch
      exact ⟨hout, rfl, rfl⟩
    | null => exact (throw_eq_ok.mp hmatch).elim
    | blank => exact (throw_eq_ok.mp hmatch).elim
  · rintro ⟨hout, rfl, rfl⟩
    exact ⟨(), s, tee_eq_ok.mpr ⟨hout, rfl⟩, pure_eq_ok.mpr ⟨rfl, rfl⟩⟩

lemma readField_eq_ok {f : Field} :
    readField env f n s = .ok bs s' ↔
      s.msgs.read env.tail f n = some bs ∧ s.log [(f, n)] = s' := by
  rw [readField, bind_eq_ok]
  constructor
  · rintro ⟨u, t, hmod, h⟩
    obtain rfl := modify_eq_ok.mp hmod
    obtain ⟨t', t'', hget, h⟩ := bind_eq_ok.mp h
    obtain ⟨rfl, rfl⟩ := get_eq_ok.mp hget
    cases hr : s.msgs.read env.tail f n with
    | some bs' =>
      simp only [TaState.log_msgs, hr] at h
      obtain ⟨rfl, rfl⟩ := pure_eq_ok.mp h
      exact ⟨rfl, rfl⟩
    | none =>
      simp only [TaState.log_msgs, hr] at h
      exact (throw_eq_ok.mp h).elim
  · rintro ⟨hr, rfl⟩
    refine ⟨(), _, modify_eq_ok.mpr rfl, bind_eq_ok.mpr ⟨_, _, get_eq_ok.mpr ⟨rfl, rfl⟩, ?_⟩⟩
    simp only [TaState.log_msgs, hr]
    exact pure_eq_ok.mpr ⟨rfl, rfl⟩

lemma readCoord_eq_ok {f : Field} :
    readCoord env f s = .ok bs s' ↔
      s.msgs.read env.tail f (f.coord s.msgs).size.toNat = some bs
        ∧ s.log [s.msgs.use f] = s' := by
  simp only [readCoord, bind_eq_ok, get_eq_ok, Messages.use]
  constructor
  · rintro ⟨t, t', ⟨rfl, rfl⟩, h⟩
    exact readField_eq_ok.mp h
  · intro h
    exact ⟨s, s, ⟨rfl, rfl⟩, readField_eq_ok.mpr h⟩

lemma updates_eq_ok {fs : List Field} :
    updates env fs s = .ok bs s' ↔
      s.msgs.concat env.tail fs = some bs ∧ s.log (fs.map s.msgs.use) = s' := by
  induction fs generalizing s s' bs with
  | nil => simp [updates, Messages.concat, pure_eq_ok]
  | cons f fs ih =>
    simp only [updates, bind_eq_ok, readCoord_eq_ok, pure_eq_ok, ih, Messages.concat]
    constructor
    · rintro ⟨a, t, ⟨ha, rfl⟩, b, t', ⟨hb, rfl⟩, rfl, rfl⟩
      rw [TaState.log_msgs] at hb
      simp [ha, hb]
    · rintro ⟨hconcat, rfl⟩
      simp only [Option.bind_eq_bind, Option.bind_eq_some_iff, Option.pure_def,
        Option.some.injEq] at hconcat
      obtain ⟨a, ha, b, hb, rfl⟩ := hconcat
      refine ⟨a, _, ⟨ha, rfl⟩, b, _, ⟨hb, rfl⟩, rfl, ?_⟩
      simp

lemma readAttribute_eq_ok :
    readAttribute env a s = .ok bs s' ↔
      ∃ r, a = some r ∧ s.msgs.read env.tail r.buffer r.length = some bs
        ∧ s.log [(r.buffer, r.length)] = s' := by
  cases a with
  | none => simp [readAttribute, throw_eq_ok]
  | some r => simp [readAttribute, readField_eq_ok]

/-! The same for a program that begins with one of these. -/

section

variable {β : Type} {b : β}

lemma tee_bind_eq_ok {f : Unit → EStateM Stop σ β} {s s' : σ} :
    (tee env fn api nth >>= f) s = .ok b s' ↔
      env.outcome ⟨fn, api, nth⟩ = none ∧ f () s = .ok b s' := by
  simp [bind_eq_ok, tee_eq_ok, Unique.exists_iff]

lemma teeVoid_bind_eq_ok {f : Unit → EStateM Stop σ β} {s s' : σ} :
    (teeVoid env fn api nth >>= f) s = .ok b s' ↔
      env.outcome ⟨fn, api, nth⟩ = none ∧ f () s = .ok b s' := by
  simp [bind_eq_ok, teeVoid_eq_ok, Unique.exists_iff]

lemma content_bind_eq_ok {h : Obj α} {f : α → EStateM Stop σ β} {s s' : σ} :
    (content env fn api nth h >>= f) s = .ok b s' ↔
      env.outcome ⟨fn, api, nth⟩ = none ∧ ∃ k, h = .key k ∧ f k s = .ok b s' := by
  simp [bind_eq_ok, content_eq_ok, and_assoc]

variable {f : List UInt8 → EStateM Stop (TaState κ) β}

lemma readField_bind_eq_ok {g : Field} :
    (readField env g n >>= f) s = .ok b s' ↔
      ∃ bs, s.msgs.read env.tail g n = some bs ∧ f bs (s.log [(g, n)]) = .ok b s' := by
  simp [bind_eq_ok, readField_eq_ok, and_assoc]

lemma updates_bind_eq_ok {fs : List Field} :
    (updates env fs >>= f) s = .ok b s' ↔
      ∃ bs, s.msgs.concat env.tail fs = some bs ∧ f bs (s.log (fs.map s.msgs.use)) = .ok b s' := by
  simp [bind_eq_ok, updates_eq_ok, and_assoc]

lemma readAttribute_bind_eq_ok :
    (readAttribute env a >>= f) s = .ok b s' ↔
      ∃ r bs, a = some r ∧ s.msgs.read env.tail r.buffer r.length = some bs
        ∧ f bs (s.log [(r.buffer, r.length)]) = .ok b s' := by
  simp only [bind_eq_ok, readAttribute_eq_ok]
  constructor
  · rintro ⟨bs, _, ⟨r, ha, hr, rfl⟩, h⟩
    exact ⟨r, bs, ha, hr, h⟩
  · rintro ⟨r, bs, ha, hr, h⟩
    exact ⟨bs, _, ⟨r, ha, hr, rfl⟩, h⟩

end

/-! The errors these return. -/

lemma tee_eq_error {s s' : σ} :
    tee env fn api nth s = .error stop s' ↔ env.outcome ⟨fn, api, nth⟩ = some stop ∧ s = s' := by
  cases hout : env.outcome ⟨fn, api, nth⟩ with
  | none =>
    rw [tee, hout]
    show EStateM.Result.ok () s = _ ↔ _
    simp
  | some stop' =>
    rw [tee_of_some hout]
    simp

lemma content_eq_error {h : Obj α} {s s' : σ} :
    content env fn api nth h s = .error (.error e) s' ↔
      env.outcome ⟨fn, api, nth⟩ = some (.error e) ∧ s = s' := by
  unfold content
  rw [bind_eq_error, tee_eq_error]
  refine or_iff_left ?_
  rintro ⟨_, t, -, hmatch⟩
  cases h with
  | key k => exact nomatch (hmatch : EStateM.Result.ok k t = _)
  | null => exact nomatch (hmatch : EStateM.Result.error Stop.panic t = _)
  | blank => exact nomatch (hmatch : EStateM.Result.error Stop.panic t = _)

lemma readField_ne_error {f : Field} :
    readField env f n s ≠ .error (.error e) s' := by
  intro h
  change (match s.msgs.read env.tail f n with
    | some bs => pure bs
    | none => throw .panic : EStateM Stop (TaState κ) (List UInt8)) (s.log [(f, n)]) = _ at h
  cases hread : s.msgs.read env.tail f n with
  | some bs =>
    rw [hread] at h
    exact nomatch (h : EStateM.Result.ok bs _ = _)
  | none =>
    rw [hread] at h
    exact nomatch (h : EStateM.Result.error Stop.panic _ = _)

/-! Calls change nothing, and reads change only the record of the reads. -/

lemma keeps_tee {I : σ → Prop} : Keeps I (tee env fn api nth) := by
  rw [tee]
  cases env.outcome ⟨fn, api, nth⟩ with
  | none => exact Keeps.pure ()
  | some stop => exact Keeps.throw stop

lemma keeps_teeVoid {I : σ → Prop} :
    Keeps I (teeVoid env fn api nth) := by
  rw [teeVoid]
  cases env.outcome ⟨fn, api, nth⟩ with
  | none => exact Keeps.pure ()
  | some stop => exact Keeps.throw _

lemma keeps_content {I : σ → Prop} {h : Obj α} :
    Keeps I (content env fn api nth h) := by
  refine Keeps.bind keeps_tee fun _ => ?_
  cases h with
  | key k => exact Keeps.pure k
  | null => exact Keeps.throw _
  | blank => exact Keeps.throw _

lemma triple_content_null {I : σ → Prop} :
    Triple I (content env fn api nth (.null : Obj α)) (fun _ _ => False) I :=
  Triple.bind keeps_tee fun _ => Triple.throw fun _ hs => hs

section

variable {I : TaState κ → Prop}

lemma keeps_readField {f : Field} (h : ∀ s, I s → I (s.log [(f, n)])) :
    Keeps I (readField env f n) := by
  refine Keeps.bind (Keeps.modify h) fun _ => Keeps.bind Keeps.get fun s => ?_
  cases s.msgs.read env.tail f n with
  | some bs => exact Keeps.pure bs
  | none => exact Keeps.throw _

lemma keeps_readCoord {f : Field} (h : ∀ s, I s → I (s.log [s.msgs.use f])) :
    Keeps I (readCoord env f) := by
  intro s hs
  have hlog : ∀ n, n = (f.coord s.msgs).size.toNat →
      Triple (fun t => t = s) (readField env f n) (fun _ => I) I := by
    rintro n rfl
    refine Triple.bind (Q := fun _ => I) (Triple.modify ?_) fun _ =>
      Keeps.bind Keeps.get fun t => ?_
    · rintro t rfl
      exact h t hs
    · cases t.msgs.read env.tail f (f.coord s.msgs).size.toNat with
      | some bs => exact Keeps.pure bs
      | none => exact Keeps.throw _
  exact hlog _ rfl s rfl

lemma keeps_updates {fs : List Field} (h : ∀ f ∈ fs, ∀ s, I s → I (s.log [s.msgs.use f])) :
    Keeps I (updates env fs) := by
  induction fs with
  | nil => exact Keeps.pure []
  | cons f fs ih =>
    refine Keeps.bind (keeps_readCoord (h f (by simp))) fun a => ?_
    refine Keeps.bind (ih fun g hg => h g (List.mem_cons_of_mem f hg)) fun b => ?_
    exact Keeps.pure (a ++ b)

lemma keeps_readAttribute (h : ∀ r, a = some r → ∀ s, I s → I (s.log [(r.buffer, r.length)])) :
    Keeps I (readAttribute env a) := by
  cases a with
  | none => exact Keeps.throw _
  | some r => exact keeps_readField (h r rfl)

end

/-! ## Reads inside the arrays -/

/-- All reads so far have stayed within the array they started in. -/
def TaState.Inside (s : TaState κ) : Prop := ∀ r ∈ s.reads, r.2 ≤ 32

/-- All reads so far have stayed inside, and the listed size fields and the references of the
context allow only such reads. -/
structure TaState.Bounded (refs : κ → List (Option RefAttribute)) (fs : List Field)
    (s : TaState κ) : Prop where
  inside : s.Inside
  fits : ∀ f ∈ fs, (f.coord s.msgs).Fits
  refs_le : ∀ a ∈ refs s.ctx, ∀ r, a = some r → r.length ≤ 32

section

variable {refs : κ → List (Option RefAttribute)} {fs : List Field}

lemma TaState.Bounded.log (h : s.Bounded refs fs) {r : Field × ℕ} (hr : r.2 ≤ 32) :
    (s.log [r]).Bounded refs fs where
  inside q hq := by
    rcases List.mem_append.mp hq with hq | hq
    · exact h.inside q hq
    · rw [List.mem_singleton.mp hq]
      exact hr
  fits := h.fits
  refs_le := h.refs_le

lemma TaState.Bounded.of_eq {t : TaState κ} (h : s.Bounded refs fs) (hreads : t.reads = s.reads)
    (hfits : ∀ f ∈ fs, (f.coord t.msgs).Fits) (hrefs : refs t.ctx = refs s.ctx) :
    t.Bounded refs fs where
  inside := by
    rw [Inside, hreads]
    exact h.inside
  fits := hfits
  refs_le := by
    rw [hrefs]
    exact h.refs_le

end

end Programs

end Watz
