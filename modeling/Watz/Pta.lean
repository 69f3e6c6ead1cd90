import Watz.Tee

/-!
# The attestation service

The pseudo trusted application of the attester's TEE (`attesting_service.c`), which holds the
attestation key and signs quotes.  Its key pair is derived when it is created; here it is a
parameter.
-/

namespace Watz.Pta

open Lib

/-- The functions of the service that call the cryptographic library of the TEE. -/
inductive Fn where
  | hashByteArray
  | hashQuote
  | generateQuote
deriving DecidableEq

/-- `attestation_ecdsa_keypair` and `ltc_attestation_exported_public_key`. -/
structure AttestationKey where
  keypair : ℕ
  exportedPublicKey : Bytes 65

/-- `RA_CURRENT_VERSION`. -/
def raCurrentVersion : UInt32 := 1

/-- What `hash_quote` feeds to the digest. -/
def hashQuoteInput (q : Quote) : List UInt8 :=
  q.anchor.toList ++ (le32 q.version ++ (q.claimHash.toList ++ q.attestationKey.toList))

section

variable (C : Crypto) (env : Env Fn)

/-- `hash_byte_array`. -/
def hashByteArray {σ : Type} (src : List UInt8) : EStateM Stop σ (Bytes 32) := do
  tee env .hashByteArray .cryptoHashAllocCtx 0
  tee env .hashByteArray .cryptoHashInit 0
  tee env .hashByteArray .cryptoHashUpdate 0
  tee env .hashByteArray .cryptoHashFinal 0
  pure (C.sha256 src)

/-- `hash_quote`. -/
def hashQuote {σ : Type} (q : Quote) : EStateM Stop σ (Bytes 32) := do
  tee env .hashQuote .cryptoHashAllocCtx 0
  tee env .hashQuote .cryptoHashInit 0
  tee env .hashQuote .cryptoHashUpdate 0
  tee env .hashQuote .cryptoHashUpdate 1
  tee env .hashQuote .cryptoHashUpdate 2
  tee env .hashQuote .cryptoHashUpdate 3
  tee env .hashQuote .cryptoHashFinal 0
  pure (C.sha256 (hashQuoteInput q))

/-- The hash of the claim: a claim of the length of a hash is taken for one. -/
def hashClaim {σ : Type} (claim : List UInt8) : EStateM Stop σ (Bytes 32) :=
  if claim.length = 32 then pure (Bytes.slice 32 claim) else hashByteArray C env claim

/-- `generate_quote`, on the quote of the caller.  Whatever the size of the anchor, 32 bytes are
copied from its address: `anchor` is what is there. -/
def generateQuote (key : AttestationKey) (claim : List UInt8) (anchor : Bytes 32)
    (anchorSize : ℕ) : EStateM Stop Quote Unit := do
  failIf (32 < anchorSize) (.error .shortBuffer)
  modify fun _ => { Quote.zero with
    version := raCurrentVersion
    anchor := anchor
    attestationKey := key.exportedPublicKey }
  let claimHash ← hashClaim C env claim
  modify fun q => { q with claimHash := claimHash }
  let q ← get
  let quoteHash ← hashQuote C env q
  tee env .generateQuote .cryptoAcipherEccSign 0
  modify fun q => { q with signature := C.sign key.keypair env.nonce quoteHash }

end

/-! ## When a quote is generated -/

/-- The calls each function makes on its way to success. -/
def Fn.sites : Fn → List (Api × ℕ)
  | hashByteArray =>
    [(.cryptoHashAllocCtx, 0), (.cryptoHashInit, 0), (.cryptoHashUpdate, 0), (.cryptoHashFinal, 0)]
  | hashQuote =>
    [(.cryptoHashAllocCtx, 0), (.cryptoHashInit, 0), (.cryptoHashUpdate, 0),
      (.cryptoHashUpdate, 1), (.cryptoHashUpdate, 2), (.cryptoHashUpdate, 3), (.cryptoHashFinal, 0)]
  | generateQuote => [(.cryptoAcipherEccSign, 0)]

/-- The claim hash the service puts into a quote. -/
def claimHashOf (C : Crypto) (claim : List UInt8) : Bytes 32 :=
  if claim.length = 32 then Bytes.slice 32 claim else C.sha256 claim

/-- A quote of the service before it is signed. -/
def unsignedQuote (C : Crypto) (key : AttestationKey) (claim : List UInt8) (anchor : Bytes 32) :
    Quote :=
  { Quote.zero with
    version := raCurrentVersion
    anchor := anchor
    attestationKey := key.exportedPublicKey
    claimHash := claimHashOf C claim }

/-- The quote of the service. -/
def signedQuote (C : Crypto) (key : AttestationKey) (nonce : ℕ) (claim : List UInt8)
    (anchor : Bytes 32) : Quote :=
  { unsignedQuote C key claim anchor with
    signature := C.sign key.keypair nonce
      (C.sha256 (hashQuoteInput (unsignedQuote C key claim anchor))) }

section

variable {C : Crypto} {env : Env Fn}

variable {h : Bytes 32} {σ : Type} {s s' : σ}

lemma hashByteArray_eq_ok {src : List UInt8} :
    hashByteArray C env src s = .ok h s' ↔
      env.Ok .hashByteArray Fn.hashByteArray.sites ∧ C.sha256 src = h ∧ s = s' := by
  simp only [hashByteArray, tee_bind_eq_ok, pure_eq_ok, Fn.sites, Env.ok_cons, Env.ok_nil]
  tauto

lemma hashQuote_eq_ok {q : Quote} :
    hashQuote C env q s = .ok h s' ↔
      env.Ok .hashQuote Fn.hashQuote.sites ∧ C.sha256 (hashQuoteInput q) = h ∧ s = s' := by
  simp only [hashQuote, tee_bind_eq_ok, pure_eq_ok, Fn.sites, Env.ok_cons, Env.ok_nil]
  tauto

lemma hashClaim_eq_ok {claim : List UInt8} :
    hashClaim C env claim s = .ok h s' ↔
      (claim.length ≠ 32 → env.Ok .hashByteArray Fn.hashByteArray.sites)
        ∧ claimHashOf C claim = h ∧ s = s' := by
  rw [hashClaim, claimHashOf]
  by_cases hlen : claim.length = 32
  · simp [hlen, pure_eq_ok]
  · simp [hlen, hashByteArray_eq_ok]

lemma generateQuote_eq_ok {key : AttestationKey} {claim : List UInt8} {anchor : Bytes 32}
    {anchorSize : ℕ} {q q' : Quote} {u : Unit} :
    generateQuote C env key claim anchor anchorSize q = .ok u q' ↔
      anchorSize ≤ 32 ∧ (claim.length ≠ 32 → env.Ok .hashByteArray Fn.hashByteArray.sites)
        ∧ env.Ok .hashQuote Fn.hashQuote.sites ∧ env.Ok .generateQuote Fn.generateQuote.sites
        ∧ signedQuote C key env.nonce claim anchor = q' := by
  rw [generateQuote, failIf_bind_eq_ok, not_lt, modify_bind_eq_ok]
  simp only [bind_eq_ok, hashClaim_eq_ok, hashQuote_eq_ok, modify_eq_ok, get_eq_ok, tee_eq_ok,
    Fn.sites, Env.ok_cons, Env.ok_nil]
  constructor
  · rintro ⟨hsize, _, _, ⟨h1, rfl, rfl⟩, _, _, rfl, _, _, ⟨rfl, rfl⟩, _, _, ⟨h2, rfl, rfl⟩, _, _,
      ⟨h3, rfl⟩, rfl⟩
    exact ⟨hsize, h1, h2, ⟨h3, trivial⟩, rfl⟩
  · rintro ⟨hsize, h1, h2, ⟨h3, -⟩, rfl⟩
    exact ⟨hsize, _, _, ⟨h1, rfl, rfl⟩, (), _, rfl, _, _, ⟨rfl, rfl⟩, _, _, ⟨h2, rfl, rfl⟩, (), _,
      ⟨h3, rfl⟩, rfl⟩

end

end Watz.Pta
