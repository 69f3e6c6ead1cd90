import Watz.KeyDerivation

/-!
# The verifier

The functions of `verifier.c`, which the trusted application of the relying party runs on one
context: it answers `msg0` with `msg1`, checks the quote in `msg2` and encrypts its secret into
`msg3`.
-/

namespace Watz.Verifier

open Lib

/-- The functions of the verifier that call the TEE. -/
inductive Fn where
  | configureCustomSecret
  | importAttesterAttestationKey
  | generateEcdsaKeypair
  | generateEcdhKeypair
  | populateAttesterKey
  | deriveSharedKey
  | deriveSharedMacKey (key : SharedKey)
  | appendEcdhPublicKeysSignature
  | appendMac
  | verifyMacMsg2
  | verifyQuoteSignature
  | verifyAnchor
  | allocateMsg3
  | encryptMsg3
deriving DecidableEq

/-- `ra_context_verifier`, without the messages, which `TaState` keeps. -/
structure RaContextVerifier where
  /-- `secret` and `secret_size`. -/
  secret : List UInt8
  ecdsaAttesterPublicKeyHandle : Obj Point
  ecdhAttesterPublicKeyXAttr : Option RefAttribute
  ecdhAttesterPublicKeyYAttr : Option RefAttribute
  ecdhAttesterPublicKeyHandle : Obj Point
  ecdsaLocalKeypairHandle : Obj ℕ
  ecdhLocalKeypairHandle : Obj ℕ
  ecdhSharedKeyDerivationKey : Obj (Bytes 16)
  ecdhSharedMacKey : Obj (Bytes 16)
  ecdhSharedSessionKey : Obj (Bytes 16)
  isQuoteValid : Bool
  msg3Size : ℕ

/-- The state of the verifier. -/
abbrev State := TaState RaContextVerifier

/-- `context_singleton` when the application is loaded. -/
def State.zero : State where
  ctx :=
    { secret := []
      ecdsaAttesterPublicKeyHandle := .null
      ecdhAttesterPublicKeyXAttr := none
      ecdhAttesterPublicKeyYAttr := none
      ecdhAttesterPublicKeyHandle := .null
      ecdsaLocalKeypairHandle := .null
      ecdhLocalKeypairHandle := .null
      ecdhSharedKeyDerivationKey := .null
      ecdhSharedMacKey := .null
      ecdhSharedSessionKey := .null
      isQuoteValid := false
      msg3Size := 0 }
  msgs := Messages.zero
  reads := []

/-- Assign `is_quote_valid`. -/
def State.setQuoteValid (s : State) (b : Bool) : State := { s with ctx.isQuoteValid := b }

/-- A function of the verifier: it works on the context and returns a `TEE_Result`. -/
abbrev Prog (α : Type) := EStateM Stop State α

/-- `RA_IMX_TEST_PUBLIC_KEY_X` and `RA_IMX_TEST_PUBLIC_KEY_Y`. -/
def raImxTestPublicKey : Point where
  x := ofBigEndian
    [0x48, 0xee, 0xee, 0x81, 0xde, 0x28, 0xdb, 0x3e, 0x5d, 0x5a, 0xfc, 0x7d, 0x4b, 0x7e, 0xa4,
      0xb1, 0xac, 0x16, 0xa2, 0xd7, 0xa9, 0x97, 0x8c, 0x1f, 0x84, 0xb4, 0x35, 0x57, 0x30, 0x64,
      0x38, 0x47]
  y := ofBigEndian
    [0xf7, 0xf2, 0xce, 0x32, 0x43, 0x4e, 0xab, 0x77, 0x93, 0x53, 0x74, 0x8e, 0xee, 0x64, 0xe7,
      0x29, 0x76, 0x34, 0x0e, 0x80, 0x5d, 0x87, 0xc2, 0xb6, 0x98, 0x4a, 0xa5, 0xd1, 0x2d, 0x30,
      0x3f, 0xaf]

section

variable (C : Crypto) (env : Env Fn)

/-! ## Opening a session -/

/-- `import_attester_attestation_key`.  The key is compiled into the application; it is a
parameter here. -/
def importAttesterAttestationKey (attestationKey : Point) : Prog Unit := do
  tee env .importAttesterAttestationKey .allocateTransientObject 0
  modify fun s => { s with ctx.ecdsaAttesterPublicKeyHandle := .blank }
  tee env .importAttesterAttestationKey .populateTransientObject 0
  modify fun s => { s with ctx.ecdsaAttesterPublicKeyHandle := .key attestationKey }

/-- `generate_ecdsa_keypair`. -/
def generateEcdsaKeypair : Prog Unit := do
  tee env .generateEcdsaKeypair .allocateTransientObject 0
  modify fun s => { s with ctx.ecdsaLocalKeypairHandle := .blank }
  tee env .generateEcdsaKeypair .generateKey 0
  modify fun s => { s with ctx.ecdsaLocalKeypairHandle := .key env.freshKey }
  modify fun s => { s with
    msgs.msg1.ecdsaVerifierPublicKeyX.size := 32
    msgs.msg1.ecdsaVerifierPublicKeyY.size := 32 }
  tee env .generateEcdsaKeypair .getObjectBufferAttribute 0
  modify fun s => { s with
    msgs.msg1.ecdsaVerifierPublicKeyX :=
      s.msgs.msg1.ecdsaVerifierPublicKeyX.store (C.publicKey env.freshKey).x }
  tee env .generateEcdsaKeypair .getObjectBufferAttribute 1
  modify fun s => { s with
    msgs.msg1.ecdsaVerifierPublicKeyY :=
      s.msgs.msg1.ecdsaVerifierPublicKeyY.store (C.publicKey env.freshKey).y }

/-! ## Message 0 -/

/-- `generate_ecdh_keypair`. -/
def generateEcdhKeypair : Prog Unit := do
  tee env .generateEcdhKeypair .allocateTransientObject 0
  modify fun s => { s with ctx.ecdhLocalKeypairHandle := .blank }
  tee env .generateEcdhKeypair .generateKey 0
  modify fun s => { s with ctx.ecdhLocalKeypairHandle := .key env.freshKey }
  modify fun s => { s with
    msgs.msg1.ecdhVerifierPublicKeyX.size := 32
    msgs.msg1.ecdhVerifierPublicKeyY.size := 32 }
  tee env .generateEcdhKeypair .getObjectBufferAttribute 0
  modify fun s => { s with
    msgs.msg1.ecdhVerifierPublicKeyX :=
      s.msgs.msg1.ecdhVerifierPublicKeyX.store (C.publicKey env.freshKey).x }
  tee env .generateEcdhKeypair .getObjectBufferAttribute 1
  modify fun s => { s with
    msgs.msg1.ecdhVerifierPublicKeyY :=
      s.msgs.msg1.ecdhVerifierPublicKeyY.store (C.publicKey env.freshKey).y }

/-- `store_msg0`. -/
def storeMsg0 (buffer : List UInt8) : Prog Unit := do
  failIf (buffer.length < Msg0.layout.size) (.error .shortBuffer)
  modify fun s => { s with msgs.msg0 := Msg0.layout.dec buffer }

/-- `populate_attester_key`. -/
def populateAttesterKey : Prog Unit := do
  modify fun s => { s with
    ctx.ecdhAttesterPublicKeyXAttr :=
      some ⟨.attesterX, s.msgs.msg0.ecdhAttesterPublicKeyX.size.toNat⟩
    ctx.ecdhAttesterPublicKeyYAttr :=
      some ⟨.attesterY, s.msgs.msg0.ecdhAttesterPublicKeyY.size.toNat⟩ }
  tee env .populateAttesterKey .allocateTransientObject 0
  modify fun s => { s with ctx.ecdhAttesterPublicKeyHandle := .blank }
  let s ← get
  let x ← readAttribute env s.ctx.ecdhAttesterPublicKeyXAttr
  let y ← readAttribute env s.ctx.ecdhAttesterPublicKeyYAttr
  tee env .populateAttesterKey .populateTransientObject 0
  modify fun s => { s with
    ctx.ecdhAttesterPublicKeyHandle := .key ⟨ofBigEndian x, ofBigEndian y⟩ }

/-- `derive_shared_key`. -/
def deriveSharedKey : Prog Unit := do
  let s ← get
  let mac ← deriveSharedSecret C env .deriveSharedKey s.ctx.ecdhLocalKeypairHandle
    s.ctx.ecdhAttesterPublicKeyXAttr s.ctx.ecdhAttesterPublicKeyYAttr
  saveKey env .deriveSharedKey 2 1
    (fun h ctx => { ctx with ecdhSharedKeyDerivationKey := h }) mac

/-- The output handle `derive_shared_mac_key` is called with. -/
def RaContextVerifier.putKey : SharedKey → Obj (Bytes 16) → RaContextVerifier → RaContextVerifier
  | .mac, h, ctx => { ctx with ecdhSharedMacKey := h }
  | .session, h, ctx => { ctx with ecdhSharedSessionKey := h }

/-- `derive_shared_mac_key`. -/
def deriveSharedMacKey (key : SharedKey) : Prog Unit := do
  let s ← get
  let mac ← deriveLabel C env (.deriveSharedMacKey key) s.ctx.ecdhSharedKeyDerivationKey key.data
  saveKey env (.deriveSharedMacKey key) 1 1 (RaContextVerifier.putKey key) mac

/-- `handle_msg0`. -/
def handleMsg0 (buffer : List UInt8) : Prog Unit := do
  generateEcdhKeypair C env
  storeMsg0 buffer
  populateAttesterKey env
  deriveSharedKey C env
  deriveSharedMacKey C env .mac
  deriveSharedMacKey C env .session

/-! ## Message 1 -/

/-- `append_ecdh_public_keys_signature`. -/
def appendEcdhPublicKeysSignature : Prog Unit := do
  tee env .appendEcdhPublicKeysSignature .allocateOperation 0
  let data ← updates env signatureFields
  tee env .appendEcdhPublicKeysSignature .digestDoFinal 0
  tee env .appendEcdhPublicKeysSignature .allocateOperation 1
  let s ← get
  let d ← content env .appendEcdhPublicKeysSignature .setOperationKey 0
    s.ctx.ecdsaLocalKeypairHandle
  tee env .appendEcdhPublicKeysSignature .asymmetricSignDigest 0
  modify fun s => { s with msgs.msg1.ecdhSignature := C.sign d env.nonce (C.sha256 data) }

/-- `append_mac`. -/
def appendMac : Prog Unit := do
  tee env .appendMac .allocateOperation 0
  let s ← get
  let k ← content env .appendMac .setOperationKey 0 s.ctx.ecdhSharedMacKey
  let data ← updates env msg1MacFields
  tee env .appendMac .macComputeFinal 0
  modify fun s => { s with msgs.msg1.mac := C.cmac k (data ++ s.msgs.msg1.ecdhSignature.toList) }

/-- `prepare_msg1`: the message to be copied to the buffer.  Its length is what the function
reports as `msg1_size`. -/
def prepareMsg1 (bufferSize : ℕ) : Prog (List UInt8) := do
  failIf (bufferSize < Msg1.layout.size) (.error .shortBuffer)
  appendEcdhPublicKeysSignature C env
  appendMac C env
  let s ← get
  pure (Msg1.layout.enc s.msgs.msg1)

/-! ## Message 2 -/

/-- `store_msg2`. -/
def storeMsg2 (buffer : List UInt8) : Prog Unit := do
  failIf (buffer.length < Msg2.layout.size) (.error .shortBuffer)
  modify fun s => { s with msgs.msg2 := Msg2.layout.dec buffer }

/-- `verify_mac_msg2`. -/
def verifyMacMsg2 : Prog Unit := do
  tee env .verifyMacMsg2 .allocateOperation 0
  let s ← get
  let k ← content env .verifyMacMsg2 .setOperationKey 0 s.ctx.ecdhSharedMacKey
  let data ← updates env msg2MacFields
  tee env .verifyMacMsg2 .macCompareFinal 0
  failIf (C.cmac k (data ++ Quote.layout.enc s.msgs.msg2.quote) ≠ s.msgs.msg2.mac)
    (.error .macInvalid)

/-- `TEE_MemCompare` of two arrays over the length of the first one; a difference is a security
error. -/
def compareFields (f g : Field) : Prog Unit := do
  let s ← get
  let a ← readField env f (f.coord s.msgs).size.toNat
  let b ← readField env g (f.coord s.msgs).size.toNat
  failIf (a ≠ b) (.error .security)

/-- `verify_public_key_msg2_matches_msg0`. -/
def verifyPublicKeyMsg2MatchesMsg0 : Prog Unit := do
  compareFields env .attesterX .localX
  compareFields env .attesterY .localY

/-- What `verify_quote_signature` feeds to the digest. -/
def quoteDigestInput (q : Quote) : List UInt8 :=
  q.anchor.toList ++ (le32 q.version ++ (q.claimHash.toList ++ q.attestationKey.toList))

/-- `verify_quote_signature`. -/
def verifyQuoteSignature : Prog Unit := do
  tee env .verifyQuoteSignature .allocateOperation 0
  let s ← get
  tee env .verifyQuoteSignature .digestDoFinal 0
  let digest := C.sha256 (quoteDigestInput s.msgs.msg2.quote)
  tee env .verifyQuoteSignature .allocateOperation 1
  let key ← content env .verifyQuoteSignature .setOperationKey 0
    s.ctx.ecdsaAttesterPublicKeyHandle
  tee env .verifyQuoteSignature .asymmetricVerifyDigest 0
  failIf (C.verify key digest s.msgs.msg2.quote.signature = false) (.error .signatureInvalid)
  modify fun s => s.setQuoteValid true

/-- `verify_anchor`. -/
def verifyAnchor : Prog Unit := do
  tee env .verifyAnchor .allocateOperation 0
  let data ← updates env anchorFields
  tee env .verifyAnchor .digestDoFinal 0
  let s ← get
  failIf (s.msgs.msg2.quote.anchor ≠ C.sha256 data) (.error .security)

/-- `handle_msg2`. -/
def handleMsg2 (buffer : List UInt8) : Prog Unit := do
  modify fun s => s.setQuoteValid false
  storeMsg2 buffer
  verifyMacMsg2 C env
  verifyPublicKeyMsg2MatchesMsg0 env
  verifyQuoteSignature C env
  verifyAnchor C env

/-! ## Message 3 -/

/-- `allocate_msg3`.  A failed `TEE_Malloc` is not noticed here; the next write goes through the
null pointer. -/
def allocateMsg3 (bufferSize : ℕ) : Prog Unit := do
  modify fun s => { s with ctx.msg3Size := Msg3.layout.size }
  failIf (Msg3.layout.size > bufferSize) (.error .shortBuffer)
  teeVoid env .allocateMsg3 .malloc 0

/-- `encrypt_msg3`: the header and the encrypted content, as they are written to the beginning of
the buffer. -/
def encryptMsg3 (bufferSize : ℕ) (data : List UInt8) : Prog (List UInt8) := do
  teeVoid env .encryptMsg3 .generateRandom 0
  tee env .encryptMsg3 .allocateOperation 0
  let s ← get
  let k ← content env .encryptMsg3 .setOperationKey 0 s.ctx.ecdhSharedSessionKey
  tee env .encryptMsg3 .aeInit 0
  failIf (bufferSize - Msg3.layout.size < data.length) (.error .shortBuffer)
  tee env .encryptMsg3 .aeEncryptFinal 0
  let out := C.encrypt k env.random data
  pure (Msg3.layout.enc ⟨env.random, out.2, UInt32.ofNat out.1.length⟩ ++ out.1)

/-- `prepare_msg3`: the content of the buffer after the call. -/
def prepareMsg3 (buffer : List UInt8) (data : List UInt8) : Prog (List UInt8) := do
  allocateMsg3 env buffer.length
  let msg3 ← encryptMsg3 C env buffer.length data
  pure (msg3 ++ buffer.drop msg3.length)

end

end Watz.Verifier
