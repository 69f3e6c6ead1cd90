import Watz.KeyDerivation
import Watz.Pta

/-!
# The attester

The functions of `remote_attestation.c`, which the trusted application that hosts Wasm modules
runs on one context: the handshake with a verifier, the collection of a quote, and the exchange
of `msg2` and `msg3`.
-/

namespace Watz.Attester

open Lib

/-- The functions of the attester that call the TEE. -/
inductive Fn where
  | generateEcdhKeypair
  | establishTcpConnection
  | sendMsg0
  | importVerifierAttestationKey
  | verifyEcdhPublicKeySignature
  | deriveSharedKey
  | deriveSharedMacKey (key : SharedKey)
  | verifyMsg1Mac
  | generateAnchor
  | prepareMsg2
  | sendMsg2
  | allocateMsg3
  | decryptMsg3
  | ensureAttestationServiceUp
  | raQuoteCollect
deriving DecidableEq

/-- `ra_context`, without the messages, which `TaState` keeps. -/
structure RaContext where
  ecdhLocalKeypairHandle : Obj ℕ
  ecdhRemotePublicKeyXAttr : Option RefAttribute
  ecdhRemotePublicKeyYAttr : Option RefAttribute
  ecdhSharedKeyDerivationKey : Obj (Bytes 16)
  ecdhSharedMacKey : Obj (Bytes 16)
  ecdhSharedSessionKey : Obj (Bytes 16)
  ecdsaVerifierPublicKeyXAttr : Option RefAttribute
  ecdsaVerifierPublicKeyYAttr : Option RefAttribute
  ecdsaVerifierPublicKeyHandle : Obj Point
  /-- The bytes of `msg3`, which is on the heap. -/
  msg3 : List UInt8
  msg3Size : ℕ
  /-- What has gone out through the socket, which the code does not keep. -/
  sent : List (List UInt8)

/-- The state of the attester. -/
abbrev State := TaState RaContext

/-- A context filled with zeros. -/
def State.zero : State where
  ctx :=
    { ecdhLocalKeypairHandle := .null
      ecdhRemotePublicKeyXAttr := none
      ecdhRemotePublicKeyYAttr := none
      ecdhSharedKeyDerivationKey := .null
      ecdhSharedMacKey := .null
      ecdhSharedSessionKey := .null
      ecdsaVerifierPublicKeyXAttr := none
      ecdsaVerifierPublicKeyYAttr := none
      ecdsaVerifierPublicKeyHandle := .null
      msg3 := []
      msg3Size := 0
      sent := [] }
  msgs := Messages.zero
  reads := []

/-- A function of the attester: it works on the context and returns a `TEE_Result`. -/
abbrev Prog (α : Type) := EStateM Stop State α

/-- `receive_socket_per_chunk`, given what the calls of `recv` deliver.  A call delivers at most as
many bytes as the call before; when the peer has nothing more it delivers none, and the loop
ends.  The data can be longer than `dataSize`: the code then writes past its buffer. -/
def receiveSocketPerChunk :
    List (Except Stop (List UInt8)) → ℕ → ℕ → List UInt8 → Except Stop (List UInt8)
  | [], _, _, data => .ok data
  | recv :: rest, chunkSize, dataSize, data =>
    if 0 < chunkSize ∧ data.length < dataSize then
      match recv with
      | .error stop => .error stop
      | .ok bs =>
        receiveSocketPerChunk rest (bs.take chunkSize).length dataSize (data ++ bs.take chunkSize)
    else .ok data

section

variable (C : Crypto) (env : Env Fn)

/-! ## The handshake -/

/-- `alloc_ra_context`. -/
def allocRaContext : Prog Unit :=
  modify fun s =>
    { ctx := { State.zero.ctx with sent := s.ctx.sent }
      msgs := { Messages.zero with msg0 := ⟨{ Coord.zero with size := 32 },
        { Coord.zero with size := 32 }⟩ }
      reads := s.reads }

/-- `generate_ecdh_keypair`. -/
def generateEcdhKeypair : Prog Unit := do
  tee env .generateEcdhKeypair .allocateTransientObject 0
  modify fun s => { s with ctx.ecdhLocalKeypairHandle := .blank }
  tee env .generateEcdhKeypair .generateKey 0
  modify fun s => { s with ctx.ecdhLocalKeypairHandle := .key env.freshKey }
  tee env .generateEcdhKeypair .getObjectBufferAttribute 0
  modify fun s => { s with
    msgs.msg0.ecdhAttesterPublicKeyX :=
      s.msgs.msg0.ecdhAttesterPublicKeyX.store (C.publicKey env.freshKey).x }
  tee env .generateEcdhKeypair .getObjectBufferAttribute 1
  modify fun s => { s with
    msgs.msg0.ecdhAttesterPublicKeyY :=
      s.msgs.msg0.ecdhAttesterPublicKeyY.store (C.publicKey env.freshKey).y }

/-- `establish_tcp_connection`. -/
def establishTcpConnection : Prog Unit := tee env .establishTcpConnection .socketOpen 0

/-- A message goes out through the socket. -/
def send (fn : Fn) (msg : Messages → List UInt8) : Prog Unit := do
  tee env fn .socketSend 0
  modify fun s => { s with ctx.sent := s.ctx.sent ++ [msg s.msgs] }

/-- `send_msg0`. -/
def sendMsg0 : Prog Unit := send env .sendMsg0 fun m => Msg0.layout.enc m.msg0

/-- `receive_msg1`. -/
def receiveMsg1 : Prog Unit := do
  match receiveSocketPerChunk env.inbox Msg1.layout.size Msg1.layout.size [] with
  | .error stop => throw stop
  | .ok msg1 =>
    failIf (msg1.length < Msg1.layout.size) (.error .generic)
    modify fun s => { s with msgs.msg1 := Msg1.layout.dec msg1 }
    modify fun s => { s with
      ctx.ecdhRemotePublicKeyXAttr :=
        some ⟨.verifierX, s.msgs.msg1.ecdhVerifierPublicKeyX.size.toNat⟩
      ctx.ecdhRemotePublicKeyYAttr :=
        some ⟨.verifierY, s.msgs.msg1.ecdhVerifierPublicKeyY.size.toNat⟩ }

/-- `verify_service_public_key`, for the coordinates of the expected key. -/
def verifyServicePublicKey (x y : List UInt8) : Prog Unit := do
  let s ← get
  if x.length = 0 ∧ y.length = 0 then pure ()
  else do
    failIf (x.length ≠ 32 ∨ y.length ≠ 32) (.error .communication)
    failIf (x ≠ s.msgs.msg1.ecdsaVerifierPublicKeyX.raw.toList) (.error .communication)
    failIf (y ≠ s.msgs.msg1.ecdsaVerifierPublicKeyY.raw.toList) (.error .communication)

/-- `import_verifier_attestation_key`. -/
def importVerifierAttestationKey : Prog Unit := do
  tee env .importVerifierAttestationKey .allocateTransientObject 0
  modify fun s => { s with ctx.ecdsaVerifierPublicKeyHandle := .blank }
  modify fun s => { s with
    ctx.ecdsaVerifierPublicKeyXAttr :=
      some ⟨.ecdsaX, s.msgs.msg1.ecdsaVerifierPublicKeyX.size.toNat⟩
    ctx.ecdsaVerifierPublicKeyYAttr :=
      some ⟨.ecdsaY, s.msgs.msg1.ecdsaVerifierPublicKeyY.size.toNat⟩ }
  let s ← get
  let x ← readAttribute env s.ctx.ecdsaVerifierPublicKeyXAttr
  let y ← readAttribute env s.ctx.ecdsaVerifierPublicKeyYAttr
  tee env .importVerifierAttestationKey .populateTransientObject 0
  modify fun s => { s with
    ctx.ecdsaVerifierPublicKeyHandle := .key ⟨ofBigEndian x, ofBigEndian y⟩ }

/-- `verify_ecdh_public_key_signature`. -/
def verifyEcdhPublicKeySignature : Prog Unit := do
  tee env .verifyEcdhPublicKeySignature .allocateOperation 0
  let data ← updates env signatureFields
  tee env .verifyEcdhPublicKeySignature .digestDoFinal 0
  tee env .verifyEcdhPublicKeySignature .allocateOperation 1
  let s ← get
  let key ← content env .verifyEcdhPublicKeySignature .setOperationKey 0
    s.ctx.ecdsaVerifierPublicKeyHandle
  tee env .verifyEcdhPublicKeySignature .asymmetricVerifyDigest 0
  failIf (C.verify key (C.sha256 data) s.msgs.msg1.ecdhSignature = false)
    (.error .signatureInvalid)

/-- `derive_shared_key`. -/
def deriveSharedKey : Prog Unit := do
  let s ← get
  let mac ← deriveSharedSecret C env .deriveSharedKey s.ctx.ecdhLocalKeypairHandle
    s.ctx.ecdhRemotePublicKeyXAttr s.ctx.ecdhRemotePublicKeyYAttr
  saveKey env .deriveSharedKey 2 1
    (fun h ctx => { ctx with ecdhSharedKeyDerivationKey := h }) mac

/-- The output handle `derive_shared_mac_key` is called with. -/
def RaContext.putKey : SharedKey → Obj (Bytes 16) → RaContext → RaContext
  | .mac, h, ctx => { ctx with ecdhSharedMacKey := h }
  | .session, h, ctx => { ctx with ecdhSharedSessionKey := h }

/-- `derive_shared_mac_key`. -/
def deriveSharedMacKey (key : SharedKey) : Prog Unit := do
  let s ← get
  let mac ← deriveLabel C env (.deriveSharedMacKey key) s.ctx.ecdhSharedKeyDerivationKey key.data
  saveKey env (.deriveSharedMacKey key) 1 1 (RaContext.putKey key) mac

/-- `verify_msg1_mac`. -/
def verifyMsg1Mac : Prog Unit := do
  tee env .verifyMsg1Mac .allocateOperation 0
  let s ← get
  let k ← content env .verifyMsg1Mac .setOperationKey 0 s.ctx.ecdhSharedMacKey
  let data ← updates env msg1MacFields
  tee env .verifyMsg1Mac .macCompareFinal 0
  failIf (C.cmac k (data ++ s.msgs.msg1.ecdhSignature.toList) ≠ s.msgs.msg1.mac)
    (.error .macInvalid)

/-- `generate_anchor`: the anchor written to the buffer of the caller. -/
def generateAnchor (anchorSize : ℕ) : Prog (Bytes 32) := do
  failIf (anchorSize ≠ 32) (.error .security)
  tee env .generateAnchor .allocateOperation 0
  let data ← updates env anchorFields
  tee env .generateAnchor .digestDoFinal 0
  pure (C.sha256 data)

/-- `ra_net_handshake`. -/
def raNetHandshake (ecdsaServicePublicKeyX ecdsaServicePublicKeyY : List UInt8)
    (anchorSize : ℕ) : Prog (Bytes 32) := do
  allocRaContext
  generateEcdhKeypair C env
  establishTcpConnection env
  sendMsg0 env
  receiveMsg1 env
  verifyServicePublicKey ecdsaServicePublicKeyX ecdsaServicePublicKeyY
  importVerifierAttestationKey env
  verifyEcdhPublicKeySignature C env
  deriveSharedKey C env
  deriveSharedMacKey C env .mac
  deriveSharedMacKey C env .session
  verifyMsg1Mac C env
  generateAnchor C env anchorSize

/-! ## The quote -/

/-- The handle of the session with the attestation service.  It keeps its value when the session
is closed. -/
inductive SessionHandle where
  | null
  | opened
  | closed
deriving DecidableEq

/-- The quote and the session handle, which the caller owns. -/
structure QuoteState where
  attestationSession : SessionHandle
  quote : Quote

/-- `ensure_attestation_service_up`. -/
def ensureAttestationServiceUp : EStateM Stop QuoteState Unit := do
  let s ← get
  if s.attestationSession ≠ .null then pure ()
  else do
    tee env .ensureAttestationServiceUp .openTaSession 0
    modify fun s => { s with attestationSession := .opened }

/-- The service works on the quote of the caller.  A session that has been closed is a reason to
panic. -/
def inService (pta : EStateM Stop Quote Unit) : EStateM Stop QuoteState Unit := fun s =>
  if s.attestationSession = .opened then
    match pta s.quote with
    | .ok u q => .ok u { s with quote := q }
    | .error stop q => .error stop { s with quote := q }
  else .error .panic s

/-- `TEE_InvokeTACommand` with `ATTESTATION_CMD_GEN_QUOTE`. -/
def invokeGenQuote (pta : EStateM Stop Quote Unit) : EStateM Stop QuoteState Unit := do
  tee env .raQuoteCollect .invokeTaCommand 0
  inService pta

/-- `ra_quote_collect`. -/
def raQuoteCollect (ptaEnv : Env Pta.Fn) (key : Pta.AttestationKey) (wasmBytecodeHash : Bytes 32)
    (anchor : Bytes 32) (anchorSize : ℕ) : EStateM Stop QuoteState Unit := do
  ensureAttestationServiceUp env
  invokeGenQuote env (Pta.generateQuote C ptaEnv key wasmBytecodeHash.toList anchor anchorSize)

/-- `close_attestation_session`.  It tests the address of the handle, which is never null;
`TEE_CloseTASession` then ignores a null handle and panics on a session closed before. -/
def closeAttestationSession : EStateM Stop QuoteState Unit := do
  let s ← get
  match s.attestationSession with
  | .null => pure ()
  | .opened => modify fun s => { s with attestationSession := .closed }
  | .closed => throw .panic

/-- `ra_quote_dispose`. -/
def raQuoteDispose : EStateM Stop QuoteState Unit := do
  closeAttestationSession
  modify fun s => { s with quote := Quote.zero }

/-! ## Messages 2 and 3 -/

/-- Copy a coordinate: the size, and as many bytes as it says. -/
def copyCoord (src dst : Coord) : Coord := ⟨dst.raw.overwrite src.bytes, src.size⟩

/-- The part of `prepare_msg2` that can fail. -/
def macMsg2 : Prog Unit := do
  tee env .prepareMsg2 .allocateOperation 0
  let s ← get
  let k ← content env .prepareMsg2 .setOperationKey 0 s.ctx.ecdhSharedMacKey
  let x ← readField env .localX s.msgs.msg0.ecdhAttesterPublicKeyX.size.toNat
  let y ← readField env .localY s.msgs.msg0.ecdhAttesterPublicKeyY.size.toNat
  tee env .prepareMsg2 .macComputeFinal 0
  modify fun s => { s with
    msgs.msg2.mac := C.cmac k (x ++ (y ++ Quote.layout.enc s.msgs.msg2.quote)) }

/-- Go on after an error. -/
def ignoreError (x : Prog Unit) : Prog Unit := fun s =>
  match x s with
  | .error (.error _) s' => .ok () s'
  | r => r

/-- `prepare_msg2`.  It returns `TEE_SUCCESS` even if the MAC could not be computed.  The handle it
frees is not initialised if `TEE_AllocateOperation` fails; `TEE_FreeOperation` is taken to return
all the same. -/
def prepareMsg2 (quote : Quote) : Prog Unit := do
  modify fun s => { s with
    msgs.msg2.ecdhLocalPublicKeyX :=
      copyCoord s.msgs.msg0.ecdhAttesterPublicKeyX s.msgs.msg2.ecdhLocalPublicKeyX
    msgs.msg2.ecdhLocalPublicKeyY :=
      copyCoord s.msgs.msg0.ecdhAttesterPublicKeyY s.msgs.msg2.ecdhLocalPublicKeyY
    msgs.msg2.quote := quote }
  ignoreError (macMsg2 C env)

/-- `send_msg2`. -/
def sendMsg2 : Prog Unit := send env .sendMsg2 fun m => Msg2.layout.enc m.msg2

/-- `ra_net_send_quote`. -/
def raNetSendQuote (quote : Quote) : Prog Unit := do
  prepareMsg2 C env quote
  sendMsg2 env

/-- `allocate_msg3`: the size is computed in 32 bits. -/
def allocateMsg3 (dataSize : ℕ) : Prog Unit := do
  modify fun s => { s with ctx.msg3Size := (Msg3.layout.size + dataSize + 16) % 2 ^ 32 }
  teeVoid env .allocateMsg3 .malloc 0

/-- `receive_msg3`. -/
def receiveMsg3 : Prog Unit := do
  let s ← get
  match receiveSocketPerChunk env.inbox (256 * 1024) s.ctx.msg3Size [] with
  | .error stop => throw stop
  | .ok msg3 => modify fun s => { s with ctx.msg3 := msg3, ctx.msg3Size := msg3.length }

/-- `decrypt_msg3`, into a buffer of the caller of the given size.  The header and the content are
taken from the memory of `msg3`, of which `rest` is what lies behind the received bytes. -/
def decryptMsg3 (dataSize : ℕ) (rest : List UInt8) : Prog (List UInt8) := do
  tee env .decryptMsg3 .allocateOperation 0
  let s ← get
  let k ← content env .decryptMsg3 .setOperationKey 0 s.ctx.ecdhSharedSessionKey
  tee env .decryptMsg3 .aeInit 0
  let header := Msg3.layout.dec (s.ctx.msg3 ++ rest)
  let encryptedContent :=
    ((s.ctx.msg3 ++ rest).drop Msg3.layout.size).take header.encryptedContentSize.toNat
  failIf (encryptedContent.length < header.encryptedContentSize.toNat) .panic
  failIf (dataSize < header.encryptedContentSize.toNat) (.error .shortBuffer)
  tee env .decryptMsg3 .aeDecryptFinal 0
  match C.decrypt k header.iv encryptedContent header.tag with
  | some data => pure data
  | none => throw (.error .macInvalid)

/-- `ra_net_receive_data`. -/
def raNetReceiveData (dataSize : ℕ) (rest : List UInt8) : Prog (List UInt8) := do
  allocateMsg3 env dataSize
  receiveMsg3 env
  decryptMsg3 C env dataSize rest

/-- `ra_net_dispose`, which is `free_ra_context`: the handles are freed, but nothing is cleared
except the size of `msg3`. -/
def raNetDispose : Prog Unit := modify fun s => { s with ctx.msg3Size := 0 }

end

end Watz.Attester
