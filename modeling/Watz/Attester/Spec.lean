import Watz.Attester.Basic

/-!
# When the functions of the attester succeed

For each function, the condition under which it returns `TEE_SUCCESS` and the state it then
leaves.  What the attester checks of `msg1` is collected in `HandshakeChecks`.
-/

namespace Watz.Attester

open Lib

/-- The calls each function makes on its way to success. -/
def Fn.sites : Fn → List (Api × ℕ)
  | generateEcdhKeypair =>
    [(.allocateTransientObject, 0), (.generateKey, 0), (.getObjectBufferAttribute, 0),
      (.getObjectBufferAttribute, 1)]
  | establishTcpConnection => [(.socketOpen, 0)]
  | sendMsg0 | sendMsg2 => [(.socketSend, 0)]
  | importVerifierAttestationKey =>
    [(.allocateTransientObject, 0), (.populateTransientObject, 0)]
  | verifyEcdhPublicKeySignature =>
    [(.allocateOperation, 0), (.digestDoFinal, 0), (.allocateOperation, 1), (.setOperationKey, 0),
      (.asymmetricVerifyDigest, 0)]
  | deriveSharedKey =>
    deriveSharedSecretSites ++ [(.allocateTransientObject, 2), (.populateTransientObject, 1)]
  | deriveSharedMacKey _ =>
    deriveLabelSites ++ [(.allocateTransientObject, 1), (.populateTransientObject, 1)]
  | verifyMsg1Mac => [(.allocateOperation, 0), (.setOperationKey, 0), (.macCompareFinal, 0)]
  | generateAnchor => [(.allocateOperation, 0), (.digestDoFinal, 0)]
  | prepareMsg2 => [(.allocateOperation, 0), (.setOperationKey, 0), (.macComputeFinal, 0)]
  | allocateMsg3 => [(.malloc, 0)]
  | decryptMsg3 =>
    [(.allocateOperation, 0), (.setOperationKey, 0), (.aeInit, 0), (.aeDecryptFinal, 0)]
  | ensureAttestationServiceUp => [(.openTaSession, 0)]
  | raQuoteCollect => [(.invokeTaCommand, 0)]

/-! ## The context through a handshake -/

/-- The context after `alloc_ra_context`. -/
def State.allocated (s : State) : State where
  ctx := { State.zero.ctx with sent := s.ctx.sent }
  msgs := { Messages.zero with msg0 := ⟨{ Coord.zero with size := 32 },
    { Coord.zero with size := 32 }⟩ }
  reads := s.reads

/-- The context after `generate_ecdh_keypair`. -/
def State.withEcdhKey (C : Crypto) (s : State) (d : ℕ) : State :=
  { s with
    ctx.ecdhLocalKeypairHandle := .key d
    msgs.msg0.ecdhAttesterPublicKeyX := s.msgs.msg0.ecdhAttesterPublicKeyX.store (C.publicKey d).x
    msgs.msg0.ecdhAttesterPublicKeyY :=
      s.msgs.msg0.ecdhAttesterPublicKeyY.store (C.publicKey d).y }

/-- The context after data has been sent. -/
def State.withSent (s : State) (data : List UInt8) : State :=
  { s with ctx.sent := s.ctx.sent ++ [data] }

/-- The context after `receive_msg1`. -/
def State.withMsg1 (s : State) (image : List UInt8) : State :=
  { s with
    msgs.msg1 := Msg1.layout.dec image
    ctx.ecdhRemotePublicKeyXAttr :=
      some ⟨.verifierX, (Msg1.layout.dec image).ecdhVerifierPublicKeyX.size.toNat⟩
    ctx.ecdhRemotePublicKeyYAttr :=
      some ⟨.verifierY, (Msg1.layout.dec image).ecdhVerifierPublicKeyY.size.toNat⟩ }

/-- The context after `import_verifier_attestation_key`. -/
def State.withVerifierKey (s : State) (key : Point) : State :=
  { s with
    ctx.ecdsaVerifierPublicKeyXAttr :=
      some ⟨.ecdsaX, s.msgs.msg1.ecdsaVerifierPublicKeyX.size.toNat⟩
    ctx.ecdsaVerifierPublicKeyYAttr :=
      some ⟨.ecdsaY, s.msgs.msg1.ecdsaVerifierPublicKeyY.size.toNat⟩
    ctx.ecdsaVerifierPublicKeyHandle := .key key }

/-- The context after `derive_shared_key`. -/
def State.withKdk (s : State) (kdk : Bytes 16) : State :=
  { s with ctx.ecdhSharedKeyDerivationKey := .key kdk }

/-- The context with the keys of a session. -/
def State.withSharedKeys (C : Crypto) (s : State) (kdk : Bytes 16) : State :=
  { s with
    ctx.ecdhSharedKeyDerivationKey := .key kdk
    ctx.ecdhSharedMacKey := .key (C.cmac kdk SharedKey.mac.data)
    ctx.ecdhSharedSessionKey := .key (C.cmac kdk SharedKey.session.data) }

section

variable {C : Crypto} {env : Env Fn} {s s' : State} {u : Unit}

/-! ## The functions of the handshake -/

lemma allocRaContext_eq_ok : allocRaContext s = .ok u s' ↔ s.allocated = s' := modify_eq_ok

lemma generateEcdhKeypair_eq_ok :
    generateEcdhKeypair C env s = .ok u s' ↔
      env.Ok .generateEcdhKeypair Fn.generateEcdhKeypair.sites
        ∧ s.withEcdhKey C env.freshKey = s' := by
  simp only [generateEcdhKeypair, tee_bind_eq_ok, modify_bind_eq_ok, modify_eq_ok, Fn.sites,
    Env.ok_cons, Env.ok_nil]
  constructor
  · rintro ⟨h1, h2, h3, h4, rfl⟩
    exact ⟨⟨h1, h2, h3, h4, trivial⟩, rfl⟩
  · rintro ⟨⟨h1, h2, h3, h4, -⟩, rfl⟩
    exact ⟨h1, h2, h3, h4, rfl⟩

lemma establishTcpConnection_eq_ok :
    establishTcpConnection env s = .ok u s' ↔
      env.Ok .establishTcpConnection Fn.establishTcpConnection.sites ∧ s = s' := by
  simp [establishTcpConnection, tee_eq_ok, Fn.sites]

lemma send_eq_ok {fn : Fn} {msg : Messages → List UInt8} :
    send env fn msg s = .ok u s' ↔
      env.Ok fn [(.socketSend, 0)] ∧ s.withSent (msg s.msgs) = s' := by
  simp [send, tee_bind_eq_ok, modify_eq_ok, State.withSent]

lemma sendMsg0_eq_ok :
    sendMsg0 env s = .ok u s' ↔
      env.Ok .sendMsg0 Fn.sendMsg0.sites ∧ s.withSent (Msg0.layout.enc s.msgs.msg0) = s' :=
  send_eq_ok

lemma receiveMsg1_eq_ok :
    receiveMsg1 env s = .ok u s' ↔
      ∃ image, receiveSocketPerChunk env.inbox 224 224 [] = .ok image
        ∧ 224 ≤ image.length ∧ s.withMsg1 image = s' := by
  rw [receiveMsg1, Msg1.layout_size]
  cases h : receiveSocketPerChunk env.inbox 224 224 [] with
  | error stop => simp [throw_eq_ok]
  | ok image =>
    simp only [failIf_bind_eq_ok, modify_bind_eq_ok, modify_eq_ok, not_lt, State.withMsg1]
    simp

/-- `verify_service_public_key` lets the message pass: no key is expected, or the arrays of the
message are the expected coordinates, whatever their size fields. -/
def PinsMatch (x y : List UInt8) (m : Msg1) : Prop :=
  x = [] ∧ y = []
    ∨ x = m.ecdsaVerifierPublicKeyX.raw.toList ∧ y = m.ecdsaVerifierPublicKeyY.raw.toList

variable {x y : List UInt8} {anchor : Bytes 32} {anchorSize : ℕ} {q q' : QuoteState} {quote : Quote}

lemma verifyServicePublicKey_eq_ok :
    verifyServicePublicKey x y s = .ok u s' ↔ PinsMatch x y s.msgs.msg1 ∧ s = s' := by
  have hx := s.msgs.msg1.ecdsaVerifierPublicKeyX.raw.length_eq
  have hy := s.msgs.msg1.ecdsaVerifierPublicKeyY.raw.length_eq
  rw [verifyServicePublicKey, get_bind_eq_ok, PinsMatch]
  by_cases hnone : x.length = 0 ∧ y.length = 0
  · rw [if_pos hnone, pure_eq_ok]
    simp [List.length_eq_zero_iff.mp hnone.1, List.length_eq_zero_iff.mp hnone.2]
  · rw [if_neg hnone, failIf_bind_eq_ok, failIf_bind_eq_ok, failIf_eq_ok]
    constructor
    · rintro ⟨-, hxx, hyy, rfl⟩
      exact ⟨.inr ⟨not_not.mp hxx, not_not.mp hyy⟩, rfl⟩
    · rintro ⟨⟨rfl, rfl⟩ | ⟨hxx, hyy⟩, rfl⟩
      · exact absurd ⟨rfl, rfl⟩ hnone
      · rw [← hxx] at hx
        rw [← hyy] at hy
        exact ⟨by omega, not_not.mpr hxx, not_not.mpr hyy, rfl⟩

lemma importVerifierAttestationKey_eq_ok :
    importVerifierAttestationKey env s = .ok u s' ↔
      env.Ok .importVerifierAttestationKey Fn.importVerifierAttestationKey.sites
        ∧ ∃ key, s.msgs.point env.tail .ecdsaX .ecdsaY = some key
          ∧ (s.withVerifierKey key).log [s.msgs.use .ecdsaX, s.msgs.use .ecdsaY] = s' := by
  simp only [importVerifierAttestationKey, modify_bind_eq_ok, tee_bind_eq_ok, get_bind_eq_ok,
    readAttribute_bind_eq_ok, modify_eq_ok, Fn.sites, Env.ok_cons, Env.ok_nil,
    Option.some.injEq, Messages.point_eq_some]
  constructor
  · rintro ⟨h1, _, x, rfl, hx, _, y, rfl, hy, h2, rfl⟩
    refine ⟨⟨h1, h2, trivial⟩, _, ⟨x, y, hx, hy, rfl⟩, ?_⟩
    simp [TaState.log, State.withVerifierKey, Messages.use, Field.coord]
  · rintro ⟨⟨h1, h2, -⟩, _, ⟨x, y, hx, hy, rfl⟩, rfl⟩
    refine ⟨h1, _, x, rfl, hx, _, y, rfl, hy, h2, ?_⟩
    simp [TaState.log, State.withVerifierKey, Messages.use, Field.coord]

/-- The signature of `msg1` over the two ephemeral keys is valid under a key. -/
def SignatureOk (C : Crypto) (tail : List UInt8) (m : Messages) (key : Point) : Prop :=
  ∃ data, m.concat tail signatureFields = some data
    ∧ C.verify key (C.sha256 data) m.msg1.ecdhSignature = true

lemma verifyEcdhPublicKeySignature_eq_ok :
    verifyEcdhPublicKeySignature C env s = .ok u s' ↔
      env.Ok .verifyEcdhPublicKeySignature Fn.verifyEcdhPublicKeySignature.sites
        ∧ (∃ key, s.ctx.ecdsaVerifierPublicKeyHandle = .key key
          ∧ SignatureOk C env.tail s.msgs key)
        ∧ s.log (List.map s.msgs.use signatureFields) = s' := by
  simp only [verifyEcdhPublicKeySignature, tee_bind_eq_ok, updates_bind_eq_ok, get_bind_eq_ok,
    content_bind_eq_ok, failIf_eq_ok, Fn.sites, Env.ok_cons, Env.ok_nil, SignatureOk,
    Bool.not_eq_false]
  constructor
  · rintro ⟨h1, data, hdata, h2, h3, h4, key, hkey, h5, hsig, rfl⟩
    exact ⟨⟨h1, h2, h3, h4, h5, trivial⟩, ⟨key, hkey, data, hdata, hsig⟩, rfl⟩
  · rintro ⟨⟨h1, h2, h3, h4, h5, -⟩, ⟨key, hkey, data, hdata, hsig⟩, rfl⟩
    exact ⟨h1, data, hdata, h2, h3, h4, key, hkey, h5, hsig, rfl⟩

lemma deriveSharedKey_eq_ok :
    deriveSharedKey C env s = .ok u s' ↔
      env.Ok .deriveSharedKey Fn.deriveSharedKey.sites
        ∧ ∃ d rx x ry y, s.ctx.ecdhLocalKeypairHandle = .key d
          ∧ s.ctx.ecdhRemotePublicKeyXAttr = some rx
          ∧ s.msgs.read env.tail rx.buffer rx.length = some x
          ∧ s.ctx.ecdhRemotePublicKeyYAttr = some ry
          ∧ s.msgs.read env.tail ry.buffer ry.length = some y
          ∧ (s.withKdk (C.kdk (C.ecdh d ⟨ofBigEndian x, ofBigEndian y⟩))).log
              [(rx.buffer, rx.length), (ry.buffer, ry.length)] = s' := by
  rw [deriveSharedKey, get_bind_eq_ok]
  simp only [bind_eq_ok, deriveSharedSecret_eq_ok, saveKey_eq_ok, Fn.sites, Env.Ok,
    List.forall_mem_append]
  constructor
  · rintro ⟨_, _, ⟨h1, d, rx, x, ry, y, hd, hrx, hx, hry, hy, rfl, rfl⟩, h2, rfl⟩
    exact ⟨⟨h1, h2⟩, d, rx, x, ry, y, hd, hrx, hx, hry, hy, rfl⟩
  · rintro ⟨⟨h1, h2⟩, d, rx, x, ry, y, hd, hrx, hx, hry, hy, rfl⟩
    exact ⟨_, _, ⟨h1, d, rx, x, ry, y, hd, hrx, hx, hry, hy, rfl, rfl⟩, h2, rfl⟩

lemma deriveSharedMacKey_eq_ok {key : SharedKey} :
    deriveSharedMacKey C env key s = .ok u s' ↔
      env.Ok (.deriveSharedMacKey key) (Fn.deriveSharedMacKey key).sites
        ∧ ∃ k, s.ctx.ecdhSharedKeyDerivationKey = .key k
          ∧ { s with ctx := s.ctx.putKey key (.key (C.cmac k key.data)) } = s' := by
  have hput : ∀ (h h' : Obj (Bytes 16)) (ctx : RaContext),
      (ctx.putKey key h).putKey key h' = ctx.putKey key h' := by
    intro h h' ctx
    cases key <;> rfl
  rw [deriveSharedMacKey, get_bind_eq_ok]
  simp only [bind_eq_ok, deriveLabel_eq_ok, saveKey_eq_ok, Fn.sites, Env.Ok,
    List.forall_mem_append, hput]
  constructor
  · rintro ⟨_, _, ⟨h1, ⟨k, hk, rfl⟩, rfl⟩, h2, rfl⟩
    exact ⟨⟨h1, h2⟩, k, hk, rfl⟩
  · rintro ⟨⟨h1, h2⟩, k, hk, rfl⟩
    exact ⟨_, _, ⟨h1, ⟨k, hk, rfl⟩, rfl⟩, h2, rfl⟩

/-- The CMAC of `msg1` is right under a key. -/
def MacOk (C : Crypto) (tail : List UInt8) (m : Messages) (k : Bytes 16) : Prop :=
  ∃ data, m.concat tail msg1MacFields = some data
    ∧ C.cmac k (data ++ m.msg1.ecdhSignature.toList) = m.msg1.mac

lemma verifyMsg1Mac_eq_ok :
    verifyMsg1Mac C env s = .ok u s' ↔
      env.Ok .verifyMsg1Mac Fn.verifyMsg1Mac.sites
        ∧ (∃ k, s.ctx.ecdhSharedMacKey = .key k ∧ MacOk C env.tail s.msgs k)
        ∧ s.log (List.map s.msgs.use msg1MacFields) = s' := by
  simp only [verifyMsg1Mac, tee_bind_eq_ok, get_bind_eq_ok, content_bind_eq_ok,
    updates_bind_eq_ok, failIf_eq_ok, not_not, Fn.sites, Env.ok_cons, Env.ok_nil, MacOk]
  constructor
  · rintro ⟨h1, h2, k, hk, data, hdata, h3, hmac, rfl⟩
    exact ⟨⟨h1, h2, h3, trivial⟩, ⟨k, hk, data, hdata, hmac⟩, rfl⟩
  · rintro ⟨⟨h1, h2, h3, -⟩, ⟨k, hk, data, hdata, hmac⟩, rfl⟩
    exact ⟨h1, h2, k, hk, data, hdata, h3, hmac, rfl⟩

lemma generateAnchor_eq_ok :
    generateAnchor C env anchorSize s = .ok anchor s' ↔
      anchorSize = 32 ∧ env.Ok .generateAnchor Fn.generateAnchor.sites
        ∧ (∃ data, s.msgs.concat env.tail anchorFields = some data
            ∧ C.sha256 data = anchor)
        ∧ s.log (List.map s.msgs.use anchorFields) = s' := by
  simp only [generateAnchor, failIf_bind_eq_ok, not_not, tee_bind_eq_ok, updates_bind_eq_ok,
    pure_eq_ok, Fn.sites, Env.ok_cons, Env.ok_nil]
  constructor
  · rintro ⟨hsize, h1, data, hdata, h2, hanchor, rfl⟩
    exact ⟨hsize, ⟨h1, h2, trivial⟩, ⟨data, hdata, hanchor⟩, rfl⟩
  · rintro ⟨hsize, ⟨h1, h2, -⟩, ⟨data, hdata, hanchor⟩, rfl⟩
    exact ⟨hsize, h1, data, hdata, h2, hanchor, rfl⟩

/-! ## The handshake -/

/-- The functions `ra_net_handshake` runs. -/
def handshakeFns : List Fn :=
  [.generateEcdhKeypair, .establishTcpConnection, .sendMsg0, .importVerifierAttestationKey,
    .verifyEcdhPublicKeySignature, .deriveSharedKey, .deriveSharedMacKey .mac,
    .deriveSharedMacKey .session, .verifyMsg1Mac, .generateAnchor]

/-- The context in which the attester sends `msg0`. -/
def State.greeting (C : Crypto) (s : State) (d : ℕ) : State := s.allocated.withEcdhKey C d

/-- The context when `msg1` has arrived. -/
def State.answered (C : Crypto) (s : State) (d : ℕ) (image : List UInt8) : State :=
  ((s.greeting C d).withSent (Msg0.layout.enc (s.greeting C d).msgs.msg0)).withMsg1 image

/-- What a successful handshake finds: the message `image` that arrives as `msg1` and, in the
messages `m` the context then has, the key of the verifier, its ephemeral key and the anchor. -/
structure HandshakeChecks (C : Crypto) (env : Env Fn) (x y : List UInt8) (image : List UInt8)
    (m : Messages) (key peer : Point) (anchor : Bytes 32) : Prop where
  received : receiveSocketPerChunk env.inbox 224 224 [] = .ok image
  length_le : 224 ≤ image.length
  pins : PinsMatch x y m.msg1
  key_eq : m.point env.tail .ecdsaX .ecdsaY = some key
  signature : SignatureOk C env.tail m key
  peer_eq : m.point env.tail .verifierX .verifierY = some peer
  mac : MacOk C env.tail m (C.cmac (C.kdk (C.ecdh env.freshKey peer)) SharedKey.mac.data)
  anchor_eq : ∃ data, m.concat env.tail anchorFields = some data ∧ C.sha256 data = anchor

/-- The reads of a handshake. -/
def handshakeReads (m : Messages) : List (Field × ℕ) :=
  List.map m.use [.ecdsaX, .ecdsaY, .verifierX, .verifierY, .attesterX, .attesterY,
    .verifierX, .verifierY, .verifierX, .verifierY, .ecdsaX, .ecdsaY,
    .attesterX, .attesterY, .verifierX, .verifierY]

/-- `ra_net_handshake` up to the arrival of `msg1`. -/
def exchangeKeys (C : Crypto) (env : Env Fn) : Prog Unit := do
  allocRaContext
  generateEcdhKeypair C env
  establishTcpConnection env
  sendMsg0 env
  receiveMsg1 env

/-- The part of `ra_net_handshake` that checks who has sent `msg1`. -/
def authenticateVerifier (C : Crypto) (env : Env Fn) (x y : List UInt8) : Prog Unit := do
  verifyServicePublicKey x y
  importVerifierAttestationKey env
  verifyEcdhPublicKeySignature C env

/-- The part of `ra_net_handshake` that derives the keys of the session. -/
def deriveKeys (C : Crypto) (env : Env Fn) : Prog Unit := do
  deriveSharedKey C env
  deriveSharedMacKey C env .mac
  deriveSharedMacKey C env .session

lemma raNetHandshake_eq_bind (x y : List UInt8) (anchorSize : ℕ) :
    raNetHandshake C env x y anchorSize =
      exchangeKeys C env >>= fun _ => authenticateVerifier C env x y >>= fun _ =>
        deriveKeys C env >>= fun _ => verifyMsg1Mac C env >>= fun _ =>
          generateAnchor C env anchorSize := by
  simp only [raNetHandshake, exchangeKeys, authenticateVerifier, deriveKeys, bind_assoc]

lemma exchangeKeys_eq_ok :
    exchangeKeys C env s = .ok u s' ↔
      CallsOk Fn.sites env [.generateEcdhKeypair, .establishTcpConnection, .sendMsg0]
        ∧ ∃ image, receiveSocketPerChunk env.inbox 224 224 [] = .ok image
          ∧ 224 ≤ image.length ∧ s.answered C env.freshKey image = s' := by
  simp only [exchangeKeys, bind_eq_ok, allocRaContext_eq_ok, generateEcdhKeypair_eq_ok,
    establishTcpConnection_eq_ok, sendMsg0_eq_ok, receiveMsg1_eq_ok, callsOk_cons, callsOk_nil]
  constructor
  · rintro ⟨_, _, rfl, _, _, ⟨h1, rfl⟩, _, _, ⟨h2, rfl⟩, _, _, ⟨h3, rfl⟩, image, hrecv, hlen, rfl⟩
    exact ⟨⟨h1, h2, h3, trivial⟩, image, hrecv, hlen, rfl⟩
  · rintro ⟨⟨h1, h2, h3, -⟩, image, hrecv, hlen, rfl⟩
    exact ⟨(), _, rfl, (), _, ⟨h1, rfl⟩, (), _, ⟨h2, rfl⟩, (), _, ⟨h3, rfl⟩, image, hrecv, hlen,
      rfl⟩

lemma authenticateVerifier_eq_ok :
    authenticateVerifier C env x y s = .ok u s' ↔
      CallsOk Fn.sites env [.importVerifierAttestationKey, .verifyEcdhPublicKeySignature]
        ∧ PinsMatch x y s.msgs.msg1 ∧ ∃ key, s.msgs.point env.tail .ecdsaX .ecdsaY = some key
          ∧ SignatureOk C env.tail s.msgs key
          ∧ (s.withVerifierKey key).log (List.map s.msgs.use
              [.ecdsaX, .ecdsaY, .verifierX, .verifierY, .attesterX, .attesterY]) = s' := by
  simp only [authenticateVerifier, bind_eq_ok, verifyServicePublicKey_eq_ok,
    importVerifierAttestationKey_eq_ok, verifyEcdhPublicKeySignature_eq_ok, callsOk_cons,
    callsOk_nil]
  constructor
  · rintro ⟨_, _, ⟨hpins, rfl⟩, _, _, ⟨h1, key, hkey, rfl⟩, h2, ⟨key', hkey', hsig⟩, rfl⟩
    obtain rfl := Obj.key.inj hkey'
    exact ⟨⟨h1, h2, trivial⟩, hpins, key, hkey, hsig, by rw [TaState.log_log]; rfl⟩
  · rintro ⟨⟨h1, h2, -⟩, hpins, key, hkey, hsig, rfl⟩
    exact ⟨(), _, ⟨hpins, rfl⟩, (), _, ⟨h1, key, hkey, rfl⟩, h2, ⟨key, rfl, hsig⟩,
      by rw [TaState.log_log]; rfl⟩

lemma withSharedKeys_log (kdk : Bytes 16) (l : List (Field × ℕ)) :
    State.withSharedKeys C (s.log l) kdk = (s.withSharedKeys C kdk).log l := rfl

/-- The keys are derived from the ephemeral key in `msg1`, if the references to it are those of
`receive_msg1`. -/
lemma deriveKeys_eq_ok {d : ℕ} (hd : s.ctx.ecdhLocalKeypairHandle = .key d)
    (hx : s.ctx.ecdhRemotePublicKeyXAttr = some ⟨.verifierX, (s.msgs.use .verifierX).2⟩)
    (hy : s.ctx.ecdhRemotePublicKeyYAttr = some ⟨.verifierY, (s.msgs.use .verifierY).2⟩) :
    deriveKeys C env s = .ok u s' ↔
      CallsOk Fn.sites env
          [.deriveSharedKey, .deriveSharedMacKey .mac, .deriveSharedMacKey .session]
        ∧ ∃ peer, s.msgs.point env.tail .verifierX .verifierY = some peer
          ∧ (s.withSharedKeys C (C.kdk (C.ecdh d peer))).log
              (List.map s.msgs.use [.verifierX, .verifierY]) = s' := by
  simp only [deriveKeys, bind_eq_ok, deriveSharedKey_eq_ok, deriveSharedMacKey_eq_ok,
    callsOk_cons, callsOk_nil, hd, hx, hy, Messages.point_eq_some]
  constructor
  · rintro ⟨_, _, ⟨h1, _, _, x, _, y, ⟨⟩, ⟨⟩, hx, ⟨⟩, hy, rfl⟩, _, _, ⟨h2, k, hk, rfl⟩,
      h3, k', hk', rfl⟩
    obtain rfl := Obj.key.inj hk
    obtain rfl := Obj.key.inj hk'
    exact ⟨⟨h1, h2, h3, trivial⟩, _, ⟨x, y, hx, hy, rfl⟩, rfl⟩
  · rintro ⟨⟨h1, h2, h3, -⟩, _, ⟨x, y, hx, hy, rfl⟩, rfl⟩
    exact ⟨(), _, ⟨h1, d, _, x, _, y, rfl, rfl, hx, rfl, hy, rfl⟩, (), _, ⟨h2, _, rfl, rfl⟩,
      h3, _, rfl, rfl⟩

/-- `ra_net_handshake` succeeds exactly if its buffer for the anchor has the right size, the
message that arrives passes the checks and no call fails. -/
lemma raNetHandshake_eq_ok :
    raNetHandshake C env x y anchorSize s = .ok anchor s' ↔
      anchorSize = 32 ∧ CallsOk Fn.sites env handshakeFns ∧ ∃ image key peer,
        HandshakeChecks C env x y image (s.answered C env.freshKey image).msgs key peer anchor
        ∧ (((s.answered C env.freshKey image).withVerifierKey key).withSharedKeys C
            (C.kdk (C.ecdh env.freshKey peer))).log
            (handshakeReads (s.answered C env.freshKey image).msgs) = s' := by
  rw [raNetHandshake_eq_bind]
  simp only [bind_eq_ok, exchangeKeys_eq_ok, authenticateVerifier_eq_ok, verifyMsg1Mac_eq_ok,
    generateAnchor_eq_ok, handshakeFns, callsOk_cons, callsOk_nil]
  constructor
  · rintro ⟨_, _, ⟨⟨h1, h2, h3, -⟩, image, hrecv, hlen, rfl⟩,
      _, _, ⟨⟨h4, h5, -⟩, hpins, key, hkey, hsig, rfl⟩, _, _, hderive,
      _, _, ⟨h9, ⟨k, hk, hmac⟩, rfl⟩, hsize, h10, hanchor, rfl⟩
    obtain ⟨hcalls, peer, hpeer, rfl⟩ := (deriveKeys_eq_ok rfl rfl rfl).mp hderive
    obtain ⟨h6, h7, h8, -⟩ := by simpa only [callsOk_cons] using hcalls
    obtain rfl := Obj.key.inj hk
    refine ⟨hsize, ⟨h1, h2, h3, h4, h5, h6, h7, h8, h9, h10, trivial⟩, image, key, peer,
      ⟨hrecv, hlen, hpins, hkey, hsig, hpeer, hmac, hanchor⟩, ?_⟩
    rw [withSharedKeys_log, TaState.log_log, TaState.log_log, TaState.log_log]
    rfl
  · rintro ⟨hsize, ⟨h1, h2, h3, h4, h5, h6, h7, h8, h9, h10, -⟩, image, key, peer, hchecks, rfl⟩
    refine ⟨(), _, ⟨⟨h1, h2, h3, trivial⟩, image, hchecks.received, hchecks.length_le, rfl⟩,
      (), _, ⟨⟨h4, h5, trivial⟩, hchecks.pins, key, hchecks.key_eq, hchecks.signature, rfl⟩,
      (), _, (deriveKeys_eq_ok rfl rfl rfl).mpr
        ⟨by simp only [callsOk_cons, callsOk_nil, h6, h7, h8, true_and], peer, hchecks.peer_eq, rfl⟩,
      (), _, ⟨h9, ⟨_, rfl, hchecks.mac⟩, rfl⟩, hsize, h10, hchecks.anchor_eq, ?_⟩
    rw [withSharedKeys_log, TaState.log_log, TaState.log_log, TaState.log_log]
    rfl

/-! ## What a handshake may change

The hypotheses about the property `I` name the changes that the functions can make behind
`send_msg0`, whatever their calls return. -/

/-- The references to arrays that the context keeps. -/
def RaContext.refs (ctx : RaContext) : List (Option RefAttribute) :=
  [ctx.ecdhRemotePublicKeyXAttr, ctx.ecdhRemotePublicKeyYAttr, ctx.ecdsaVerifierPublicKeyXAttr,
    ctx.ecdsaVerifierPublicKeyYAttr]

section

variable {I : State → Prop}

lemma keeps_receiveMsg1
    (hmsg1 : ∀ image, receiveSocketPerChunk env.inbox 224 224 [] = .ok image →
      224 ≤ image.length → ∀ s, I s → I { s with msgs.msg1 := Msg1.layout.dec image })
    (hremote : ∀ s, I s → I { s with
      ctx.ecdhRemotePublicKeyXAttr :=
        some ⟨.verifierX, s.msgs.msg1.ecdhVerifierPublicKeyX.size.toNat⟩
      ctx.ecdhRemotePublicKeyYAttr :=
        some ⟨.verifierY, s.msgs.msg1.ecdhVerifierPublicKeyY.size.toNat⟩ }) :
    Keeps I (receiveMsg1 env) := by
  rw [receiveMsg1, Msg1.layout_size]
  cases hrecv : receiveSocketPerChunk env.inbox 224 224 [] with
  | error stop => exact Keeps.throw stop
  | ok image =>
    refine Keeps.failIf_bind fun hlen => ?_
    exact Keeps.bind (Keeps.modify (hmsg1 image hrecv (not_lt.mp hlen))) fun _ =>
      Keeps.modify hremote

/-- What `ra_net_handshake` does once it has `msg1`. -/
lemma keeps_checkMsg1
    (hverifier : ∀ s, I s → I { s with
      ctx.ecdsaVerifierPublicKeyXAttr :=
        some ⟨.ecdsaX, s.msgs.msg1.ecdsaVerifierPublicKeyX.size.toNat⟩
      ctx.ecdsaVerifierPublicKeyYAttr :=
        some ⟨.ecdsaY, s.msgs.msg1.ecdsaVerifierPublicKeyY.size.toNat⟩ })
    (hctx : ∀ s ctx, ctx.sent = s.ctx.sent → ctx.refs = s.ctx.refs → I s →
      I { s with ctx := ctx })
    (href : ∀ s : State, I s → ∀ a ∈ s.ctx.refs, ∀ r, a = some r → ∀ t, I t →
      I (t.log [(r.buffer, r.length)]))
    (hread : ∀ f, f ≠ .localX → f ≠ .localY → ∀ s, I s → I (s.log [s.msgs.use f])) :
    Keeps I (authenticateVerifier C env x y >>= fun _ => deriveKeys C env >>= fun _ =>
      verifyMsg1Mac C env >>= fun _ => generateAnchor C env anchorSize) := by
  have hpin : Keeps I (verifyServicePublicKey x y) := by
    refine Keeps.bind Keeps.get fun _ => Keeps.ite (Keeps.pure _) ?_
    exact Keeps.bind (Keeps.failIf _) fun _ => Keeps.bind (Keeps.failIf _) fun _ => Keeps.failIf _
  have himport : Keeps I (importVerifierAttestationKey env) := by
    refine Keeps.bind keeps_tee fun _ => ?_
    refine Keeps.bind (Keeps.modify fun _ hs => hctx _ _ rfl rfl hs) fun _ => ?_
    refine Keeps.bind (Keeps.modify hverifier) fun _ => Keeps.get_bind fun s hs => ?_
    refine Keeps.bind (keeps_readAttribute (href s hs _ (by simp [RaContext.refs]))) fun _ => ?_
    refine Keeps.bind (keeps_readAttribute (href s hs _ (by simp [RaContext.refs]))) fun _ => ?_
    exact Keeps.bind keeps_tee fun _ => Keeps.modify fun _ hs => hctx _ _ rfl rfl hs
  have hupdates : ∀ fs : List Field, .localX ∉ fs → .localY ∉ fs → Keeps I (updates env fs) :=
    fun fs hx hy => keeps_updates fun f hf =>
      hread f (fun h => hx (h ▸ hf)) fun h => hy (h ▸ hf)
  have hsignature : Keeps I (verifyEcdhPublicKeySignature C env) := by
    refine Keeps.bind keeps_tee fun _ => Keeps.bind (hupdates _ (by decide) (by decide)) fun _ => ?_
    refine Keeps.bind keeps_tee fun _ => Keeps.bind keeps_tee fun _ => ?_
    refine Keeps.bind Keeps.get fun _ => Keeps.bind keeps_content fun _ => ?_
    exact Keeps.bind keeps_tee fun _ => Keeps.failIf _
  have hshared : Keeps I (deriveSharedKey C env) := by
    refine Keeps.get_bind fun s hs => ?_
    refine Keeps.bind (keeps_deriveSharedSecret (href s hs _ (by simp [RaContext.refs]))
      (href s hs _ (by simp [RaContext.refs]))) fun _ => ?_
    exact keeps_saveKey fun _ _ hs => hctx _ _ rfl rfl hs
  have hlabel : ∀ key, Keeps I (deriveSharedMacKey C env key) := by
    intro key
    refine Keeps.bind Keeps.get fun _ => Keeps.bind keeps_deriveLabel fun _ => ?_
    refine keeps_saveKey fun o t ht => ?_
    cases key <;> exact hctx _ _ rfl rfl ht
  have hmac : Keeps I (verifyMsg1Mac C env) := by
    refine Keeps.bind keeps_tee fun _ => Keeps.bind Keeps.get fun _ => ?_
    refine Keeps.bind keeps_content fun _ => ?_
    refine Keeps.bind (hupdates _ (by decide) (by decide)) fun _ => ?_
    exact Keeps.bind keeps_tee fun _ => Keeps.failIf _
  have hanchor : Keeps I (generateAnchor C env anchorSize) := by
    refine Keeps.bind (Keeps.failIf _) fun _ => Keeps.bind keeps_tee fun _ => ?_
    refine Keeps.bind (hupdates _ (by decide) (by decide)) fun _ => ?_
    exact Keeps.bind keeps_tee fun _ => Keeps.pure _
  refine Keeps.bind (Keeps.bind hpin fun _ => Keeps.bind himport fun _ => hsignature) fun _ => ?_
  refine Keeps.bind (Keeps.bind hshared fun _ => Keeps.bind (hlabel _) fun _ => hlabel _) fun _ => ?_
  exact Keeps.bind hmac fun _ => hanchor

lemma raNetHandshake_sent
    (h : CallsOk Fn.sites env [.generateEcdhKeypair, .establishTcpConnection, .sendMsg0]) :
    (final (raNetHandshake C env x y anchorSize s)).ctx.sent
      = s.ctx.sent ++ [Msg0.layout.enc (s.greeting C env.freshKey).msgs.msg0] := by
  simp only [callsOk_cons, callsOk_nil] at h
  obtain ⟨h1, h2, h3, -⟩ := h
  have hrest : Keeps (fun t : State => t.ctx.sent
        = s.ctx.sent ++ [Msg0.layout.enc (s.greeting C env.freshKey).msgs.msg0])
      (receiveMsg1 env >>= fun _ => authenticateVerifier C env x y >>= fun _ =>
        deriveKeys C env >>= fun _ => verifyMsg1Mac C env >>= fun _ =>
          generateAnchor C env anchorSize) := by
    exact Keeps.bind (keeps_receiveMsg1 (fun _ _ _ _ hs => hs) fun _ hs => hs) fun _ =>
      keeps_checkMsg1 (fun _ hs => hs) (fun _ _ hsent _ hs => hsent.trans hs)
        (fun _ _ _ _ _ _ _ hs => hs) (fun _ _ _ _ hs => hs)
  rw [raNetHandshake_eq_bind, exchangeKeys]
  simp only [bind_assoc]
  rw [bind_of_ok (allocRaContext_eq_ok (u := ()).mpr rfl),
    bind_of_ok (generateEcdhKeypair_eq_ok (u := ()).mpr ⟨h1, rfl⟩),
    bind_of_ok (establishTcpConnection_eq_ok (u := ()).mpr ⟨h2, rfl⟩),
    bind_of_ok (sendMsg0_eq_ok (u := ()).mpr ⟨h3, rfl⟩)]
  exact hrest.final_of rfl

end

/-! ## The quote -/

lemma ensureAttestationServiceUp_eq_ok :
    ensureAttestationServiceUp env q = .ok u q' ↔
      q.attestationSession ≠ .null ∧ q = q'
        ∨ q.attestationSession = .null
          ∧ env.Ok .ensureAttestationServiceUp Fn.ensureAttestationServiceUp.sites
          ∧ { q with attestationSession := .opened } = q' := by
  rw [ensureAttestationServiceUp, get_bind_eq_ok]
  by_cases h : q.attestationSession = .null
  · rw [if_neg (not_not.mpr h), tee_bind_eq_ok, modify_eq_ok]
    simp [h, Fn.sites]
  · rw [if_pos h, pure_eq_ok]
    simp [h]

variable {pta : EStateM Stop Quote Unit} {data rest : List UInt8} {dataSize : ℕ}

lemma inService_eq_ok :
    inService pta q = .ok u q' ↔
      q.attestationSession = .opened ∧ pta q.quote = .ok () q'.quote
        ∧ q'.attestationSession = .opened := by
  obtain ⟨session, quote⟩ := q'
  rw [inService]
  by_cases h : q.attestationSession = .opened
  · cases hpta : pta q.quote with
    | ok v quote' => simp [h, and_comm, eq_comm]
    | error stop quote' => simp [h]
  · simp [h]

lemma invokeGenQuote_eq_ok :
    invokeGenQuote env pta q = .ok u q' ↔
      env.Ok .raQuoteCollect Fn.raQuoteCollect.sites ∧ q.attestationSession = .opened
        ∧ pta q.quote = .ok () q'.quote ∧ q'.attestationSession = .opened := by
  rw [invokeGenQuote, tee_bind_eq_ok, inService_eq_ok]
  simp [Fn.sites]

/-- `ra_quote_collect` succeeds exactly if the session is not a closed one, the service generates
a quote and no call fails. -/
lemma raQuoteCollect_eq_ok {ptaEnv : Env Pta.Fn} {key : Pta.AttestationKey}
    {wasmBytecodeHash : Bytes 32} :
    raQuoteCollect C env ptaEnv key wasmBytecodeHash anchor anchorSize q = .ok u q' ↔
      (q.attestationSession = .null →
          env.Ok .ensureAttestationServiceUp Fn.ensureAttestationServiceUp.sites)
        ∧ q.attestationSession ≠ .closed ∧ env.Ok .raQuoteCollect Fn.raQuoteCollect.sites
        ∧ Pta.generateQuote C ptaEnv key wasmBytecodeHash.toList anchor anchorSize q.quote
            = .ok () q'.quote
        ∧ q'.attestationSession = .opened := by
  simp only [raQuoteCollect, bind_eq_ok, ensureAttestationServiceUp_eq_ok, invokeGenQuote_eq_ok]
  constructor
  · rintro ⟨_, _, ⟨hnull, rfl⟩ | ⟨hnull, h1, rfl⟩, h2, hopen, hquote, hopen'⟩
    · exact ⟨fun h => absurd h hnull, by simp [hopen], h2, hquote, hopen'⟩
    · exact ⟨fun _ => h1, by simp [hnull], h2, hquote, hopen'⟩
  · rintro ⟨h1, hclosed, h2, hquote, hopen'⟩
    by_cases hnull : q.attestationSession = .null
    · exact ⟨(), _, .inr ⟨hnull, h1 hnull, rfl⟩, h2, rfl, hquote, hopen'⟩
    · have hopen : q.attestationSession = .opened := by
        cases hq : q.attestationSession <;> simp_all
      exact ⟨(), _, .inl ⟨hnull, rfl⟩, h2, hopen, hquote, hopen'⟩

/-! ## Message 2 -/

/-- The context when `prepare_msg2` computes the MAC. -/
def State.withQuote (s : State) (quote : Quote) : State :=
  { s with
    msgs.msg2.ecdhLocalPublicKeyX :=
      copyCoord s.msgs.msg0.ecdhAttesterPublicKeyX s.msgs.msg2.ecdhLocalPublicKeyX
    msgs.msg2.ecdhLocalPublicKeyY :=
      copyCoord s.msgs.msg0.ecdhAttesterPublicKeyY s.msgs.msg2.ecdhLocalPublicKeyY
    msgs.msg2.quote := quote }

/-- The context after the MAC of `msg2` has been computed. -/
def State.withMac (s : State) (mac : Bytes 16) : State := { s with msgs.msg2.mac := mac }

lemma macMsg2_eq_ok :
    macMsg2 C env s = .ok u s' ↔
      env.Ok .prepareMsg2 Fn.prepareMsg2.sites
        ∧ ∃ k x y, s.ctx.ecdhSharedMacKey = .key k
          ∧ s.msgs.read env.tail .localX s.msgs.msg0.ecdhAttesterPublicKeyX.size.toNat = some x
          ∧ s.msgs.read env.tail .localY s.msgs.msg0.ecdhAttesterPublicKeyY.size.toNat = some y
          ∧ (s.withMac (C.cmac k (x ++ (y ++ Quote.layout.enc s.msgs.msg2.quote)))).log
              [(.localX, s.msgs.msg0.ecdhAttesterPublicKeyX.size.toNat),
                (.localY, s.msgs.msg0.ecdhAttesterPublicKeyY.size.toNat)] = s' := by
  simp only [macMsg2, tee_bind_eq_ok, get_bind_eq_ok, content_bind_eq_ok, readField_bind_eq_ok,
    modify_eq_ok, Fn.sites, Env.ok_cons, Env.ok_nil]
  constructor
  · rintro ⟨h1, h2, k, hk, x, hx, y, hy, h3, rfl⟩
    refine ⟨⟨h1, h2, h3, trivial⟩, k, x, y, hk, hx, hy, ?_⟩
    simp [TaState.log, State.withMac]
  · rintro ⟨⟨h1, h2, h3, -⟩, k, x, y, hk, hx, hy, rfl⟩
    refine ⟨h1, h2, k, hk, x, hx, y, hy, h3, ?_⟩
    simp [TaState.log, State.withMac]

lemma prepareMsg2_of_macMsg2 (h : macMsg2 C env (s.withQuote quote) = .ok () s') :
    prepareMsg2 C env quote s = .ok () s' := by
  rw [prepareMsg2, modify_bind_eq_ok]
  change ignoreError (macMsg2 C env) (s.withQuote quote) = _
  simp only [ignoreError, h]

lemma keeps_ignoreError {I : State → Prop} {x : Prog Unit} (h : Keeps I x) :
    Keeps I (ignoreError x) := by
  intro s hs
  obtain ⟨hok, herr⟩ := h s hs
  cases hx : x s with
  | ok u t =>
    simp only [ignoreError, hx, EStateM.Result.ok.injEq, reduceCtorEq, false_implies,
      implies_true, and_true]
    rintro a s' ⟨-, rfl⟩
    exact hok u t hx
  | error stop t =>
    have ht := herr stop t hx
    cases stop with
    | error e =>
      simp only [ignoreError, hx, EStateM.Result.ok.injEq, reduceCtorEq, false_implies,
        implies_true, and_true]
      rintro a s' ⟨-, rfl⟩
      exact ht
    | panic =>
      simp only [ignoreError, hx, EStateM.Result.error.injEq, reduceCtorEq, false_implies,
        implies_true, true_and]
      rintro a s' ⟨-, rfl⟩
      exact ht

lemma prepareMsg2_frame (h : prepareMsg2 C env quote s = .ok u s') :
    s'.msgs.msg2.quote = quote ∧ s'.ctx.sent = s.ctx.sent := by
  have hkeeps : Keeps (fun t : State => t.msgs.msg2.quote = quote ∧ t.ctx.sent = s.ctx.sent)
      (macMsg2 C env) := by
    unfold macMsg2
    repeat' first
      | exact keeps_tee
      | exact keeps_content
      | exact Keeps.get
      | exact keeps_readField fun _ hs => hs
      | exact Keeps.modify fun _ hs => hs
      | refine Keeps.bind ?_ fun _ => ?_
  rw [prepareMsg2, modify_bind_eq_ok] at h
  exact (keeps_ignoreError hkeeps (s.withQuote quote) ⟨rfl, rfl⟩).1 _ _ h

lemma sendMsg2_eq_ok :
    sendMsg2 env s = .ok u s' ↔
      env.Ok .sendMsg2 Fn.sendMsg2.sites ∧ s.withSent (Msg2.layout.enc s.msgs.msg2) = s' :=
  send_eq_ok

lemma raNetSendQuote_sent (h : raNetSendQuote C env quote s = .ok u s') :
    ∃ m : Msg2, s'.ctx.sent = s.ctx.sent ++ [Msg2.layout.enc m] ∧ m.quote = quote := by
  obtain ⟨_, t, hprepare, hsend⟩ := bind_eq_ok.mp h
  obtain ⟨hquote, hsent⟩ := prepareMsg2_frame hprepare
  obtain ⟨-, rfl⟩ := sendMsg2_eq_ok.mp hsend
  exact ⟨t.msgs.msg2, by rw [State.withSent, hsent], hquote⟩

/-! ## Message 3 -/

/-- The context after `receive_msg3`. -/
def State.withMsg3 (s : State) (msg3 : List UInt8) : State :=
  { s with ctx.msg3 := msg3, ctx.msg3Size := msg3.length }

/-- The encrypted content of the `msg3` at the beginning of some memory. -/
def encryptedContent (memory : List UInt8) : List UInt8 :=
  (memory.drop 52).take (Msg3.layout.dec memory).encryptedContentSize.toNat

lemma decryptMsg3_eq_ok :
    decryptMsg3 C env dataSize rest s = .ok data s' ↔
      env.Ok .decryptMsg3 Fn.decryptMsg3.sites
        ∧ (Msg3.layout.dec (s.ctx.msg3 ++ rest)).encryptedContentSize.toNat
            ≤ (encryptedContent (s.ctx.msg3 ++ rest)).length
        ∧ (Msg3.layout.dec (s.ctx.msg3 ++ rest)).encryptedContentSize.toNat ≤ dataSize
        ∧ (∃ k, s.ctx.ecdhSharedSessionKey = .key k
          ∧ C.decrypt k (Msg3.layout.dec (s.ctx.msg3 ++ rest)).iv
              (encryptedContent (s.ctx.msg3 ++ rest)) (Msg3.layout.dec (s.ctx.msg3 ++ rest)).tag
            = some data)
        ∧ s = s' := by
  simp only [decryptMsg3, tee_bind_eq_ok, get_bind_eq_ok, content_bind_eq_ok, failIf_bind_eq_ok,
    not_lt, Fn.sites, Env.ok_cons, Env.ok_nil]
  simp only [encryptedContent, Msg3.layout_size]
  constructor
  · rintro ⟨h1, h2, k, hk, h3, hmem, hsize, h4, hmatch⟩
    generalize hdata : C.decrypt k _ _ _ = p at hmatch
    cases p with
    | none => exact absurd hmatch (by simp [throw_eq_ok])
    | some d =>
      obtain ⟨rfl, rfl⟩ := pure_eq_ok.mp hmatch
      exact ⟨⟨h1, h2, h3, h4, trivial⟩, hmem, hsize, ⟨k, hk, hdata⟩, rfl⟩
  · rintro ⟨⟨h1, h2, h3, h4, -⟩, hmem, hsize, ⟨k, hk, hdata⟩, rfl⟩
    refine ⟨h1, h2, k, hk, h3, hmem, hsize, h4, ?_⟩
    rw [hdata]
    rfl

lemma raNetReceiveData_eq_ok :
    raNetReceiveData C env dataSize rest s = .ok data s' ↔
      env.Ok .allocateMsg3 Fn.allocateMsg3.sites
        ∧ ∃ msg3, receiveSocketPerChunk env.inbox (256 * 1024) ((52 + dataSize + 16) % 2 ^ 32) []
            = .ok msg3
          ∧ decryptMsg3 C env dataSize rest (s.withMsg3 msg3) = .ok data s' := by
  simp only [raNetReceiveData, allocateMsg3, receiveMsg3, bind_assoc, modify_bind_eq_ok,
    teeVoid_bind_eq_ok, get_bind_eq_ok, Msg3.layout_size, Fn.sites, Env.ok_cons, Env.ok_nil,
    and_true]
  refine and_congr_right fun _ => ?_
  cases receiveSocketPerChunk env.inbox (256 * 1024) ((52 + dataSize + 16) % 2 ^ 32) [] with
  | error stop =>
    constructor
    · intro h
      obtain ⟨_, _, hthrow, -⟩ := bind_eq_ok.mp h
      cases hthrow
    · rintro ⟨_, h, -⟩
      cases h
  | ok msg3 =>
    rw [modify_bind_eq_ok]
    constructor
    · exact fun h => ⟨msg3, rfl, h⟩
    · rintro ⟨_, h, hdecrypt⟩
      cases h
      exact hdecrypt

end

end Watz.Attester
