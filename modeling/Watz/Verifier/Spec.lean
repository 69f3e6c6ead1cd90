import Watz.Verifier.Basic

/-!
# When the functions of the verifier succeed

For each function, the condition under which it returns `TEE_SUCCESS` and the state it then
leaves.  The checks of `handle_msg2` are stated as predicates of their own, since they are what
the protocol is about.
-/

namespace Watz.Verifier

open Lib

/-! ## The calls of each function -/

/-- The calls each function makes on its way to success. -/
def Fn.sites : Fn → List (Api × ℕ)
  | configureCustomSecret => [(.malloc, 0)]
  | importAttesterAttestationKey =>
    [(.allocateTransientObject, 0), (.populateTransientObject, 0)]
  | generateEcdsaKeypair | generateEcdhKeypair =>
    [(.allocateTransientObject, 0), (.generateKey, 0), (.getObjectBufferAttribute, 0),
      (.getObjectBufferAttribute, 1)]
  | populateAttesterKey => [(.allocateTransientObject, 0), (.populateTransientObject, 0)]
  | deriveSharedKey =>
    deriveSharedSecretSites ++ [(.allocateTransientObject, 2), (.populateTransientObject, 1)]
  | deriveSharedMacKey _ =>
    deriveLabelSites ++ [(.allocateTransientObject, 1), (.populateTransientObject, 1)]
  | appendEcdhPublicKeysSignature =>
    [(.allocateOperation, 0), (.digestDoFinal, 0), (.allocateOperation, 1), (.setOperationKey, 0),
      (.asymmetricSignDigest, 0)]
  | appendMac => [(.allocateOperation, 0), (.setOperationKey, 0), (.macComputeFinal, 0)]
  | verifyMacMsg2 => [(.allocateOperation, 0), (.setOperationKey, 0), (.macCompareFinal, 0)]
  | verifyQuoteSignature =>
    [(.allocateOperation, 0), (.digestDoFinal, 0), (.allocateOperation, 1), (.setOperationKey, 0),
      (.asymmetricVerifyDigest, 0)]
  | verifyAnchor => [(.allocateOperation, 0), (.digestDoFinal, 0)]
  | allocateMsg3 => [(.malloc, 0)]
  | encryptMsg3 =>
    [(.generateRandom, 0), (.allocateOperation, 0), (.setOperationKey, 0), (.aeInit, 0),
      (.aeEncryptFinal, 0)]

/-! ## The checks of `handle_msg2` -/

/-- The CMAC of the stored `msg2` is right under the current MAC key. -/
def MacOk (C : Crypto) (tail : List UInt8) (s : State) : Prop :=
  ∃ k data, s.ctx.ecdhSharedMacKey = .key k
    ∧ s.msgs.concat tail msg2MacFields = some data
    ∧ C.cmac k (data ++ Quote.layout.enc s.msgs.msg2.quote) = s.msgs.msg2.mac

/-- Two arrays agree over the length of the first one. -/
def FieldsMatch (tail : List UInt8) (s : State) (f g : Field) : Prop :=
  ∃ bs, s.msgs.read tail f (f.coord s.msgs).size.toNat = some bs
    ∧ s.msgs.read tail g (f.coord s.msgs).size.toNat = some bs

/-- The public keys in `msg0` and `msg2` agree. -/
def KeysMatch (tail : List UInt8) (s : State) : Prop :=
  FieldsMatch tail s .attesterX .localX ∧ FieldsMatch tail s .attesterY .localY

/-- The signature of the quote is valid under the imported attestation key. -/
def SignatureOk (C : Crypto) (s : State) : Prop :=
  ∃ key, s.ctx.ecdsaAttesterPublicKeyHandle = .key key
    ∧ C.verify key (C.sha256 (quoteDigestInput s.msgs.msg2.quote)) s.msgs.msg2.quote.signature
      = true

/-- The anchor of the quote is the hash of the two public keys of the session. -/
def AnchorOk (C : Crypto) (tail : List UInt8) (s : State) : Prop :=
  ∃ data, s.msgs.concat tail anchorFields = some data
    ∧ s.msgs.msg2.quote.anchor = C.sha256 data

/-! The checks can be evaluated. -/

instance (C : Crypto) (tail : List UInt8) (s : State) : Decidable (MacOk C tail s) :=
  decidable_of_iff
    ((s.ctx.ecdhSharedMacKey.get?.bind fun k =>
      (s.msgs.concat tail msg2MacFields).map fun data =>
        C.cmac k (data ++ Quote.layout.enc s.msgs.msg2.quote)) = some s.msgs.msg2.mac)
    (by simp [MacOk, Option.bind_eq_some_iff, Option.map_eq_some_iff])

instance (tail : List UInt8) (s : State) (f g : Field) : Decidable (FieldsMatch tail s f g) :=
  decidable_of_iff
    (s.msgs.read tail f (f.coord s.msgs).size.toNat ≠ none
      ∧ s.msgs.read tail g (f.coord s.msgs).size.toNat
        = s.msgs.read tail f (f.coord s.msgs).size.toNat)
    (by
      simp only [FieldsMatch, Option.ne_none_iff_exists']
      constructor
      · rintro ⟨⟨bs, hf⟩, hg⟩
        exact ⟨bs, hf, hg.trans hf⟩
      · rintro ⟨bs, hf, hg⟩
        exact ⟨⟨bs, hf⟩, hg.trans hf.symm⟩)

instance (tail : List UInt8) (s : State) : Decidable (KeysMatch tail s) :=
  inferInstanceAs (Decidable (_ ∧ _))

instance (C : Crypto) (s : State) : Decidable (SignatureOk C s) :=
  decidable_of_iff
    ((s.ctx.ecdsaAttesterPublicKeyHandle.get?.map fun key =>
      C.verify key (C.sha256 (quoteDigestInput s.msgs.msg2.quote)) s.msgs.msg2.quote.signature)
      = some true)
    (by simp [SignatureOk, Option.map_eq_some_iff])

instance (C : Crypto) (tail : List UInt8) (s : State) : Decidable (AnchorOk C tail s) :=
  decidable_of_iff
    ((s.msgs.concat tail anchorFields).map C.sha256 = some s.msgs.msg2.quote.anchor)
    (by simp [AnchorOk, eq_comm])

/-- The state in which `handle_msg2` makes its checks. -/
def State.withMsg2 (s : State) (buffer : List UInt8) : State :=
  { s.setQuoteValid false with msgs.msg2 := Msg2.layout.dec buffer }

section

variable {C : Crypto} {env : Env Fn} {s s' : State} {u : Unit}

variable {buffer out : List UInt8}

lemma storeMsg2_eq_ok :
    storeMsg2 buffer s = .ok u s' ↔
      288 ≤ buffer.length ∧ { s with msgs.msg2 := Msg2.layout.dec buffer } = s' := by
  simp only [storeMsg2, failIf_bind_eq_ok, modify_eq_ok]
  rw [Msg2.layout_size, not_lt]

lemma verifyMacMsg2_eq_ok :
    verifyMacMsg2 C env s = .ok u s' ↔
      env.Ok .verifyMacMsg2 Fn.verifyMacMsg2.sites ∧ MacOk C env.tail s
        ∧ s.log (List.map s.msgs.use msg2MacFields) = s' := by
  simp only [verifyMacMsg2, tee_bind_eq_ok, get_bind_eq_ok, content_bind_eq_ok,
    updates_bind_eq_ok, failIf_eq_ok, Fn.sites, Env.ok_cons, Env.ok_nil, MacOk]
  grind

lemma compareFields_eq_ok {f g : Field} :
    compareFields env f g s = .ok u s' ↔
      FieldsMatch env.tail s f g
        ∧ s.log [s.msgs.use f, (g, (f.coord s.msgs).size.toNat)] = s' := by
  simp only [compareFields, get_bind_eq_ok, readField_bind_eq_ok, failIf_eq_ok, FieldsMatch,
    Messages.use]
  grind

lemma verifyPublicKeyMsg2MatchesMsg0_eq_ok :
    verifyPublicKeyMsg2MatchesMsg0 env s = .ok u s' ↔
      KeysMatch env.tail s
        ∧ s.log [s.msgs.use .attesterX, (.localX, (Field.attesterX.coord s.msgs).size.toNat),
          s.msgs.use .attesterY, (.localY, (Field.attesterY.coord s.msgs).size.toNat)] = s' := by
  simp only [verifyPublicKeyMsg2MatchesMsg0, bind_eq_ok, compareFields_eq_ok, KeysMatch,
    FieldsMatch]
  grind

lemma verifyQuoteSignature_eq_ok :
    verifyQuoteSignature C env s = .ok u s' ↔
      env.Ok .verifyQuoteSignature Fn.verifyQuoteSignature.sites ∧ SignatureOk C s
        ∧ s.setQuoteValid true = s' := by
  simp only [verifyQuoteSignature, tee_bind_eq_ok, get_bind_eq_ok, content_bind_eq_ok,
    failIf_bind_eq_ok, modify_eq_ok, Fn.sites, Env.ok_cons, Env.ok_nil, SignatureOk,
    Bool.not_eq_false]
  constructor
  · rintro ⟨h1, h2, h3, h4, key, hkey, h5, hsig, rfl⟩
    exact ⟨⟨h1, h2, h3, h4, h5, trivial⟩, ⟨key, hkey, hsig⟩, rfl⟩
  · rintro ⟨⟨h1, h2, h3, h4, h5, -⟩, ⟨key, hkey, hsig⟩, rfl⟩
    exact ⟨h1, h2, h3, h4, key, hkey, h5, hsig, rfl⟩

lemma verifyAnchor_eq_ok :
    verifyAnchor C env s = .ok u s' ↔
      env.Ok .verifyAnchor Fn.verifyAnchor.sites ∧ AnchorOk C env.tail s
        ∧ s.log (List.map s.msgs.use anchorFields) = s' := by
  simp only [verifyAnchor, tee_bind_eq_ok, get_bind_eq_ok, updates_bind_eq_ok, failIf_eq_ok,
    Fn.sites, Env.ok_cons, Env.ok_nil, AnchorOk]
  grind

/-- `handle_msg2` up to the check of the anchor. -/
def checkQuote (C : Crypto) (env : Env Fn) (buffer : List UInt8) : Prog Unit := do
  modify fun s => s.setQuoteValid false
  storeMsg2 buffer
  verifyMacMsg2 C env
  verifyPublicKeyMsg2MatchesMsg0 env
  verifyQuoteSignature C env

lemma handleMsg2_eq_bind (buffer : List UInt8) :
    handleMsg2 C env buffer = checkQuote C env buffer >>= fun _ => verifyAnchor C env := by
  simp only [handleMsg2, checkQuote, bind_assoc]

/-- The message is long enough and passes the first three checks. -/
structure QuoteChecks (C : Crypto) (tail : List UInt8) (s : State) (buffer : List UInt8) : Prop where
  length_le : 288 ≤ buffer.length
  macOk : MacOk C tail (s.withMsg2 buffer)
  keysMatch : KeysMatch tail (s.withMsg2 buffer)
  signatureOk : SignatureOk C (s.withMsg2 buffer)

instance (C : Crypto) (tail : List UInt8) (s : State) (buffer : List UInt8) :
    Decidable (QuoteChecks C tail s buffer) :=
  decidable_of_iff
    (288 ≤ buffer.length ∧ MacOk C tail (s.withMsg2 buffer) ∧ KeysMatch tail (s.withMsg2 buffer)
      ∧ SignatureOk C (s.withMsg2 buffer))
    ⟨fun h => ⟨h.1, h.2.1, h.2.2.1, h.2.2.2⟩, fun h => ⟨h.1, h.2, h.3, h.4⟩⟩

/-- The reads of the first three checks. -/
def checkQuoteReads (m : Messages) : List (Field × ℕ) :=
  [m.use .localX, m.use .localY,
    m.use .attesterX, (.localX, (Field.attesterX.coord m).size.toNat),
    m.use .attesterY, (.localY, (Field.attesterY.coord m).size.toNat)]

/-- The state after the first three checks. -/
def State.checked (s : State) (buffer : List UInt8) : State :=
  ((s.withMsg2 buffer).setQuoteValid true).log (checkQuoteReads (s.withMsg2 buffer).msgs)

lemma checkQuote_eq_ok :
    checkQuote C env buffer s = .ok u s' ↔
      CallsOk Fn.sites env [.verifyMacMsg2, .verifyQuoteSignature] ∧ QuoteChecks C env.tail s buffer
        ∧ s.checked buffer = s' := by
  rw [checkQuote, modify_bind_eq_ok]
  simp only [bind_eq_ok, storeMsg2_eq_ok, verifyMacMsg2_eq_ok,
    verifyPublicKeyMsg2MatchesMsg0_eq_ok, verifyQuoteSignature_eq_ok, callsOk_cons, callsOk_nil]
  constructor
  · rintro ⟨_, _, ⟨hlen, rfl⟩, _, _, ⟨hc1, hmac, rfl⟩, _, _, ⟨hkeys, rfl⟩, hc2, hsig, rfl⟩
    refine ⟨⟨hc1, hc2, trivial⟩, ⟨hlen, hmac, hkeys, hsig⟩, ?_⟩
    simp [TaState.log, State.checked, State.withMsg2, State.setQuoteValid, checkQuoteReads,
      msg2MacFields]
  · rintro ⟨⟨hc1, hc2, -⟩, ⟨hlen, hmac, hkeys, hsig⟩, rfl⟩
    refine ⟨(), _, ⟨hlen, rfl⟩, (), _, ⟨hc1, hmac, rfl⟩, (), _, ⟨hkeys, rfl⟩, hc2, hsig, ?_⟩
    simp [TaState.log, State.checked, State.withMsg2, State.setQuoteValid, checkQuoteReads,
      msg2MacFields]

/-- `handle_msg2` succeeds exactly if the message is long enough, passes the four checks and no
call fails. -/
lemma handleMsg2_eq_ok :
    handleMsg2 C env buffer s = .ok u s' ↔
      CallsOk Fn.sites env [.verifyMacMsg2, .verifyQuoteSignature, .verifyAnchor]
        ∧ QuoteChecks C env.tail s buffer ∧ AnchorOk C env.tail (s.withMsg2 buffer)
        ∧ (s.checked buffer).log (List.map (s.withMsg2 buffer).msgs.use anchorFields) = s' := by
  rw [handleMsg2_eq_bind]
  simp only [bind_eq_ok, checkQuote_eq_ok, verifyAnchor_eq_ok, callsOk_cons, callsOk_nil]
  constructor
  · rintro ⟨_, _, ⟨⟨hc1, hc2, -⟩, hchecks, rfl⟩, hc3, hanchor, rfl⟩
    exact ⟨⟨hc1, hc2, hc3, trivial⟩, hchecks, hanchor, rfl⟩
  · rintro ⟨⟨hc1, hc2, hc3, -⟩, hchecks, hanchor, rfl⟩
    exact ⟨(), _, ⟨⟨hc1, hc2, trivial⟩, hchecks, rfl⟩, hc3, hanchor, rfl⟩

/-! ## Opening a session -/

/-- The context after a session has been opened. -/
def State.opened (C : Crypto) (s : State) (attestationKey : Point) (d : ℕ) : State :=
  { s with
    ctx.ecdsaAttesterPublicKeyHandle := .key attestationKey
    ctx.ecdsaLocalKeypairHandle := .key d
    msgs.msg1.ecdsaVerifierPublicKeyX :=
      s.msgs.msg1.ecdsaVerifierPublicKeyX.store (C.publicKey d).x
    msgs.msg1.ecdsaVerifierPublicKeyY :=
      s.msgs.msg1.ecdsaVerifierPublicKeyY.store (C.publicKey d).y }

lemma importAttesterAttestationKey_eq_ok {attestationKey : Point} :
    importAttesterAttestationKey env attestationKey s = .ok u s' ↔
      env.Ok .importAttesterAttestationKey Fn.importAttesterAttestationKey.sites
        ∧ { s with ctx.ecdsaAttesterPublicKeyHandle := .key attestationKey } = s' := by
  simp only [importAttesterAttestationKey, tee_bind_eq_ok, modify_bind_eq_ok, modify_eq_ok,
    Fn.sites, Env.ok_cons, Env.ok_nil]
  tauto

lemma generateEcdsaKeypair_eq_ok :
    generateEcdsaKeypair C env s = .ok u s' ↔
      env.Ok .generateEcdsaKeypair Fn.generateEcdsaKeypair.sites
        ∧ { s with
            ctx.ecdsaLocalKeypairHandle := .key env.freshKey
            msgs.msg1.ecdsaVerifierPublicKeyX :=
              s.msgs.msg1.ecdsaVerifierPublicKeyX.store (C.publicKey env.freshKey).x
            msgs.msg1.ecdsaVerifierPublicKeyY :=
              s.msgs.msg1.ecdsaVerifierPublicKeyY.store (C.publicKey env.freshKey).y } = s' := by
  simp only [generateEcdsaKeypair, tee_bind_eq_ok, modify_bind_eq_ok, modify_eq_ok, Fn.sites,
    Env.ok_cons, Env.ok_nil, and_true, and_assoc]
  rfl

/-! ## Message 0 -/

/-- The context after `generate_ecdh_keypair`. -/
def State.withEcdhKey (C : Crypto) (s : State) (d : ℕ) : State :=
  { s with
    ctx.ecdhLocalKeypairHandle := .key d
    msgs.msg1.ecdhVerifierPublicKeyX := s.msgs.msg1.ecdhVerifierPublicKeyX.store (C.publicKey d).x
    msgs.msg1.ecdhVerifierPublicKeyY :=
      s.msgs.msg1.ecdhVerifierPublicKeyY.store (C.publicKey d).y }

/-- The context after `store_msg0`. -/
def State.withMsg0 (s : State) (buffer : List UInt8) : State :=
  { s with msgs.msg0 := Msg0.layout.dec buffer }

/-- The context after `populate_attester_key`. -/
def State.withAttesterKey (s : State) (key : Point) : State :=
  { s with
    ctx.ecdhAttesterPublicKeyXAttr :=
      some ⟨.attesterX, s.msgs.msg0.ecdhAttesterPublicKeyX.size.toNat⟩
    ctx.ecdhAttesterPublicKeyYAttr :=
      some ⟨.attesterY, s.msgs.msg0.ecdhAttesterPublicKeyY.size.toNat⟩
    ctx.ecdhAttesterPublicKeyHandle := .key key }

/-- The context after `derive_shared_key`. -/
def State.withKdk (s : State) (kdk : Bytes 16) : State :=
  { s with ctx.ecdhSharedKeyDerivationKey := .key kdk }

/-- The context with the keys of a session. -/
def State.withSharedKeys (C : Crypto) (s : State) (kdk : Bytes 16) : State :=
  { s with
    ctx.ecdhSharedKeyDerivationKey := .key kdk
    ctx.ecdhSharedMacKey := .key (C.cmac kdk SharedKey.mac.data)
    ctx.ecdhSharedSessionKey := .key (C.cmac kdk SharedKey.session.data) }

lemma generateEcdhKeypair_eq_ok :
    generateEcdhKeypair C env s = .ok u s' ↔
      env.Ok .generateEcdhKeypair Fn.generateEcdhKeypair.sites
        ∧ s.withEcdhKey C env.freshKey = s' := by
  simp only [generateEcdhKeypair, tee_bind_eq_ok, modify_bind_eq_ok, modify_eq_ok, Fn.sites,
    Env.ok_cons, Env.ok_nil, and_true, and_assoc]
  rfl

lemma storeMsg0_eq_ok :
    storeMsg0 buffer s = .ok u s' ↔ 72 ≤ buffer.length ∧ s.withMsg0 buffer = s' := by
  simp only [storeMsg0, failIf_bind_eq_ok, modify_eq_ok, State.withMsg0]
  rw [Msg0.layout_size, not_lt]

lemma populateAttesterKey_eq_ok :
    populateAttesterKey env s = .ok u s' ↔
      env.Ok .populateAttesterKey Fn.populateAttesterKey.sites
        ∧ ∃ x y, s.msgs.read env.tail .attesterX (Field.attesterX.coord s.msgs).size.toNat = some x
          ∧ s.msgs.read env.tail .attesterY (Field.attesterY.coord s.msgs).size.toNat = some y
          ∧ (s.withAttesterKey ⟨ofBigEndian x, ofBigEndian y⟩).log
              [s.msgs.use .attesterX, s.msgs.use .attesterY] = s' := by
  simp only [populateAttesterKey, modify_bind_eq_ok, tee_bind_eq_ok, get_bind_eq_ok,
    readAttribute_bind_eq_ok, modify_eq_ok, Fn.sites, Env.ok_cons, Env.ok_nil,
    Option.some.injEq]
  constructor
  · rintro ⟨h1, _, x, rfl, hx, _, y, rfl, hy, h2, rfl⟩
    refine ⟨⟨h1, h2, trivial⟩, x, y, hx, hy, ?_⟩
    simp [TaState.log, State.withAttesterKey, Messages.use, Field.coord]
  · rintro ⟨⟨h1, h2, -⟩, x, y, hx, hy, rfl⟩
    refine ⟨h1, _, x, rfl, hx, _, y, rfl, hy, h2, ?_⟩
    simp [TaState.log, State.withAttesterKey, Messages.use, Field.coord]

lemma deriveSharedKey_eq_ok :
    deriveSharedKey C env s = .ok u s' ↔
      env.Ok .deriveSharedKey Fn.deriveSharedKey.sites
        ∧ ∃ d rx x ry y, s.ctx.ecdhLocalKeypairHandle = .key d
          ∧ s.ctx.ecdhAttesterPublicKeyXAttr = some rx
          ∧ s.msgs.read env.tail rx.buffer rx.length = some x
          ∧ s.ctx.ecdhAttesterPublicKeyYAttr = some ry
          ∧ s.msgs.read env.tail ry.buffer ry.length = some y
          ∧ (s.withKdk (C.kdk (C.ecdh d ⟨ofBigEndian x, ofBigEndian y⟩))).log
              [(rx.buffer, rx.length), (ry.buffer, ry.length)] = s' := by
  rw [deriveSharedKey, get_bind_eq_ok]
  simp only [bind_eq_ok, deriveSharedSecret_eq_ok, saveKey_eq_ok, Fn.sites, Env.Ok,
    List.forall_mem_append]
  constructor
  · rintro ⟨_, _, ⟨h1, d, rx, x, ry, y, hd, hrx, hx, hry, hy, rfl, rfl⟩, h2, rfl⟩
    exact ⟨⟨h1, h2⟩, d, rx, x, ry, y, hd, hrx, hx, hry, hy, rfl⟩
  · rintro ⟨⟨h1, h2⟩, d, rx, x, ry, y, hd, hrx, hx, hry, hy, rfl⟩
    exact ⟨_, _, ⟨h1, d, rx, x, ry, y, hd, hrx, hx, hry, hy, rfl, rfl⟩, h2, rfl⟩

lemma deriveSharedMacKey_eq_ok {key : SharedKey} :
    deriveSharedMacKey C env key s = .ok u s' ↔
      env.Ok (.deriveSharedMacKey key) (Fn.deriveSharedMacKey key).sites
        ∧ ∃ k, s.ctx.ecdhSharedKeyDerivationKey = .key k
          ∧ { s with ctx := s.ctx.putKey key (.key (C.cmac k key.data)) } = s' := by
  have hput : ∀ (h h' : Obj (Bytes 16)) (ctx : RaContextVerifier),
      (ctx.putKey key h).putKey key h' = ctx.putKey key h' := by
    intro h h' ctx
    cases key <;> rfl
  rw [deriveSharedMacKey, get_bind_eq_ok]
  simp only [bind_eq_ok, deriveLabel_eq_ok, saveKey_eq_ok, Fn.sites, Env.Ok,
    List.forall_mem_append, hput]
  constructor
  · rintro ⟨_, _, ⟨h1, ⟨k, hk, rfl⟩, rfl⟩, h2, rfl⟩
    exact ⟨⟨h1, h2⟩, k, hk, rfl⟩
  · rintro ⟨⟨h1, h2⟩, k, hk, rfl⟩
    exact ⟨_, _, ⟨h1, ⟨k, hk, rfl⟩, rfl⟩, h2, rfl⟩

/-- The functions `handle_msg0` runs. -/
def handleMsg0Fns : List Fn :=
  [.generateEcdhKeypair, .populateAttesterKey, .deriveSharedKey, .deriveSharedMacKey .mac,
    .deriveSharedMacKey .session]

/-- The context in which `handle_msg0` derives the keys. -/
def State.withPeer (C : Crypto) (s : State) (d : ℕ) (buffer : List UInt8) (key : Point) : State :=
  ((s.withEcdhKey C d).withMsg0 buffer).withAttesterKey key

/-- `handle_msg0` succeeds exactly if the message is long enough, both coordinates can be read
and no call fails. -/
lemma handleMsg0_eq_ok :
    handleMsg0 C env buffer s = .ok u s' ↔
      72 ≤ buffer.length ∧ CallsOk Fn.sites env handleMsg0Fns
        ∧ ∃ x y key, key = ⟨ofBigEndian x, ofBigEndian y⟩
          ∧ (s.withPeer C env.freshKey buffer key).msgs.read env.tail .attesterX
              (Msg0.layout.dec buffer).ecdhAttesterPublicKeyX.size.toNat = some x
          ∧ (s.withPeer C env.freshKey buffer key).msgs.read env.tail .attesterY
              (Msg0.layout.dec buffer).ecdhAttesterPublicKeyY.size.toNat = some y
          ∧ ((s.withPeer C env.freshKey buffer key).withSharedKeys C
                (C.kdk (C.ecdh env.freshKey key))).log
              [(.attesterX, (Msg0.layout.dec buffer).ecdhAttesterPublicKeyX.size.toNat),
                (.attesterY, (Msg0.layout.dec buffer).ecdhAttesterPublicKeyY.size.toNat),
                (.attesterX, (Msg0.layout.dec buffer).ecdhAttesterPublicKeyX.size.toNat),
                (.attesterY, (Msg0.layout.dec buffer).ecdhAttesterPublicKeyY.size.toNat)]
            = s' := by
  simp only [handleMsg0, bind_eq_ok, generateEcdhKeypair_eq_ok, storeMsg0_eq_ok,
    populateAttesterKey_eq_ok, deriveSharedKey_eq_ok, deriveSharedMacKey_eq_ok, handleMsg0Fns,
    callsOk_cons, callsOk_nil]
  constructor
  · rintro ⟨_, _, ⟨h1, rfl⟩, _, _, ⟨hlen, rfl⟩, _, _, ⟨h2, x, y, hx, hy, rfl⟩,
      _, _, ⟨h3, d, rx, x', ry, y', hd, hrx, hx', hry, hy', rfl⟩,
      _, _, ⟨h4, k, hk, rfl⟩, h5, k', hk', rfl⟩
    obtain rfl := Obj.key.inj hd
    obtain rfl := Option.some.inj hrx
    obtain rfl := Option.some.inj hry
    obtain rfl := Option.some.inj (hx.symm.trans hx')
    obtain rfl := Option.some.inj (hy.symm.trans hy')
    obtain rfl := Obj.key.inj hk
    obtain rfl := Obj.key.inj hk'
    refine ⟨hlen, ⟨h1, h2, h3, h4, h5, trivial⟩, x, y, _, rfl, hx, hy, ?_⟩
    simp [TaState.log, State.withPeer, State.withSharedKeys, State.withKdk,
      RaContextVerifier.putKey, Messages.use, State.withAttesterKey, State.withMsg0, Field.coord]
  · rintro ⟨hlen, ⟨h1, h2, h3, h4, h5, -⟩, x, y, _, rfl, hx, hy, rfl⟩
    refine ⟨(), _, ⟨h1, rfl⟩, (), _, ⟨hlen, rfl⟩, (), _, ⟨h2, x, y, hx, hy, rfl⟩,
      (), _, ⟨h3, _, _, x, _, y, rfl, rfl, hx, rfl, hy, rfl⟩,
      (), _, ⟨h4, _, rfl, rfl⟩, h5, _, rfl, ?_⟩
    simp [TaState.log, State.withPeer, State.withSharedKeys, State.withKdk,
      RaContextVerifier.putKey, Messages.use, State.withAttesterKey, State.withMsg0, Field.coord]

/-! ## Messages 1 and 3 -/

/-- The context after `append_ecdh_public_keys_signature`. -/
def State.withSignature (s : State) (signature : Bytes 64) : State :=
  { s with msgs.msg1.ecdhSignature := signature }

/-- The context after `append_mac`. -/
def State.withMac (s : State) (mac : Bytes 16) : State := { s with msgs.msg1.mac := mac }

lemma appendEcdhPublicKeysSignature_eq_ok :
    appendEcdhPublicKeysSignature C env s = .ok u s' ↔
      env.Ok .appendEcdhPublicKeysSignature Fn.appendEcdhPublicKeysSignature.sites
        ∧ ∃ data d, s.msgs.concat env.tail signatureFields = some data
          ∧ s.ctx.ecdsaLocalKeypairHandle = .key d
          ∧ (s.withSignature (C.sign d env.nonce (C.sha256 data))).log
              (List.map s.msgs.use signatureFields) = s' := by
  simp only [appendEcdhPublicKeysSignature, tee_bind_eq_ok, updates_bind_eq_ok, get_bind_eq_ok,
    content_bind_eq_ok, modify_eq_ok, Fn.sites, Env.ok_cons, Env.ok_nil]
  constructor
  · rintro ⟨h1, data, hdata, h2, h3, h4, d, hd, h5, rfl⟩
    exact ⟨⟨h1, h2, h3, h4, h5, trivial⟩, data, d, hdata, hd, rfl⟩
  · rintro ⟨⟨h1, h2, h3, h4, h5, -⟩, data, d, hdata, hd, rfl⟩
    exact ⟨h1, data, hdata, h2, h3, h4, d, hd, h5, rfl⟩

lemma appendMac_eq_ok :
    appendMac C env s = .ok u s' ↔
      env.Ok .appendMac Fn.appendMac.sites
        ∧ ∃ k data, s.ctx.ecdhSharedMacKey = .key k
          ∧ s.msgs.concat env.tail msg1MacFields = some data
          ∧ (s.withMac (C.cmac k (data ++ s.msgs.msg1.ecdhSignature.toList))).log
              (List.map s.msgs.use msg1MacFields) = s' := by
  simp only [appendMac, tee_bind_eq_ok, updates_bind_eq_ok, get_bind_eq_ok,
    content_bind_eq_ok, modify_eq_ok, Fn.sites, Env.ok_cons, Env.ok_nil]
  constructor
  · rintro ⟨h1, h2, k, hk, data, hdata, h3, rfl⟩
    exact ⟨⟨h1, h2, h3, trivial⟩, k, data, hk, hdata, rfl⟩
  · rintro ⟨⟨h1, h2, h3, -⟩, k, data, hk, hdata, rfl⟩
    exact ⟨h1, h2, k, hk, data, hdata, h3, rfl⟩

/-- The context after `prepare_msg1`, without its reads. -/
def State.withMsg1 (C : Crypto) (s : State) (nonce d : ℕ) (k : Bytes 16) (data data' : List UInt8) :
    State :=
  (s.withSignature (C.sign d nonce (C.sha256 data))).withMac
    (C.cmac k (data' ++ (C.sign d nonce (C.sha256 data)).toList))

/-- `prepare_msg1` succeeds exactly if the buffer is long enough, the coordinates can be read, the
keys are there and no call fails. -/
lemma prepareMsg1_eq_ok {bufferSize : ℕ} :
    prepareMsg1 C env bufferSize s = .ok out s' ↔
      224 ≤ bufferSize ∧ CallsOk Fn.sites env [.appendEcdhPublicKeysSignature, .appendMac]
        ∧ ∃ data d k data', s.msgs.concat env.tail signatureFields = some data
          ∧ s.ctx.ecdsaLocalKeypairHandle = .key d
          ∧ s.ctx.ecdhSharedMacKey = .key k
          ∧ (s.withSignature (C.sign d env.nonce (C.sha256 data))).msgs.concat env.tail
              msg1MacFields = some data'
          ∧ Msg1.layout.enc (s.withMsg1 C env.nonce d k data data').msgs.msg1 = out
          ∧ (s.withMsg1 C env.nonce d k data data').log
              (List.map s.msgs.use (signatureFields ++ msg1MacFields)) = s' := by
  rw [prepareMsg1, failIf_bind_eq_ok, Msg1.layout_size, not_lt]
  simp only [bind_eq_ok, appendEcdhPublicKeysSignature_eq_ok, appendMac_eq_ok, get_eq_ok,
    pure_eq_ok, callsOk_cons, callsOk_nil]
  constructor
  · rintro ⟨hlen, _, _, ⟨h1, data, d, hdata, hd, rfl⟩, _, _, ⟨h2, k, data', hk, hdata', rfl⟩,
      _, _, ⟨rfl, rfl⟩, rfl, rfl⟩
    refine ⟨hlen, ⟨h1, h2, trivial⟩, data, d, k, data', hdata, hd, hk, hdata', rfl, ?_⟩
    simp [TaState.log, State.withMsg1, State.withMac, State.withSignature, Messages.use, Field.coord,
      signatureFields, msg1MacFields]
  · rintro ⟨hlen, ⟨h1, h2, -⟩, data, d, k, data', hdata, hd, hk, hdata', rfl, rfl⟩
    refine ⟨hlen, (), _, ⟨h1, data, d, hdata, hd, rfl⟩, (), _, ⟨h2, k, data', hk, hdata', rfl⟩,
      _, _, ⟨rfl, rfl⟩, rfl, ?_⟩
    simp [TaState.log, State.withMsg1, State.withMac, State.withSignature, Messages.use, Field.coord,
      signatureFields, msg1MacFields]

/-- The bytes of `msg3`. -/
def msg3Image (C : Crypto) (k : Bytes 16) (iv : Bytes 32) (data : List UInt8) : List UInt8 :=
  Msg3.layout.enc ⟨iv, (C.encrypt k iv data).2, UInt32.ofNat (C.encrypt k iv data).1.length⟩
    ++ (C.encrypt k iv data).1

lemma msg3Image_length (C : Crypto) (k : Bytes 16) (iv : Bytes 32) (data : List UInt8) :
    (msg3Image C k iv data).length = 52 + data.length := by
  rw [msg3Image, List.length_append, Layout.enc_length, Msg3.layout_size, C.encrypt_length]

lemma encryptMsg3_eq_ok {bufferSize : ℕ} {data : List UInt8} :
    encryptMsg3 C env bufferSize data s = .ok out s' ↔
      env.Ok .encryptMsg3 Fn.encryptMsg3.sites ∧ data.length ≤ bufferSize - 52
        ∧ ∃ k, s.ctx.ecdhSharedSessionKey = .key k ∧ msg3Image C k env.random data = out
          ∧ s = s' := by
  simp only [encryptMsg3, teeVoid_bind_eq_ok, tee_bind_eq_ok, get_bind_eq_ok, content_bind_eq_ok,
    failIf_bind_eq_ok, pure_eq_ok, Fn.sites, Env.ok_cons, Env.ok_nil, not_lt]
  rw [Msg3.layout_size]
  constructor
  · rintro ⟨h1, h2, h3, k, hk, h4, hlen, h5, hout, rfl⟩
    exact ⟨⟨h1, h2, h3, h4, h5, trivial⟩, hlen, k, hk, hout, rfl⟩
  · rintro ⟨⟨h1, h2, h3, h4, h5, -⟩, hlen, k, hk, hout, rfl⟩
    exact ⟨h1, h2, h3, k, hk, h4, hlen, h5, hout, rfl⟩

/-- `prepare_msg3` succeeds exactly if the buffer has room for the header and the data, there is
a session key and no call fails.  The verdict on the quote does not occur. -/
lemma prepareMsg3_eq_ok {data : List UInt8} :
    prepareMsg3 C env buffer data s = .ok out s' ↔
      52 + data.length ≤ buffer.length ∧ CallsOk Fn.sites env [.allocateMsg3, .encryptMsg3]
        ∧ ∃ k, s.ctx.ecdhSharedSessionKey = .key k
          ∧ msg3Image C k env.random data ++ buffer.drop (52 + data.length) = out
          ∧ { s with ctx.msg3Size := 52 } = s' := by
  simp only [prepareMsg3, allocateMsg3, bind_eq_ok, modify_eq_ok, failIf_eq_ok, teeVoid_eq_ok,
    encryptMsg3_eq_ok, pure_eq_ok, callsOk_cons, callsOk_nil]
  constructor
  · rintro ⟨_, _, ⟨_, _, rfl, _, _, ⟨hlen, rfl⟩, h1, rfl⟩, _, _, ⟨h2, hlen', k, hk, rfl, rfl⟩,
      rfl, rfl⟩
    rw [Msg3.layout_size, gt_iff_lt, not_lt] at hlen
    refine ⟨by omega, ⟨?_, h2, trivial⟩, k, hk, by rw [msg3Image_length], rfl⟩
    simpa [Fn.sites] using h1
  · rintro ⟨hlen, ⟨h1, h2, -⟩, k, hk, rfl, rfl⟩
    refine ⟨(), _, ⟨(), _, rfl, (), _, ⟨?_, rfl⟩, ?_, rfl⟩, _, _,
      ⟨h2, by omega, k, hk, rfl, rfl⟩, by rw [msg3Image_length], rfl⟩
    · rw [Msg3.layout_size]
      omega
    · simpa [Fn.sites] using h1

end

end Watz.Verifier
