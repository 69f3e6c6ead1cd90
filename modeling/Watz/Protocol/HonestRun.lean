import Watz.Attester.Spec
import Watz.Verifier.Session

/-!
# Runs without an attacker

One session between an attester and the verifier whose messages arrive as they were sent and in
which no call fails.  The two programs were written independently; here they are run against each
other, from the handshake to the secret that the attester decrypts.
-/

namespace Watz.Protocol

open Lib Verifier

/-! ## The run -/

/-- The parties of an honest run: their keys and data, what they meet outside the two programs and
the pieces in which the network delivers a message. -/
structure Parties (C : Crypto) where
  attestationKey : Pta.AttestationKey
  claimHash : Bytes 32
  secret : List UInt8
  /-- The size of the buffer the attester wants the secret in. -/
  dataSize : ℕ
  /-- The memory behind `msg3` in the attester. -/
  rest : List UInt8
  /-- The size of the buffer for `msg1`. -/
  msg1BufferSize : ℕ
  /-- The buffer for `msg3`, with what is in it. -/
  msg3Buffer : List UInt8
  openEnv : Env Fn
  cmdEnv : Cmd → Env Fn
  handshakeEnv : Env Attester.Fn
  collectEnv : Env Attester.Fn
  sendEnv : Env Attester.Fn
  receiveEnv : Env Attester.Fn
  ptaEnv : Env Pta.Fn
  /-- The context of the attester before the run. -/
  attester : Attester.State
  quoteState : Attester.QuoteState
  msg1Pieces : List UInt8 → List (List UInt8)
  msg3Pieces : List UInt8 → List (List UInt8)
  /-- No call fails. -/
  open_ok : openEnv.AllOk
  cmd_ok : ∀ cmd, (cmdEnv cmd).AllOk
  handshake_ok : handshakeEnv.AllOk
  collect_ok : collectEnv.AllOk
  send_ok : sendEnv.AllOk
  receive_ok : receiveEnv.AllOk
  pta_ok : ptaEnv.AllOk
  /-- The buffers have room for the messages and for the secret. -/
  msg1_room : 224 ≤ msg1BufferSize
  msg3_room : msg3Buffer.length = 52 + secret.length + 16
  data_room : secret.length ≤ dataSize
  /-- The size of `msg3` is computed without overflow. -/
  dataSize_lt : 52 + dataSize + 16 < 2 ^ 32
  /-- The session with the attestation service has not been closed. -/
  session_ne : quoteState.attestationSession ≠ .closed
  /-- The network loses and changes nothing. -/
  msg1_delivered : ∀ msg, msg.length = 224 →
    Attester.receiveSocketPerChunk ((msg1Pieces msg).map .ok) 224 224 [] = .ok msg
  msg3_delivered : ∀ msg, msg.length ≤ 52 + dataSize + 16 →
    Attester.receiveSocketPerChunk ((msg3Pieces msg).map .ok) (256 * 1024) (52 + dataSize + 16) []
      = .ok msg

/-- How an honest run ends. -/
structure Outcome where
  data : List UInt8
  attester : Attester.State
  verifier : State

namespace Parties

variable {C : Crypto} (p : Parties C)

/-- The key of the verifier, which the attester pins. -/
def serviceKey : Point := C.publicKey p.openEnv.freshKey

/-- `ra_net_handshake` with the pinned key, given what the network delivers. -/
def handshake (inbox : List (List UInt8)) : EStateM.Result Stop Attester.State (Bytes 32) :=
  Attester.raNetHandshake C { p.handshakeEnv with inbox := inbox.map .ok }
    (bigEndian 32 p.serviceKey.x) (bigEndian 32 p.serviceKey.y) 32 p.attester

/-- The verifier opens its session and answers `msg0`. -/
def answer (msg0 : List UInt8) : Option (List UInt8 × State) := do
  let v₀ ← result? (taOpenSessionEntryPoint C p.openEnv
    (C.publicKey p.attestationKey.keypair) ⟨.none, .none, .none, .none⟩ State.zero)
  let v₁ ← result? (handleMsg0 C (p.cmdEnv .handleMsg0) msg0 v₀.2)
  result? (prepareMsg1 C (p.cmdEnv .prepareMsg1) p.msg1BufferSize v₁.2)

/-- The attester collects a quote for the anchor and sends it. -/
def prove (anchor : Bytes 32) (a : Attester.State) : Option (List UInt8 × Attester.State) := do
  let q ← result? (Attester.raQuoteCollect C p.collectEnv p.ptaEnv p.attestationKey p.claimHash
    anchor 32 p.quoteState)
  let a' ← result? (Attester.raNetSendQuote C p.sendEnv q.2.quote a)
  let msg2 ← a'.2.ctx.sent.getLast?
  pure (msg2, a'.2)

/-- The verifier checks the quote and releases the secret. -/
def release (msg2 : List UInt8) (v : State) : Option (List UInt8 × State) := do
  let v' ← result? (handleMsg2 C (p.cmdEnv .handleMsg2) msg2 v)
  result? (prepareMsg3 C (p.cmdEnv .prepareMsg3) p.msg3Buffer p.secret v'.2)

/-- The whole run.  `msg0` is what the attester sends while the network is still silent. -/
def run : Option Outcome := do
  let msg0 ← (final (p.handshake [])).ctx.sent.getLast?
  let r₁ ← p.answer msg0
  let r₂ ← result? (p.handshake (p.msg1Pieces r₁.1))
  let r₃ ← p.prove r₂.1 r₂.2
  let r₄ ← p.release r₃.1 r₁.2
  let r₅ ← result? (Attester.raNetReceiveData C
    { p.receiveEnv with inbox := (p.msg3Pieces r₄.1).map .ok } p.dataSize p.rest r₃.2)
  pure ⟨r₅.1, r₅.2, r₄.2⟩

end Parties

/-! ## The answer of the verifier -/

/-- The bytes of several coordinates in a row. -/
def keyBytes (m : Messages) (fs : List Field) : List UInt8 := fs.flatMap fun f => (f.coord m).bytes

/-- What the verifier has when it has accepted the key `ga`, having started in `v₀`: the keys of both
sides and the keys of the session. -/
structure Keyed (C : Crypto) (ga : Msg0) (d : ℕ) (kdk : Bytes 16) (v₀ v : State) :
    Prop where
  ga_eq : v.msgs.msg0 = ga
  gvX_eq : v.msgs.msg1.ecdhVerifierPublicKeyX
    = v₀.msgs.msg1.ecdhVerifierPublicKeyX.store (C.publicKey d).x
  gvY_eq : v.msgs.msg1.ecdhVerifierPublicKeyY
    = v₀.msgs.msg1.ecdhVerifierPublicKeyY.store (C.publicKey d).y
  ecdsaX_eq : v.msgs.msg1.ecdsaVerifierPublicKeyX = v₀.msgs.msg1.ecdsaVerifierPublicKeyX
  ecdsaY_eq : v.msgs.msg1.ecdsaVerifierPublicKeyY = v₀.msgs.msg1.ecdsaVerifierPublicKeyY
  macKey_eq : v.ctx.ecdhSharedMacKey = .key (C.cmac kdk SharedKey.mac.data)
  sessionKey_eq : v.ctx.ecdhSharedSessionKey = .key (C.cmac kdk SharedKey.session.data)
  ecdsaLocal_eq : v.ctx.ecdsaLocalKeypairHandle = v₀.ctx.ecdsaLocalKeypairHandle
  attestationKey_eq : v.ctx.ecdsaAttesterPublicKeyHandle = v₀.ctx.ecdsaAttesterPublicKeyHandle

/-- What the verifier has when it has answered as well: the signature and the MAC in `msg1`. -/
structure Answered (C : Crypto) (ga : Msg0) (d e nonce : ℕ) (kdk : Bytes 16)
    (v₀ v : State) : Prop extends Keyed C ga d kdk v₀ v where
  signature_eq : v.msgs.msg1.ecdhSignature = C.sign e nonce
    (C.sha256 (keyBytes v.msgs signatureFields))
  mac_eq : v.msgs.msg1.mac = C.cmac (C.cmac kdk SharedKey.mac.data)
    (keyBytes v.msgs msg1MacFields ++ v.msgs.msg1.ecdhSignature.toList)

/-- The key derivation key of the private key `d` and the key in `ga`. -/
def kdkOf (C : Crypto) (d : ℕ) (ga : Msg0) : Bytes 16 :=
  C.kdk (C.ecdh d ⟨ofBigEndian ga.ecdhAttesterPublicKeyX.bytes,
    ofBigEndian ga.ecdhAttesterPublicKeyY.bytes⟩)

section

variable {C : Crypto} {env : Env Fn} {v v₀ v₁ : State} {d nonce : ℕ} {ga : Msg0}
  {kdk : Bytes 16}

lemma keyed_withSharedKeys (v₀ : State) (d : ℕ) (msg0 : List UInt8) (key : Point)
    (kdk : Bytes 16) (l : List (Field × ℕ)) :
    Keyed C (Msg0.layout.dec msg0) d kdk v₀
      (((v₀.withPeer C d msg0 key).withSharedKeys C kdk).log l) := by
  constructor <;> dsimp only [State.withPeer, State.withSharedKeys,
    State.withAttesterKey, State.withMsg0, State.withEcdhKey,
    TaState.log]

lemma exists_keyed (henv : env.AllOk) {msg0 : List UInt8} (hlen : 72 ≤ msg0.length)
    (hx : (Msg0.layout.dec msg0).ecdhAttesterPublicKeyX.Fits)
    (hy : (Msg0.layout.dec msg0).ecdhAttesterPublicKeyY.Fits) (v₀ : State) :
    ∃ v₁, handleMsg0 C env msg0 v₀ = .ok () v₁
      ∧ Keyed C (Msg0.layout.dec msg0) env.freshKey
          (kdkOf C env.freshKey (Msg0.layout.dec msg0)) v₀ v₁ := by
  have hv1 : handleMsg0 C env msg0 v₀ = _ :=
    handleMsg0_eq_ok (u := ()).mpr ⟨hlen, callsOk_of_allOk henv _,
    (Msg0.layout.dec msg0).ecdhAttesterPublicKeyX.bytes,
    (Msg0.layout.dec msg0).ecdhAttesterPublicKeyY.bytes, _, rfl,
    Messages.read_of_le _ _ .attesterX hx, Messages.read_of_le _ _ .attesterY hy, rfl⟩
  exact ⟨_, hv1, keyed_withSharedKeys v₀ _ msg0 _ _ _⟩

lemma Keyed.fits (h : Keyed C ga d kdk v₀ v₁) (hx : ga.ecdhAttesterPublicKeyX.Fits)
    (hy : ga.ecdhAttesterPublicKeyY.Fits) (hex : v₀.msgs.msg1.ecdsaVerifierPublicKeyX.Fits)
    (hey : v₀.msgs.msg1.ecdsaVerifierPublicKeyY.Fits) {f : Field} (hf : f ≠ .localX ∧ f ≠ .localY) :
    (f.coord v₁.msgs).Fits := by
  cases f with
  | attesterX =>
    rw [Field.coord, h.ga_eq]
    exact hx
  | attesterY =>
    rw [Field.coord, h.ga_eq]
    exact hy
  | verifierX =>
    rw [Field.coord, h.gvX_eq]
    exact Coord.store_fits ..
  | verifierY =>
    rw [Field.coord, h.gvY_eq]
    exact Coord.store_fits ..
  | ecdsaX =>
    rw [Field.coord, h.ecdsaX_eq]
    exact hex
  | ecdsaY =>
    rw [Field.coord, h.ecdsaY_eq]
    exact hey
  | localX => exact absurd rfl hf.1
  | localY => exact absurd rfl hf.2

lemma answered_withMsg1 (h : Keyed C ga d kdk v₀ v₁) (e nonce : ℕ) (l : List (Field × ℕ)) :
    Answered C ga d e nonce kdk v₀ ((v₁.withMsg1 C nonce e (C.cmac kdk SharedKey.mac.data)
      (keyBytes v₁.msgs signatureFields) (keyBytes v₁.msgs msg1MacFields)).log l) where
  ga_eq := h.ga_eq
  gvX_eq := h.gvX_eq
  gvY_eq := h.gvY_eq
  ecdsaX_eq := h.ecdsaX_eq
  ecdsaY_eq := h.ecdsaY_eq
  macKey_eq := h.macKey_eq
  sessionKey_eq := h.sessionKey_eq
  ecdsaLocal_eq := h.ecdsaLocal_eq
  attestationKey_eq := h.attestationKey_eq
  signature_eq := rfl
  mac_eq := rfl

variable {e : ℕ} {s : Attester.State}

lemma exists_answered (henv : env.AllOk) {bufferSize : ℕ} (hbuf : 224 ≤ bufferSize)
    (h : Keyed C ga d kdk v₀ v₁)
    (hfits : ∀ f : Field, f ≠ .localX ∧ f ≠ .localY → (f.coord v₁.msgs).Fits)
    (he : v₀.ctx.ecdsaLocalKeypairHandle = .key e) :
    ∃ v₂, prepareMsg1 C env bufferSize v₁ = .ok (Msg1.layout.enc v₂.msgs.msg1) v₂
      ∧ Answered C ga d e env.nonce kdk v₀ v₂ := by
  have hdata : v₁.msgs.concat env.tail signatureFields
      = some (keyBytes v₁.msgs signatureFields) :=
    v₁.msgs.concat_of_fits env.tail fun f hf => hfits f (by revert f; decide)
  have hdata' : (v₁.withSignature (C.sign e env.nonce (C.sha256 (keyBytes v₁.msgs
      signatureFields)))).msgs.concat env.tail msg1MacFields
        = some (keyBytes v₁.msgs msg1MacFields) :=
    Messages.concat_of_fits _ env.tail fun f hf => by
      have hf' := hfits f (by revert f; decide)
      cases f <;> exact hf'
  have hv2 := prepareMsg1_eq_ok.mpr ⟨hbuf, callsOk_of_allOk henv _, _, e, _, _, hdata,
    h.ecdsaLocal_eq.trans he, h.macKey_eq, hdata', rfl, rfl⟩
  refine ⟨_, hv2, answered_withMsg1 h _ _ _⟩

/-! ## The handshake of the attester -/

lemma answered_msgs (h : Answered C ga d e nonce kdk v₀ v) {a : ℕ}
    (hga : (s.greeting C a).msgs.msg0 = ga) :
    (s.answered C a (Msg1.layout.enc v.msgs.msg1)).msgs = { v.msgs with msg2 := Msg2.zero } := by
  refine Messages.ext ?_ (Msg1.layout.dec_enc _) rfl
  rw [h.ga_eq]
  exact hga

lemma exists_handshake (hsign : C.VerifySign) {env : Env Attester.Fn} (henv : env.AllOk)
    (h : Answered C ga d e nonce kdk v₀ v)
    (hfits : ∀ f : Field, f ≠ .localX ∧ f ≠ .localY → (f.coord v.msgs).Fits)
    (hkey : (⟨ofBigEndian v.msgs.msg1.ecdsaVerifierPublicKeyX.bytes,
      ofBigEndian v.msgs.msg1.ecdsaVerifierPublicKeyY.bytes⟩ : Point) = C.publicKey e)
    (hkdk : C.kdk (C.ecdh env.freshKey (C.publicKey d)) = kdk)
    (hga : (s.greeting C env.freshKey).msgs.msg0 = ga)
    (hrecv : Attester.receiveSocketPerChunk env.inbox 224 224 []
      = .ok (Msg1.layout.enc v.msgs.msg1)) {x y : List UInt8}
    (hpins : Attester.PinsMatch x y v.msgs.msg1) :
    ∃ s', Attester.raNetHandshake C env x y 32 s
        = .ok (C.sha256 (keyBytes v.msgs anchorFields)) s'
      ∧ s'.msgs = { v.msgs with msg2 := Msg2.zero }
      ∧ s'.ctx.ecdhSharedMacKey = .key (C.cmac kdk SharedKey.mac.data)
      ∧ s'.ctx.ecdhSharedSessionKey = .key (C.cmac kdk SharedKey.session.data) := by
  have hm := answered_msgs h hga
  have hfits' : ∀ f : Field, f ≠ .localX ∧ f ≠ .localY →
      (f.coord { v.msgs with msg2 := Msg2.zero }).Fits := by
    intro f hf
    have hv := hfits f hf
    cases f <;> first | exact hv | exact absurd rfl hf.1 | exact absurd rfl hf.2
  have hconcat : ∀ fs : List Field, (∀ f ∈ fs, f ≠ .localX ∧ f ≠ .localY) →
      Messages.concat { v.msgs with msg2 := Msg2.zero } env.tail fs
        = some (keyBytes { v.msgs with msg2 := Msg2.zero } fs) :=
    fun fs hfs => Messages.concat_of_fits _ _ fun f hf => hfits' f (hfs f hf)
  have hchecks : Attester.HandshakeChecks C env x y (Msg1.layout.enc v.msgs.msg1)
      { v.msgs with msg2 := Msg2.zero } (C.publicKey e) (C.publicKey d)
      (C.sha256 (keyBytes v.msgs anchorFields)) := by
    refine ⟨hrecv, by simp, hpins, ?_, ?_, ?_, ?_, ?_⟩
    · rw [Messages.point_of_fits _ _ (hfits' _ (by decide)) (hfits' _ (by decide))]
      exact congrArg some hkey
    · have hverify : C.verify (C.publicKey e) (C.sha256 (keyBytes v.msgs signatureFields))
          v.msgs.msg1.ecdhSignature = true := by
        rw [h.signature_eq]
        exact hsign _ _ _
      exact ⟨_, hconcat _ (by decide), hverify⟩
    · rw [Messages.point_of_fits _ _ (hfits' _ (by decide)) (hfits' _ (by decide)), Field.coord,
        Field.coord, h.gvX_eq, h.gvY_eq, Coord.ofBigEndian_store_bytes _ (C.publicKey_lt d).1,
        Coord.ofBigEndian_store_bytes _ (C.publicKey_lt d).2]
    · rw [hkdk]
      exact ⟨_, hconcat _ (by decide), h.mac_eq.symm⟩
    · exact ⟨_, hconcat _ (by decide), rfl⟩
  have hok := Attester.raNetHandshake_eq_ok (s := s).mpr ⟨rfl, callsOk_of_allOk henv _, _, _, _,
    hm.symm ▸ hchecks, rfl⟩
  refine ⟨_, hok, hm, ?_, ?_⟩
  · rw [← hkdk]
    rfl
  · rw [← hkdk]
    rfl

/-! ## The quote -/

lemma copyCoord_bytes {src : Coord} (h : src.Fits) (dst : Coord) :
    (Attester.copyCoord src dst).bytes = src.bytes := by
  have hlen : src.bytes.length = src.size.toNat := by
    rw [Coord.bytes, List.length_take, src.raw.length_eq]
    exact min_eq_left h
  rw [Attester.copyCoord, Coord.bytes, ← hlen]
  exact Bytes.take_overwrite (hlen.trans_le h)

/-- The `msg2` of an attester with the key `ga` and the MAC key `k`. -/
structure QuoteMessage (C : Crypto) (ga : Msg0) (k : Bytes 16) (quote : Quote) (m : Msg2) : Prop where
  sizeX_eq : m.ecdhLocalPublicKeyX.size = ga.ecdhAttesterPublicKeyX.size
  sizeY_eq : m.ecdhLocalPublicKeyY.size = ga.ecdhAttesterPublicKeyY.size
  bytesX_eq : m.ecdhLocalPublicKeyX.bytes = ga.ecdhAttesterPublicKeyX.bytes
  bytesY_eq : m.ecdhLocalPublicKeyY.bytes = ga.ecdhAttesterPublicKeyY.bytes
  quote_eq : m.quote = quote
  mac_eq : m.mac = C.cmac k (ga.ecdhAttesterPublicKeyX.bytes
    ++ (ga.ecdhAttesterPublicKeyY.bytes ++ Quote.layout.enc quote))

lemma exists_quoteMessage {env : Env Attester.Fn} (henv : env.AllOk)
    (hx : s.msgs.msg0.ecdhAttesterPublicKeyX.Fits) (hy : s.msgs.msg0.ecdhAttesterPublicKeyY.Fits)
    {k : Bytes 16} (hk : s.ctx.ecdhSharedMacKey = .key k) (quote : Quote) :
    ∃ m s', Attester.raNetSendQuote C env quote s = .ok () s'
      ∧ QuoteMessage C s.msgs.msg0 k quote m ∧ s'.ctx.sent = s.ctx.sent ++ [Msg2.layout.enc m]
      ∧ s'.ctx.ecdhSharedMacKey = s.ctx.ecdhSharedMacKey
      ∧ s'.ctx.ecdhSharedSessionKey = s.ctx.ecdhSharedSessionKey := by
  have hreadX : (s.withQuote quote).msgs.read env.tail .localX
      s.msgs.msg0.ecdhAttesterPublicKeyX.size.toNat
        = some s.msgs.msg0.ecdhAttesterPublicKeyX.bytes := by
    rw [Messages.read_of_le _ _ _ hx]
    exact congrArg some (copyCoord_bytes hx _)
  have hreadY : (s.withQuote quote).msgs.read env.tail .localY
      s.msgs.msg0.ecdhAttesterPublicKeyY.size.toNat
        = some s.msgs.msg0.ecdhAttesterPublicKeyY.bytes := by
    rw [Messages.read_of_le _ _ _ hy]
    exact congrArg some (copyCoord_bytes hy _)
  have hmac : Attester.macMsg2 C env (s.withQuote quote) = _ :=
    Attester.macMsg2_eq_ok (u := ()).mpr ⟨henv.ok _ _, k, _, _, hk, hreadX, hreadY, rfl⟩
  have hsend : Attester.raNetSendQuote C env quote s = _ :=
    bind_eq_ok.mpr ⟨(), _, Attester.prepareMsg2_of_macMsg2 hmac,
      Attester.sendMsg2_eq_ok (u := ()).mpr ⟨henv.ok _ _, rfl⟩⟩
  refine ⟨_, _, hsend, ⟨rfl, rfl, ?_, ?_, rfl, rfl⟩, rfl, rfl, rfl⟩
  · exact copyCoord_bytes hx _
  · exact copyCoord_bytes hy _

lemma exists_accepted (hsign : C.VerifySign) {env : Env Fn} (henv : env.AllOk)
    {nonce' : ℕ} (h : Answered C ga d e nonce kdk v₀ v)
    (hfits : ∀ f : Field, f ≠ .localX ∧ f ≠ .localY → (f.coord v.msgs).Fits)
    {key : Pta.AttestationKey}
    (hkey : v₀.ctx.ecdsaAttesterPublicKeyHandle = .key (C.publicKey key.keypair))
    {msg2 claim : List UInt8} (hlen : 288 ≤ msg2.length)
    (hproof : QuoteMessage C ga (C.cmac kdk SharedKey.mac.data) (Pta.signedQuote C key nonce' claim
      (C.sha256 (keyBytes v.msgs anchorFields))) (Msg2.layout.dec msg2)) :
    ∃ v', handleMsg2 C env msg2 v = .ok () v'
      ∧ v'.ctx.ecdhSharedMacKey = v.ctx.ecdhSharedMacKey
      ∧ v'.ctx.ecdhSharedSessionKey = v.ctx.ecdhSharedSessionKey := by
  have hX : ga.ecdhAttesterPublicKeyX.Fits := h.ga_eq ▸ hfits .attesterX (by decide)
  have hY : ga.ecdhAttesterPublicKeyY.Fits := h.ga_eq ▸ hfits .attesterY (by decide)
  have hquote : (v.withMsg2 msg2).msgs.msg2.quote = _ := hproof.quote_eq
  have hmac : MacOk C env.tail (v.withMsg2 msg2) := by
    have hconcat : (v.withMsg2 msg2).msgs.concat env.tail msg2MacFields
        = some (ga.ecdhAttesterPublicKeyX.bytes ++ ga.ecdhAttesterPublicKeyY.bytes) := by
      rw [Messages.concat_of_fits]
      · simp [msg2MacFields, Field.coord, State.withMsg2, hproof.bytesX_eq,
          hproof.bytesY_eq]
      · intro f hf
        simp only [msg2MacFields, List.mem_cons, List.not_mem_nil, or_false] at hf
        rcases hf with rfl | rfl
        · exact (congrArg UInt32.toNat hproof.sizeX_eq).trans_le hX
        · exact (congrArg UInt32.toNat hproof.sizeY_eq).trans_le hY
    refine ⟨_, _, h.macKey_eq, hconcat, ?_⟩
    rw [hquote, List.append_assoc]
    exact hproof.mac_eq.symm
  have hkeys : KeysMatch env.tail (v.withMsg2 msg2) := by
    have hcoordX : Field.attesterX.coord (v.withMsg2 msg2).msgs = ga.ecdhAttesterPublicKeyX :=
      congrArg Msg0.ecdhAttesterPublicKeyX h.ga_eq
    have hcoordY : Field.attesterY.coord (v.withMsg2 msg2).msgs = ga.ecdhAttesterPublicKeyY :=
      congrArg Msg0.ecdhAttesterPublicKeyY h.ga_eq
    refine ⟨⟨ga.ecdhAttesterPublicKeyX.bytes, ?_, ?_⟩, ga.ecdhAttesterPublicKeyY.bytes, ?_, ?_⟩
    · rw [hcoordX, Messages.read_of_le _ _ _ hX, hcoordX, Coord.bytes]
    · rw [hcoordX, Messages.read_of_le _ _ _ hX, ← hproof.bytesX_eq, Coord.bytes, hproof.sizeX_eq]
      rfl
    · rw [hcoordY, Messages.read_of_le _ _ _ hY, hcoordY, Coord.bytes]
    · rw [hcoordY, Messages.read_of_le _ _ _ hY, ← hproof.bytesY_eq, Coord.bytes, hproof.sizeY_eq]
      rfl
  have hsig : SignatureOk C (v.withMsg2 msg2) := by
    refine ⟨_, h.attestationKey_eq.trans hkey, ?_⟩
    rw [hquote]
    exact hsign _ _ _
  have hanchor : AnchorOk C env.tail (v.withMsg2 msg2) := by
    refine ⟨keyBytes v.msgs anchorFields, Messages.concat_of_fits _ _ fun f hf => ?_, ?_⟩
    · have hf' := hfits f (by revert f; decide)
      cases f <;> first | exact hf' | exact absurd hf (by decide)
    · rw [hquote]
      rfl
  exact ⟨_, handleMsg2_eq_ok.mpr ⟨callsOk_of_allOk henv _, ⟨hlen, hmac, hkeys, hsig⟩,
    hanchor, rfl⟩, rfl, rfl⟩

/-! ## The secret -/

lemma msg3Image_parts (C : Crypto) (k : Bytes 16) (iv : Bytes 32) {data : List UInt8}
    (hlen : data.length < 2 ^ 32) (more : List UInt8) :
    Msg3.layout.dec (msg3Image C k iv data ++ more)
        = ⟨iv, (C.encrypt k iv data).2, UInt32.ofNat data.length⟩
      ∧ Attester.encryptedContent (msg3Image C k iv data ++ more)
        = (C.encrypt k iv data).1 := by
  have hdec : Msg3.layout.dec (msg3Image C k iv data ++ more)
      = ⟨iv, (C.encrypt k iv data).2, UInt32.ofNat data.length⟩ := by
    rw [msg3Image, List.append_assoc, Layout.dec_enc_append, C.encrypt_length]
  have hsize : (UInt32.ofNat data.length).toNat = (C.encrypt k iv data).1.length := by
    rw [C.encrypt_length, UInt32.toNat_ofNat', Nat.mod_eq_of_lt hlen]
  refine ⟨hdec, ?_⟩
  rw [Attester.encryptedContent, hdec, msg3Image, List.append_assoc,
    List.drop_left' (show _ = 52 from Msg3.layout.enc_length _), hsize, List.take_left]

lemma raNetReceiveData_msg3Image (hdecrypt : C.DecryptEncrypt) {env : Env Attester.Fn}
    (henv : env.AllOk) {k : Bytes 16} (hk : s.ctx.ecdhSharedSessionKey = .key k) {iv : Bytes 32}
    {data pad : List UInt8} {dataSize : ℕ} (hroom : data.length ≤ dataSize)
    (hlen : data.length < 2 ^ 32)
    (hrecv : Attester.receiveSocketPerChunk env.inbox (256 * 1024) ((52 + dataSize + 16) % 2 ^ 32) []
      = .ok (msg3Image C k iv data ++ pad)) (rest : List UInt8) :
    Attester.raNetReceiveData C env dataSize rest s
      = .ok data (s.withMsg3 (msg3Image C k iv data ++ pad)) := by
  obtain ⟨hdec, hcontent⟩ := msg3Image_parts C k iv hlen (pad ++ rest)
  have hsize : (UInt32.ofNat data.length).toNat = data.length := by
    rw [UInt32.toNat_ofNat', Nat.mod_eq_of_lt hlen]
  have hmem : (s.withMsg3 (msg3Image C k iv data ++ pad)).ctx.msg3 ++ rest
      = msg3Image C k iv data ++ (pad ++ rest) := List.append_assoc ..
  have hrun : Attester.decryptMsg3 C env dataSize rest
      (s.withMsg3 (msg3Image C k iv data ++ pad))
        = .ok data (s.withMsg3 (msg3Image C k iv data ++ pad)) := by
    refine Attester.decryptMsg3_eq_ok.mpr ⟨henv.ok _ _, ?_, ?_, ⟨k, hk, ?_⟩, rfl⟩
    · rw [hmem, hdec, hcontent, C.encrypt_length]
      exact hsize.le
    · rw [hmem, hdec]
      exact hsize.trans_le hroom
    · rw [hmem, hdec, hcontent]
      exact hdecrypt k iv data
  exact Attester.raNetReceiveData_eq_ok.mpr ⟨henv.ok _ _, _, hrecv, hrun⟩

end

/-! ## The whole run -/

namespace Parties

variable {C : Crypto} (p : Parties C)

/-- The run goes through to the end, both sides have the same keys and the attester has the
secret. -/
def Completes : Prop :=
  ∃ o, p.run = some o ∧ o.data = p.secret ∧ ∃ mac session,
    o.attester.ctx.ecdhSharedMacKey = .key mac ∧ o.verifier.ctx.ecdhSharedMacKey = .key mac
      ∧ o.attester.ctx.ecdhSharedSessionKey = .key session
      ∧ o.verifier.ctx.ecdhSharedSessionKey = .key session

/-- The key of the attester as it goes into `msg0`. -/
def ga : Msg0 := (p.attester.greeting C p.handshakeEnv.freshKey).msgs.msg0

/-- The verifier when its session has been opened. -/
def opened : State :=
  State.zero.opened C (C.publicKey p.attestationKey.keypair) p.openEnv.freshKey

/-- The key derivation key of the session. -/
def kdk : Bytes 16 :=
  C.kdk (C.ecdh p.handshakeEnv.freshKey (C.publicKey (p.cmdEnv .handleMsg0).freshKey))

lemma getLast_sent : (final (p.handshake [])).ctx.sent.getLast? = some (Msg0.layout.enc p.ga) := by
  have hsent : (final (p.handshake [])).ctx.sent = p.attester.ctx.sent ++ [Msg0.layout.enc p.ga] :=
    Attester.raNetHandshake_sent fun fn _ => p.handshake_ok.ok fn _
  rw [hsent, List.getLast?_concat]

lemma kdkOf_ga (hecdh : C.EcdhComm) : kdkOf C (p.cmdEnv .handleMsg0).freshKey p.ga = p.kdk := by
  have hx : ofBigEndian p.ga.ecdhAttesterPublicKeyX.bytes
      = (C.publicKey p.handshakeEnv.freshKey).x :=
    Coord.ofBigEndian_store_bytes _ (C.publicKey_lt _).1
  have hy : ofBigEndian p.ga.ecdhAttesterPublicKeyY.bytes
      = (C.publicKey p.handshakeEnv.freshKey).y :=
    Coord.ofBigEndian_store_bytes _ (C.publicKey_lt _).2
  rw [kdkOf, hx, hy, kdk, hecdh]

lemma exists_answer (hecdh : C.EcdhComm) :
    ∃ v, p.answer (Msg0.layout.enc p.ga) = some (Msg1.layout.enc v.msgs.msg1, v)
      ∧ Answered C p.ga (p.cmdEnv .handleMsg0).freshKey p.openEnv.freshKey
          (p.cmdEnv .prepareMsg1).nonce p.kdk p.opened v
      ∧ ∀ f : Field, f ≠ .localX ∧ f ≠ .localY → (f.coord v.msgs).Fits := by
  have hopen : taOpenSessionEntryPoint C p.openEnv (C.publicKey p.attestationKey.keypair)
      ⟨.none, .none, .none, .none⟩ State.zero = .ok () p.opened :=
    taOpenSessionEntryPoint_eq_ok.mpr ⟨rfl, callsOk_of_allOk p.open_ok _, rfl⟩
  have hdec : Msg0.layout.dec (Msg0.layout.enc p.ga) = p.ga := Msg0.layout.dec_enc _
  have hgaX : p.ga.ecdhAttesterPublicKeyX.Fits := Coord.store_fits ..
  have hgaY : p.ga.ecdhAttesterPublicKeyY.Fits := Coord.store_fits ..
  obtain ⟨v₁, hv1, hkeyed⟩ := exists_keyed (C := C) (p.cmd_ok .handleMsg0)
    (Msg0.layout.enc_length p.ga).ge (by rw [hdec]; exact hgaX) (by rw [hdec]; exact hgaY) p.opened
  rw [hdec, p.kdkOf_ga hecdh] at hkeyed
  have hfits : ∀ {v : State}, Keyed C p.ga (p.cmdEnv .handleMsg0).freshKey p.kdk p.opened v →
      ∀ f : Field, f ≠ .localX ∧ f ≠ .localY → (f.coord v.msgs).Fits :=
    fun h f hf => h.fits hgaX hgaY (Coord.store_fits ..) (Coord.store_fits ..) hf
  obtain ⟨v₂, hv2, hans⟩ := exists_answered (p.cmd_ok .prepareMsg1) p.msg1_room hkeyed
    (hfits hkeyed) rfl
  refine ⟨v₂, ?_, hans, hfits hans.toKeyed⟩
  simp only [answer, Option.bind_eq_bind, result?_eq_some.mpr hopen, Option.bind_some,
    result?_eq_some.mpr hv1]
  exact result?_eq_some.mpr hv2

lemma ecdsa_eq {d nonce : ℕ} {kdk : Bytes 16} {ga : Msg0} {v : State}
    (h : Answered C ga d p.openEnv.freshKey nonce kdk p.opened v) :
    v.msgs.msg1.ecdsaVerifierPublicKeyX = Coord.zero.store p.serviceKey.x
      ∧ v.msgs.msg1.ecdsaVerifierPublicKeyY = Coord.zero.store p.serviceKey.y :=
  ⟨h.ecdsaX_eq, h.ecdsaY_eq⟩

/-- The key in the answer of the verifier has the form of the pinned key exactly if none of its
coordinates has leading zero bytes. -/
lemma pinsMatch_iff {d nonce : ℕ} {kdk : Bytes 16} {ga : Msg0} {v : State}
    (h : Answered C ga d p.openEnv.freshKey nonce kdk p.opened v) :
    Attester.PinsMatch (bigEndian 32 p.serviceKey.x) (bigEndian 32 p.serviceKey.y) v.msgs.msg1 ↔
      Unpadded p.serviceKey.x ∧ Unpadded p.serviceKey.y := by
  have hx := Coord.store_raw_eq_iff (c := Coord.zero) rfl (C.publicKey_lt p.openEnv.freshKey).1
  have hy := Coord.store_raw_eq_iff (c := Coord.zero) rfl (C.publicKey_lt p.openEnv.freshKey).2
  obtain ⟨hX, hY⟩ := p.ecdsa_eq h
  have hne : bigEndian 32 p.serviceKey.x ≠ [] := by
    rw [← List.length_pos_iff, bigEndian_length]
    norm_num
  rw [Attester.PinsMatch, hX, hY, serviceKey, ← hx, ← hy]
  constructor
  · rintro (⟨hnil, -⟩ | ⟨hx', hy'⟩)
    · exact absurd hnil hne
    · exact ⟨hx'.symm, hy'.symm⟩
  · rintro ⟨hx', hy'⟩
    exact .inr ⟨hx'.symm, hy'.symm⟩

lemma completes_of_handshake (hsign : C.VerifySign) (hdecrypt : C.DecryptEncrypt)
    {v : State} {nonce : ℕ}
    (hanswer : p.answer (Msg0.layout.enc p.ga) = some (Msg1.layout.enc v.msgs.msg1, v))
    (h : Answered C p.ga (p.cmdEnv .handleMsg0).freshKey p.openEnv.freshKey nonce p.kdk p.opened v)
    (hfits : ∀ f : Field, f ≠ .localX ∧ f ≠ .localY → (f.coord v.msgs).Fits)
    (hpins : Attester.PinsMatch (bigEndian 32 p.serviceKey.x) (bigEndian 32 p.serviceKey.y)
      v.msgs.msg1) : p.Completes := by
  have hkey : (⟨ofBigEndian v.msgs.msg1.ecdsaVerifierPublicKeyX.bytes,
      ofBigEndian v.msgs.msg1.ecdsaVerifierPublicKeyY.bytes⟩ : Point)
        = C.publicKey p.openEnv.freshKey := by
    obtain ⟨hX, hY⟩ := p.ecdsa_eq h
    rw [hX, hY, serviceKey, Coord.ofBigEndian_store_bytes _ (C.publicKey_lt _).1,
      Coord.ofBigEndian_store_bytes _ (C.publicKey_lt _).2]
  have henv : Env.AllOk { p.handshakeEnv with
      inbox := (p.msg1Pieces (Msg1.layout.enc v.msgs.msg1)).map .ok } := p.handshake_ok
  obtain ⟨a₁, ha1, hmsgs, hmac, hsession⟩ := exists_handshake hsign henv h hfits hkey rfl rfl
    (p.msg1_delivered _ (Msg1.layout.enc_length _)) hpins
  -- the quote of the service for the anchor of this session
  have hquote : Attester.raQuoteCollect C p.collectEnv p.ptaEnv p.attestationKey p.claimHash
      (C.sha256 (keyBytes v.msgs anchorFields)) 32 p.quoteState
        = .ok () ⟨.opened, Pta.signedQuote C p.attestationKey p.ptaEnv.nonce p.claimHash.toList
          (C.sha256 (keyBytes v.msgs anchorFields))⟩ :=
    Attester.raQuoteCollect_eq_ok.mpr ⟨fun _ => p.collect_ok.ok _ _, p.session_ne,
      p.collect_ok.ok _ _, Pta.generateQuote_eq_ok.mpr ⟨le_rfl, fun _ => p.pta_ok.ok _ _,
        p.pta_ok.ok _ _, p.pta_ok.ok _ _, rfl⟩, rfl⟩
  have hmsg0 : a₁.msgs.msg0 = p.ga := by
    rw [hmsgs]
    exact h.ga_eq
  obtain ⟨m, a₂, ha2, hm, hsent, hmac2, hsession2⟩ := exists_quoteMessage p.send_ok
    (by rw [hmsg0]; exact Coord.store_fits ..) (by rw [hmsg0]; exact Coord.store_fits ..) hmac
    (Pta.signedQuote C p.attestationKey p.ptaEnv.nonce p.claimHash.toList
      (C.sha256 (keyBytes v.msgs anchorFields)))
  rw [hmsg0, ← Msg2.layout.dec_enc m] at hm
  obtain ⟨v₃, hv3, hmac3, hsession3⟩ := exists_accepted hsign (p.cmd_ok .handleMsg2) h hfits rfl
    (Msg2.layout.enc_length m).ge hm
  have hroom := p.msg3_room
  have hdata := p.data_room
  have hlt := p.dataSize_lt
  obtain ⟨msg3, hmsg3⟩ : ∃ msg3, msg3Image C (C.cmac p.kdk SharedKey.session.data)
      (p.cmdEnv .prepareMsg3).random p.secret ++ p.msg3Buffer.drop (52 + p.secret.length) = msg3 :=
    ⟨_, rfl⟩
  have hv4 : prepareMsg3 C (p.cmdEnv .prepareMsg3) p.msg3Buffer p.secret v₃
      = .ok msg3 { v₃ with ctx.msg3Size := 52 } :=
    prepareMsg3_eq_ok.mpr ⟨by omega, callsOk_of_allOk (p.cmd_ok .prepareMsg3) _, _,
      hsession3.trans h.sessionKey_eq, hmsg3, rfl⟩
  have hlen : msg3.length ≤ 52 + p.dataSize + 16 := by
    rw [← hmsg3, List.length_append, msg3Image_length, List.length_drop]
    omega
  have hrecv := p.msg3_delivered msg3 hlen
  rw [← Nat.mod_eq_of_lt hlt] at hrecv
  have henv3 : Env.AllOk { p.receiveEnv with inbox := (p.msg3Pieces msg3).map .ok } :=
    p.receive_ok
  have ha3 := raNetReceiveData_msg3Image hdecrypt henv3 (hsession2.trans hsession)
    hdata (by omega) (hrecv.trans (congrArg Except.ok hmsg3.symm)) p.rest
  rw [hmsg3] at ha3
  refine ⟨⟨p.secret, a₂.withMsg3 msg3, { v₃ with ctx.msg3Size := 52 }⟩, ?_, rfl, _, _,
    hmac2.trans hmac, hmac3.trans h.macKey_eq, hsession2.trans hsession,
    hsession3.trans h.sessionKey_eq⟩
  have hr2 : result? (p.handshake (p.msg1Pieces (Msg1.layout.enc v.msgs.msg1))) = some (_, a₁) :=
    result?_eq_some.mpr ha1
  have hr3 : p.prove (C.sha256 (keyBytes v.msgs anchorFields))
      a₁ = some (Msg2.layout.enc m, a₂) := by
    simp only [prove, Option.bind_eq_bind, result?_eq_some.mpr hquote, Option.bind_some,
      result?_eq_some.mpr ha2, hsent, List.getLast?_concat, Option.pure_def]
  have hr4 : p.release (Msg2.layout.enc m) v = some (msg3, { v₃ with ctx.msg3Size := 52 }) := by
    simp only [release, Option.bind_eq_bind, result?_eq_some.mpr hv3, Option.bind_some,
      result?_eq_some.mpr hv4]
  simp only [run, Option.bind_eq_bind, p.getLast_sent, Option.bind_some, hanswer, hr2, hr3, hr4,
    result?_eq_some.mpr ha3, Option.pure_def]

/-- An honest run completes, with the same keys on both sides and the secret at the attester,
exactly if no coordinate of the verifier's signature key has leading zero bytes (a coordinate that
is zero apart). -/
theorem completes_iff (hsign : C.VerifySign) (hecdh : C.EcdhComm) (hdecrypt : C.DecryptEncrypt)
    (p : Parties C) :
    p.Completes ↔ Unpadded p.serviceKey.x ∧ Unpadded p.serviceKey.y := by
  obtain ⟨v, hanswer, hans, hfits⟩ := p.exists_answer hecdh
  rw [← p.pinsMatch_iff hans]
  constructor
  · rintro ⟨o, hrun, -⟩
    simp only [run, Option.bind_eq_bind, p.getLast_sent, Option.bind_some, hanswer,
      Option.bind_eq_some_iff] at hrun
    obtain ⟨r, hr, -⟩ := hrun
    obtain ⟨-, -, image, key, peer, hchecks, -⟩ :=
      Attester.raNetHandshake_eq_ok.mp (result?_eq_some.mp hr)
    have himage : Except.ok image = Except.ok (Msg1.layout.enc v.msgs.msg1) :=
      hchecks.received.symm.trans (p.msg1_delivered _ (Msg1.layout.enc_length _))
    obtain rfl := Except.ok.inj himage
    have hpins := hchecks.pins
    rw [answered_msgs hans rfl] at hpins
    exact hpins
  · exact p.completes_of_handshake hsign hdecrypt hanswer hans hfits

lemma receive_one {msg : List UInt8} {chunkSize dataSize : ℕ} (hchunk : msg.length ≤ chunkSize) :
    0 < chunkSize → 0 < dataSize →
      Attester.receiveSocketPerChunk ([msg].map .ok) chunkSize dataSize [] = .ok msg := by
  intro hpos hsize
  simp [Attester.receiveSocketPerChunk, hpos, hsize, List.take_of_length_le hchunk]

/-- Parties for concrete runs, the verifier having the given signature key. -/
def sample (e : ℕ) : Parties Crypto.sample where
  attestationKey := ⟨5, Bytes.zero 65⟩
  claimHash := Bytes.zero 32
  secret := [42]
  dataSize := 1
  rest := []
  msg1BufferSize := 224
  msg3Buffer := List.replicate 69 0
  openEnv := Env.calm _ e
  cmdEnv _ := Env.calm _ 8
  handshakeEnv := Env.calm _ 7
  collectEnv := Env.calm _ 0
  sendEnv := Env.calm _ 0
  receiveEnv := Env.calm _ 0
  ptaEnv := Env.calm _ 0
  attester := Attester.State.zero
  quoteState := ⟨.null, Quote.zero⟩
  msg1Pieces msg := [msg]
  msg3Pieces msg := [msg]
  open_ok := Env.calm_allOk _ _
  cmd_ok _ := Env.calm_allOk _ _
  handshake_ok := Env.calm_allOk _ _
  collect_ok := Env.calm_allOk _ _
  send_ok := Env.calm_allOk _ _
  receive_ok := Env.calm_allOk _ _
  pta_ok := Env.calm_allOk _ _
  msg1_room := le_rfl
  msg3_room := rfl
  data_room := le_rfl
  dataSize_lt := by norm_num
  session_ne := by decide
  msg1_delivered _ hmsg := receive_one hmsg.le (by norm_num) (by norm_num)
  msg3_delivered _ hmsg := receive_one (by omega) (by norm_num) (by norm_num)

/-- The hypotheses are met, and a verifier whose key fills 32 bytes gives its secret away. -/
theorem completes_sample : (sample (256 ^ 31)).Completes :=
  (completes_iff Crypto.sample_verifySign Crypto.sample_ecdhComm Crypto.sample_decryptEncrypt _).mpr
    ⟨.inr (by decide +kernel), .inr (by decide +kernel)⟩

/-- With a short key the attester turns down the honest verifier. -/
theorem not_completes_short_key : ¬ (sample 9).Completes := by
  rintro ⟨o, hrun, -⟩
  have hnone : (sample 9).run.isSome = false := by decide +kernel
  simp [hrun] at hnone

end Parties

end Watz.Protocol
