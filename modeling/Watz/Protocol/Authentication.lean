import Watz.Protocol.Preimages

/-!
# What a successful network step has authenticated

`ra_net_send_quote` on the attester, `prepare_msg1` and `prepare_msg3` on the verifier report
success for a message they have built.  This file asks whether the authentication in such a
message was made for it: the CMAC of `msg2`, the signature and the CMAC of `msg1`, the ciphertext
and the tag of `msg3`.

The two functions of the verifier pass every error on.  `prepare_msg2` jumps to its exit label
when a call for the CMAC fails and returns `TEE_SUCCESS` from there, so that the message goes out
with whatever its `mac` field held before.
-/

namespace Watz.Protocol

open Lib Attester

/-! ## Message 2 -/

section

variable {C : Crypto} {env : Env Fn} {quote : Quote} {s s' t : State}

/-- What `ra_net_send_quote` promises by reporting success: the `msg2` it has written to the
socket carries the CMAC of the public key and the quote in it, under the MAC key of the
context. -/
def SendsMac (C : Crypto) (env : Env Fn) (quote : Quote) (s : State) : Prop :=
  ∀ s', raNetSendQuote C env quote s = .ok () s' →
    ∃ k input, s.ctx.ecdhSharedMacKey = .key k
      ∧ msg2MacInput (s.withQuote quote).msgs env.tail = some input
      ∧ s'.ctx.sent = s.ctx.sent
          ++ [Msg2.layout.enc { (s.withQuote quote).msgs.msg2 with mac := C.cmac k input }]

/-- The first of the calls for the CMAC that does not succeed returns an error.  The last of them
is only reached if there is a key and the public key can be read. -/
def MacFails (env : Env Fn) (quote : Quote) (s : State) : Prop :=
  (∃ e, env.outcome ⟨.prepareMsg2, .allocateOperation, 0⟩ = some (.error e))
  ∨ env.outcome ⟨.prepareMsg2, .allocateOperation, 0⟩ = none
    ∧ ((∃ e, env.outcome ⟨.prepareMsg2, .setOperationKey, 0⟩ = some (.error e))
      ∨ env.outcome ⟨.prepareMsg2, .setOperationKey, 0⟩ = none
        ∧ (∃ k, s.ctx.ecdhSharedMacKey = .key k)
        ∧ (∃ input, msg2MacInput (s.withQuote quote).msgs env.tail = some input)
        ∧ ∃ e, env.outcome ⟨.prepareMsg2, .macComputeFinal, 0⟩ = some (.error e))

/-- The `mac` field of the context happens to hold the CMAC of the next message already. -/
def MacInPlace (C : Crypto) (env : Env Fn) (quote : Quote) (s : State) : Prop :=
  ∃ k input, s.ctx.ecdhSharedMacKey = .key k
    ∧ msg2MacInput (s.withQuote quote).msgs env.tail = some input
    ∧ s.msgs.msg2.mac = C.cmac k input

lemma msg2MacInput_withQuote {tail input : List UInt8} :
    msg2MacInput (s.withQuote quote).msgs tail = some input ↔
      ∃ x y, (s.withQuote quote).msgs.read tail .localX
            s.msgs.msg0.ecdhAttesterPublicKeyX.size.toNat = some x
        ∧ (s.withQuote quote).msgs.read tail .localY
            s.msgs.msg0.ecdhAttesterPublicKeyY.size.toNat = some y
        ∧ x ++ (y ++ Quote.layout.enc quote) = input := by
  have hx : (Field.localX.coord (s.withQuote quote).msgs).size
      = s.msgs.msg0.ecdhAttesterPublicKeyX.size := rfl
  have hy : (Field.localY.coord (s.withQuote quote).msgs).size
      = s.msgs.msg0.ecdhAttesterPublicKeyY.size := rfl
  have hquote : (s.withQuote quote).msgs.msg2.quote = quote := rfl
  simp only [msg2MacInput, msg2MacFields, Messages.concat, hx, hy, hquote, Option.map_eq_some_iff,
    Option.bind_eq_bind, Option.bind_eq_some_iff, Option.pure_def, Option.some.injEq]
  constructor
  · rintro ⟨_, ⟨x, hx, _, ⟨y, hy, _, rfl, rfl⟩, rfl⟩, rfl⟩
    exact ⟨x, y, hx, hy, by simp⟩
  · rintro ⟨x, y, hx, hy, rfl⟩
    exact ⟨_, ⟨x, hx, _, ⟨y, hy, [], rfl, rfl⟩, rfl⟩, by simp⟩

/-- A computation of the CMAC that fails leaves the message as it was. -/
lemma macMsg2_msg2_of_error {stop : Stop} (h : macMsg2 C env s = .error stop t) :
    t.msgs.msg2 = s.msgs.msg2 ∧ t.ctx = s.ctx := by
  -- every call before the last one only reads; the change comes after the last call that can fail
  have hprogram : Triple (fun t => t.msgs.msg2 = s.msgs.msg2 ∧ t.ctx = s.ctx)
      (macMsg2 C env) (fun _ _ => True)
      (fun t => t.msgs.msg2 = s.msgs.msg2 ∧ t.ctx = s.ctx) := by
    unfold macMsg2
    refine Triple.bind keeps_tee fun _ => Triple.bind Keeps.get fun _ => ?_
    refine Triple.bind keeps_content fun _ => ?_
    refine Triple.bind (keeps_readField fun _ hs => hs) fun _ => ?_
    refine Triple.bind (keeps_readField fun _ hs => hs) fun _ => ?_
    exact Triple.bind keeps_tee fun _ => Triple.modify fun _ _ => trivial
  exact (hprogram s ⟨rfl, rfl⟩).2 stop t h

lemma exists_macMsg2_error_iff :
    (∃ e t, macMsg2 C env (s.withQuote quote) = .error (.error e) t)
      ↔ MacFails env quote s := by
  have hget : ∀ {β : Type} (f : State → Prog β) (e : TeeError)
      (u t : State), (get >>= f) u = .error (.error e) t ↔ f u u = .error (.error e) t :=
    fun _ _ _ _ => Iff.rfl
  have hmodify : ∀ (f : State → State) (e : TeeError) (u t : State),
      (modify f : Prog PUnit) u ≠ .error (.error e) t := fun _ _ _ _ => nofun
  simp only [macMsg2, bind_eq_error, tee_eq_error, content_eq_error, tee_eq_ok, hget,
    content_eq_ok, readField_eq_ok, readField_ne_error, hmodify, MacFails, msg2MacInput_withQuote]
  constructor
  · rintro ⟨e, t, ⟨h1, -⟩ | ⟨_, _, ⟨h1, rfl⟩, ⟨h2, -⟩ | ⟨k, _, ⟨h2, hk, rfl⟩, h⟩⟩⟩
    · exact .inl ⟨e, h1⟩
    · exact .inr ⟨h1, .inl ⟨e, h2⟩⟩
    · obtain h | ⟨x, _, ⟨hx, rfl⟩, h | ⟨y, _, ⟨hy, rfl⟩, ⟨h3, -⟩ | ⟨_, _, -, h⟩⟩⟩ := h
      · exact h.elim
      · exact h.elim
      · exact .inr ⟨h1, .inr ⟨h2, ⟨k, hk⟩, ⟨_, x, y, hx, hy, rfl⟩, e, h3⟩⟩
      · exact h.elim
  · rintro (⟨e, h1⟩ | ⟨h1, ⟨e, h2⟩ | ⟨h2, ⟨k, hk⟩, ⟨_, x, y, hx, hy, -⟩, e, h3⟩⟩)
    · exact ⟨e, _, .inl ⟨h1, rfl⟩⟩
    · exact ⟨e, _, .inr ⟨(), _, ⟨h1, rfl⟩, .inl ⟨h2, rfl⟩⟩⟩
    · exact ⟨e, _, .inr ⟨(), _, ⟨h1, rfl⟩, .inr ⟨k, _, ⟨h2, hk, rfl⟩, .inr ⟨x, _, ⟨hx, rfl⟩,
        .inr ⟨y, _, ⟨hy, rfl⟩, .inl ⟨h3, rfl⟩⟩⟩⟩⟩⟩

/-- After a failure of the CMAC the message goes out with the old `mac` field. -/
lemma raNetSendQuote_of_macFails (hfails : MacFails env quote s)
    (hsend : env.Ok .sendMsg2 Fn.sendMsg2.sites) :
    ∃ s', raNetSendQuote C env quote s = .ok () s'
      ∧ s'.ctx.sent = s.ctx.sent ++ [Msg2.layout.enc (s.withQuote quote).msgs.msg2] := by
  obtain ⟨e, t, hmac⟩ := (exists_macMsg2_error_iff (C := C)).mpr hfails
  obtain ⟨hmsg2, hctx⟩ := macMsg2_msg2_of_error hmac
  have hprepare : prepareMsg2 C env quote s = .ok () t := by
    rw [prepareMsg2, modify_bind_eq_ok]
    show ignoreError (macMsg2 C env) (s.withQuote quote) = _
    rw [ignoreError, hmac]
  refine ⟨t.withSent (Msg2.layout.enc t.msgs.msg2), ?_, ?_⟩
  · rw [raNetSendQuote, bind_of_ok hprepare]
    exact sendMsg2_eq_ok.mpr ⟨hsend, rfl⟩
  · show t.ctx.sent ++ [Msg2.layout.enc t.msgs.msg2] = _
    rw [hmsg2, hctx]
    rfl

/-- A success of `ra_net_send_quote` comes after the CMAC has been computed or has failed. -/
lemma raNetSendQuote_cases (h : raNetSendQuote C env quote s = .ok () s') :
    env.Ok .sendMsg2 Fn.sendMsg2.sites
      ∧ ((∃ k input, s.ctx.ecdhSharedMacKey = .key k
          ∧ msg2MacInput (s.withQuote quote).msgs env.tail = some input
          ∧ s'.ctx.sent = s.ctx.sent
              ++ [Msg2.layout.enc { (s.withQuote quote).msgs.msg2 with mac := C.cmac k input }])
        ∨ MacFails env quote s
          ∧ s'.ctx.sent = s.ctx.sent ++ [Msg2.layout.enc (s.withQuote quote).msgs.msg2]) := by
  obtain ⟨_, t, hprepare, hsend⟩ := bind_eq_ok.mp h
  obtain ⟨hok, rfl⟩ := sendMsg2_eq_ok.mp hsend
  refine ⟨hok, ?_⟩
  rw [prepareMsg2, modify_bind_eq_ok] at hprepare
  change ignoreError (macMsg2 C env) (s.withQuote quote) = _ at hprepare
  cases hmac : macMsg2 C env (s.withQuote quote) with
  | ok u t' =>
    rw [ignoreError, hmac] at hprepare
    cases hprepare
    obtain ⟨-, k, x, y, hk, hx, hy, rfl⟩ := macMsg2_eq_ok.mp hmac
    exact .inl ⟨k, _, hk, msg2MacInput_withQuote.mpr ⟨x, y, hx, hy, rfl⟩, rfl⟩
  | error stop t' =>
    cases stop with
    | error e =>
      have hfails : MacFails env quote s := exists_macMsg2_error_iff.mp ⟨e, t', hmac⟩
      obtain ⟨s'', hok', hsent⟩ := raNetSendQuote_of_macFails (C := C) hfails hok
      cases h.symm.trans hok'
      exact .inr ⟨hfails, hsent⟩
    | panic =>
      rw [ignoreError, hmac] at hprepare
      cases hprepare

/-- The promise of `ra_net_send_quote` is broken exactly by a call for the CMAC that returns an
error, when the message can still be sent and its `mac` field is not the right one by accident. -/
lemma sendsMac_iff :
    SendsMac C env quote s ↔
      ¬ (MacFails env quote s ∧ env.Ok .sendMsg2 Fn.sendMsg2.sites
        ∧ ¬ MacInPlace C env quote s) := by
  constructor
  · rintro hsends ⟨hfails, hsend, hplace⟩
    obtain ⟨s', hok, hsent⟩ := raNetSendQuote_of_macFails (C := C) hfails hsend
    obtain ⟨k, input, hk, hinput, hsent'⟩ := hsends s' hok
    -- the two descriptions of what was sent agree on the `mac` field
    have henc := List.singleton_injective (List.append_cancel_left (hsent.symm.trans hsent'))
    exact hplace ⟨k, input, hk, hinput, congrArg Msg2.mac (Msg2.layout.enc_inj henc)⟩
  · intro hcond s' h
    obtain ⟨hsend, hdone | ⟨hfails, hsent⟩⟩ := raNetSendQuote_cases h
    · exact hdone
    · obtain ⟨k, input, hk, hinput, hmac⟩ : MacInPlace C env quote s := by
        by_contra hplace
        exact hcond ⟨hfails, hsend, hplace⟩
      refine ⟨k, input, hk, hinput, ?_⟩
      rw [hsent, ← hmac]
      rfl

end

/-! ## Messages 1 and 3 -/

/-- What `prepare_msg1` promises by reporting success: all its calls have succeeded, and the
output is a `msg1` with the signature and the CMAC they computed over the keys in it. -/
def PreparesMsg1 (C : Crypto) (env : Env Verifier.Fn) (bufferSize : ℕ) (s : Verifier.State) :
    Prop :=
  ∀ out s', Verifier.prepareMsg1 C env bufferSize s = .ok out s' →
    CallsOk Verifier.Fn.sites env [.appendEcdhPublicKeysSignature, .appendMac]
      ∧ ∃ d k signed maced signature, s.ctx.ecdsaLocalKeypairHandle = .key d
        ∧ s.ctx.ecdhSharedMacKey = .key k
        ∧ s.msgs.concat env.tail signatureFields = some signed
        ∧ signature = C.sign d env.nonce (C.sha256 signed)
        ∧ (s.withSignature signature).msgs.concat env.tail msg1MacFields = some maced
        ∧ out = Msg1.layout.enc ((s.withSignature signature).withMac
            (C.cmac k (maced ++ signature.toList))).msgs.msg1

/-- What `prepare_msg3` promises by reporting success: all its calls have succeeded, and the
output begins with the ciphertext of the data under the session key and a fresh initialisation
vector, and the tag of that encryption. -/
def PreparesMsg3 (C : Crypto) (env : Env Verifier.Fn) (buffer data : List UInt8)
    (s : Verifier.State) : Prop :=
  ∀ out s', Verifier.prepareMsg3 C env buffer data s = .ok out s' →
    CallsOk Verifier.Fn.sites env [.allocateMsg3, .encryptMsg3]
      ∧ ∃ k, s.ctx.ecdhSharedSessionKey = .key k
        ∧ Verifier.msg3Image C k env.random data <+: out

lemma preparesMsg1 (C : Crypto) (env : Env Verifier.Fn) (bufferSize : ℕ) (s : Verifier.State) :
    PreparesMsg1 C env bufferSize s := by
  intro out s' h
  obtain ⟨-, hcalls, signed, d, k, maced, hsigned, hd, hk, hmaced, rfl, -⟩ :=
    Verifier.prepareMsg1_eq_ok.mp h
  exact ⟨hcalls, d, k, signed, maced, _, hd, hk, hsigned, rfl, hmaced, rfl⟩

lemma preparesMsg3 (C : Crypto) (env : Env Verifier.Fn) (buffer data : List UInt8)
    (s : Verifier.State) : PreparesMsg3 C env buffer data s := by
  intro out s' h
  obtain ⟨-, hcalls, k, hk, rfl, -⟩ := Verifier.prepareMsg3_eq_ok.mp h
  exact ⟨hcalls, k, hk, List.prefix_append _ _⟩

/-! ## The three steps together -/

/-- Success is only reported for authenticated messages, unless the attester sends a `msg2` after
a call for its CMAC has returned an error. -/
theorem authenticated_on_success_iff (C : Crypto) (env : Env Fn) (quote : Quote)
    (s : State) (env' : Env Verifier.Fn) (bufferSize : ℕ) (buffer data : List UInt8)
    (s₁ s₃ : Verifier.State) :
    (SendsMac C env quote s ∧ PreparesMsg1 C env' bufferSize s₁
        ∧ PreparesMsg3 C env' buffer data s₃) ↔
      ¬ (MacFails env quote s ∧ env.Ok .sendMsg2 Fn.sendMsg2.sites
        ∧ ¬ MacInPlace C env quote s) := by
  constructor
  · rintro ⟨hsends, -, -⟩
    exact sendsMac_iff.mp hsends
  · intro hcond
    exact ⟨sendsMac_iff.mpr hcond, preparesMsg1 C env' bufferSize s₁,
      preparesMsg3 C env' buffer data s₃⟩

/-- An attester with a MAC key whose next computation of a CMAC fails at its last call. -/
def keyedState : State :=
  { State.zero with
    ctx := { State.zero.ctx with ecdhSharedMacKey := .key (Bytes.slice 16 [1]) } }

/-- All calls succeed, except for `TEE_MACComputeFinal` in `prepare_msg2`. -/
def failingMac : Env Fn :=
  { Env.calm Fn 0 with
    outcome := fun site =>
      if site = ⟨.prepareMsg2, .macComputeFinal, 0⟩ then some (.error .generic) else none }

/-- The attester sends a `msg2` whose `mac` field is zero and reports success. -/
theorem sends_without_mac :
    ¬ SendsMac Crypto.sample failingMac Quote.zero keyedState := by
  intro hsends
  refine sendsMac_iff.mp hsends ⟨?_, ?_, ?_⟩
  · have hinput : (msg2MacInput (keyedState.withQuote Quote.zero).msgs failingMac.tail).isSome := by
      decide +kernel
    exact .inr ⟨rfl, .inr ⟨rfl, ⟨_, rfl⟩, Option.isSome_iff_exists.mp hinput, .generic, rfl⟩⟩
  · intro site hsite
    obtain rfl := List.mem_singleton.mp hsite
    rfl
  · rintro ⟨k, _, hk, -, hmac⟩
    cases hk
    have hlist : (Bytes.zero 16).toList = (Bytes.slice 16 [1]).toList := congrArg Bytes.toList hmac
    exact absurd hlist (by decide)

end Watz.Protocol
