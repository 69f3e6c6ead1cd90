import Watz.Verifier.Session

/-!
# What each command leaves unchanged

The verdict on a quote is about a part of the context: the MAC key, the attestation key, the
coordinates and `msg2`.  Only `handle_msg0` and `handle_msg2` touch that part, however they end.
-/

namespace Watz.Verifier

open Lib

/-! ## The part of the context the verdict is about -/

/-- The keys, the flag, the coordinates and `msg2`. -/
structure View where
  macKey : Obj (Bytes 16)
  attestationKey : Obj Point
  isQuoteValid : Bool
  coord : Field → Coord
  msg2 : Msg2

def State.view (s : State) : View where
  macKey := s.ctx.ecdhSharedMacKey
  attestationKey := s.ctx.ecdsaAttesterPublicKeyHandle
  isQuoteValid := s.ctx.isQuoteValid
  coord f := f.coord s.msgs
  msg2 := s.msgs.msg2

lemma view_withTags (s : State) (signature : Bytes 64) (mac : Bytes 16) :
    State.view { s with msgs.msg1.ecdhSignature := signature, msgs.msg1.mac := mac } = s.view := by
  have hcoord : ∀ f : Field, f.coord { s.msgs with
      msg1.ecdhSignature := signature, msg1.mac := mac } = f.coord s.msgs := by
    intro f
    cases f <;> rfl
  simp only [State.view, hcoord]

/-! ## What each function may change

The hypotheses about the property `I` name the changes that the function can make, whatever its
calls return. -/

section

variable {C : Crypto} {env : Env Fn} {I : State → Prop}

variable {attestationKey : Point} {buffer : List UInt8}

lemma keeps_importAttesterAttestationKey
    (hattestation : ∀ s h, h = .blank ∨ h = .key attestationKey → I s →
      I { s with ctx.ecdsaAttesterPublicKeyHandle := h }) :
    Keeps I (importAttesterAttestationKey env attestationKey) := by
  refine Keeps.bind keeps_tee fun _ => ?_
  refine Keeps.bind (Keeps.modify fun _ hs => hattestation _ _ (.inl rfl) hs) fun _ => ?_
  exact Keeps.bind keeps_tee fun _ => Keeps.modify fun _ hs => hattestation _ _ (.inr rfl) hs

lemma keeps_generateEcdsaKeypair
    (hlocal : ∀ s h, I s → I { s with ctx.ecdsaLocalKeypairHandle := h })
    (hecdsa : ∀ s x y, I s → I { s with
      msgs.msg1.ecdsaVerifierPublicKeyX := x, msgs.msg1.ecdsaVerifierPublicKeyY := y }) :
    Keeps I (generateEcdsaKeypair C env) := by
  refine Keeps.bind keeps_tee fun _ => ?_
  refine Keeps.bind (Keeps.modify fun _ hs => hlocal _ _ hs) fun _ => ?_
  refine Keeps.bind keeps_tee fun _ => ?_
  refine Keeps.bind (Keeps.modify fun _ hs => hlocal _ _ hs) fun _ => ?_
  refine Keeps.bind (Keeps.modify fun _ hs => hecdsa _ _ _ hs) fun _ => ?_
  refine Keeps.bind keeps_tee fun _ => ?_
  refine Keeps.bind (Keeps.modify fun s hs => hecdsa s _ _ hs) fun _ => ?_
  exact Keeps.bind keeps_tee fun _ => Keeps.modify fun s hs => hecdsa s _ _ hs

lemma keeps_taOpenSessionEntryPoint {paramTypes : ParamTypes}
    (hattestation : ∀ s h, h = .blank ∨ h = .key attestationKey → I s →
      I { s with ctx.ecdsaAttesterPublicKeyHandle := h })
    (hlocal : ∀ s h, I s → I { s with ctx.ecdsaLocalKeypairHandle := h })
    (hecdsa : ∀ s x y, I s → I { s with
      msgs.msg1.ecdsaVerifierPublicKeyX := x, msgs.msg1.ecdsaVerifierPublicKeyY := y }) :
    Keeps I (taOpenSessionEntryPoint C env attestationKey paramTypes) :=
  Keeps.bind (Keeps.failIf _) fun _ =>
    Keeps.bind (keeps_importAttesterAttestationKey hattestation) fun _ =>
      keeps_generateEcdsaKeypair hlocal hecdsa

lemma keeps_taConfigureCustomSecret (h : ∀ s b, I s → I { s with ctx.secret := b })
    (secret : List UInt8) : Keeps I (taConfigureCustomSecret env secret) :=
  Keeps.bind keeps_teeVoid fun _ => Keeps.modify fun _ hs => h _ _ hs

lemma keeps_generateEcdhKeypair
    (hlocal : ∀ s h, I s → I { s with ctx.ecdhLocalKeypairHandle := h })
    (hgv : ∀ s x y, x.Fits ∨ x = s.msgs.msg1.ecdhVerifierPublicKeyX →
      y.Fits ∨ y = s.msgs.msg1.ecdhVerifierPublicKeyY → I s → I { s with
        msgs.msg1.ecdhVerifierPublicKeyX := x, msgs.msg1.ecdhVerifierPublicKeyY := y }) :
    Keeps I (generateEcdhKeypair C env) := by
  refine Keeps.bind keeps_tee fun _ => ?_
  refine Keeps.bind (Keeps.modify fun _ hs => hlocal _ _ hs) fun _ => ?_
  refine Keeps.bind keeps_tee fun _ => ?_
  refine Keeps.bind (Keeps.modify fun _ hs => hlocal _ _ hs) fun _ => ?_
  refine Keeps.bind (Keeps.modify fun s hs => ?_) fun _ => Keeps.bind keeps_tee fun _ => ?_
  · exact hgv s _ _ (.inl (le_refl 32)) (.inl (le_refl 32)) hs
  refine Keeps.bind (Keeps.modify fun s hs => ?_) fun _ => Keeps.bind keeps_tee fun _ => ?_
  · exact hgv s _ _ (.inl (Coord.store_fits ..)) (.inr rfl) hs
  · exact Keeps.modify fun s hs => hgv s _ _ (.inr rfl) (.inl (Coord.store_fits ..)) hs

/-- The references to arrays that the context keeps. -/
def RaContextVerifier.refs (ctx : RaContextVerifier) : List (Option RefAttribute) :=
  [ctx.ecdhAttesterPublicKeyXAttr, ctx.ecdhAttesterPublicKeyYAttr]

/-- What `handle_msg0` does once it has a keypair. -/
lemma keeps_afterKeypair
    (hmsg0 : ∀ s, Msg0.layout.size ≤ buffer.length → I s →
      I { s with msgs.msg0 := Msg0.layout.dec buffer })
    (hattr : ∀ s, I s → I { s with
      ctx.ecdhAttesterPublicKeyXAttr :=
        some ⟨.attesterX, s.msgs.msg0.ecdhAttesterPublicKeyX.size.toNat⟩
      ctx.ecdhAttesterPublicKeyYAttr :=
        some ⟨.attesterY, s.msgs.msg0.ecdhAttesterPublicKeyY.size.toNat⟩ })
    (hctx : ∀ s ctx, ctx.ecdsaAttesterPublicKeyHandle = s.ctx.ecdsaAttesterPublicKeyHandle →
      ctx.isQuoteValid = s.ctx.isQuoteValid → ctx.refs = s.ctx.refs → I s →
      I { s with ctx := ctx })
    (href : ∀ s : State, I s → ∀ a ∈ s.ctx.refs, ∀ r, a = some r → ∀ t, I t →
      I (t.log [(r.buffer, r.length)])) :
    Keeps I (do
      storeMsg0 buffer
      populateAttesterKey env
      deriveSharedKey C env
      deriveSharedMacKey C env .mac
      deriveSharedMacKey C env .session) := by
  have hstore : Keeps I (storeMsg0 buffer) :=
    Keeps.failIf_bind fun hlen => Keeps.modify fun _ hs => hmsg0 _ (not_lt.mp hlen) hs
  have hpopulate : Keeps I (populateAttesterKey env) := by
    refine Keeps.bind (Keeps.modify hattr) fun _ => Keeps.bind keeps_tee fun _ => ?_
    refine Keeps.bind (Keeps.modify fun _ hs => hctx _ _ rfl rfl rfl hs) fun _ => ?_
    refine Keeps.get_bind fun s hs => ?_
    refine Keeps.bind (keeps_readAttribute (href s hs _ List.mem_cons_self)) fun _ => ?_
    refine Keeps.bind (keeps_readAttribute (href s hs _ (List.mem_of_getLast? rfl))) fun _ => ?_
    exact Keeps.bind keeps_tee fun _ => Keeps.modify fun _ hs => hctx _ _ rfl rfl rfl hs
  have hshared : Keeps I (deriveSharedKey C env) := by
    refine Keeps.get_bind fun s hs => ?_
    refine Keeps.bind (keeps_deriveSharedSecret (href s hs _ List.mem_cons_self)
      (href s hs _ (List.mem_of_getLast? rfl))) fun _ => ?_
    exact keeps_saveKey fun _ _ hs => hctx _ _ rfl rfl rfl hs
  have hmac : ∀ key, Keeps I (deriveSharedMacKey C env key) := by
    intro key
    refine Keeps.bind Keeps.get fun _ => Keeps.bind keeps_deriveLabel fun _ => ?_
    refine keeps_saveKey fun o s hs => ?_
    cases key <;> exact hctx _ _ rfl rfl rfl hs
  refine Keeps.bind hstore fun _ => Keeps.bind hpopulate fun _ => ?_
  exact Keeps.bind hshared fun _ => Keeps.bind (hmac _) fun _ => hmac _

lemma keeps_prepareMsg1
    (hread : ∀ f, f ≠ .localX → f ≠ .localY → ∀ s, I s → I (s.log [s.msgs.use f]))
    (htags : ∀ (s : State) signature mac, I s →
      I { s with msgs.msg1.ecdhSignature := signature, msgs.msg1.mac := mac })
    (bufferSize : ℕ) : Keeps I (prepareMsg1 C env bufferSize) := by
  have hsignature : Keeps I (appendEcdhPublicKeysSignature C env) := by
    refine Keeps.bind keeps_tee fun _ => Keeps.bind (keeps_updates fun f hf => ?_) fun _ => ?_
    · exact hread f (by rintro rfl; exact absurd hf (by decide))
        (by rintro rfl; exact absurd hf (by decide))
    refine Keeps.bind keeps_tee fun _ => Keeps.bind keeps_tee fun _ => ?_
    refine Keeps.bind Keeps.get fun _ => Keeps.bind keeps_content fun _ => ?_
    exact Keeps.bind keeps_tee fun _ => Keeps.modify fun s hs => htags s _ s.msgs.msg1.mac hs
  have hmac : Keeps I (appendMac C env) := by
    refine Keeps.bind keeps_tee fun _ => Keeps.bind Keeps.get fun _ => ?_
    refine Keeps.bind keeps_content fun _ => Keeps.bind (keeps_updates fun f hf => ?_) fun _ => ?_
    · exact hread f (by rintro rfl; exact absurd hf (by decide))
        (by rintro rfl; exact absurd hf (by decide))
    refine Keeps.bind keeps_tee fun _ => ?_
    exact Keeps.modify fun s hs => htags s s.msgs.msg1.ecdhSignature _ hs
  refine Keeps.bind (Keeps.failIf _) fun _ => Keeps.bind hsignature fun _ => ?_
  exact Keeps.bind hmac fun _ => Keeps.bind Keeps.get fun _ => Keeps.pure _

lemma keeps_storeMsg2
    (h : ∀ s, Msg2.layout.size ≤ buffer.length → I s →
      I { s with msgs.msg2 := Msg2.layout.dec buffer }) : Keeps I (storeMsg2 buffer) :=
  Keeps.failIf_bind fun hlen => Keeps.modify fun _ hs => h _ (not_lt.mp hlen) hs

section

variable (hread : ∀ (s : State) (f : Field), I s → ∀ g t, I t →
  I (t.log [(g, (f.coord s.msgs).size.toNat)]))

include hread

lemma keeps_verifyMacMsg2 : Keeps I (verifyMacMsg2 C env) := by
  refine Keeps.bind keeps_tee fun _ => Keeps.bind Keeps.get fun _ => ?_
  refine Keeps.bind keeps_content fun _ => ?_
  refine Keeps.bind (keeps_updates fun f _ s hs => hread s f hs f s hs) fun _ => ?_
  exact Keeps.bind keeps_tee fun _ => Keeps.failIf _

lemma keeps_verifyPublicKeyMsg2MatchesMsg0 : Keeps I (verifyPublicKeyMsg2MatchesMsg0 env) := by
  have hcompare : ∀ f g, Keeps I (compareFields env f g) := by
    intro f g
    refine Keeps.get_bind fun s hs => ?_
    refine Keeps.bind (keeps_readField (hread s f hs f)) fun _ => ?_
    exact Keeps.bind (keeps_readField (hread s f hs g)) fun _ => Keeps.failIf _
  exact Keeps.bind (hcompare _ _) fun _ => hcompare _ _

lemma keeps_verifyAnchor : Keeps I (verifyAnchor C env) := by
  refine Keeps.bind keeps_tee fun _ => ?_
  refine Keeps.bind (keeps_updates fun f _ s hs => hread s f hs f s hs) fun _ => ?_
  exact Keeps.bind keeps_tee fun _ => Keeps.bind Keeps.get fun _ => Keeps.failIf _

end

/-- Only the last step of `verify_quote_signature` changes the context. -/
lemma triple_verifyQuoteSignature {J : State → Prop} (h : ∀ s, I s → J (s.setQuoteValid true)) :
    Triple I (verifyQuoteSignature C env) (fun _ => J) I := by
  refine Triple.bind keeps_tee fun _ => Triple.bind Keeps.get fun _ => ?_
  refine Triple.bind keeps_tee fun _ => Triple.bind keeps_tee fun _ => ?_
  refine Triple.bind keeps_content fun _ => Triple.bind keeps_tee fun _ => ?_
  exact Triple.bind (Keeps.failIf _) fun _ => Triple.modify h

lemma keeps_handleMsg2 (hflag : ∀ s b, I s → I (s.setQuoteValid b))
    (hmsg2 : ∀ s, Msg2.layout.size ≤ buffer.length → I s →
      I { s with msgs.msg2 := Msg2.layout.dec buffer })
    (hread : ∀ (s : State) (f : Field), I s → ∀ g t, I t →
      I (t.log [(g, (f.coord s.msgs).size.toNat)])) :
    Keeps I (handleMsg2 C env buffer) := by
  refine Keeps.bind (Keeps.modify fun _ hs => hflag _ _ hs) fun _ => ?_
  refine Keeps.bind (keeps_storeMsg2 hmsg2) fun _ => ?_
  refine Keeps.bind (keeps_verifyMacMsg2 hread) fun _ => ?_
  refine Keeps.bind (keeps_verifyPublicKeyMsg2MatchesMsg0 hread) fun _ => ?_
  exact Keeps.bind (triple_verifyQuoteSignature fun _ hs => hflag _ _ hs) fun _ =>
    keeps_verifyAnchor hread

lemma keeps_prepareMsg3 (h : ∀ s n, I s → I { s with ctx.msg3Size := n })
    (buffer data : List UInt8) : Keeps I (prepareMsg3 C env buffer data) := by
  refine Keeps.bind ?_ fun _ => Keeps.bind ?_ fun _ => Keeps.pure _
  · refine Keeps.bind (Keeps.modify fun _ hs => h _ _ hs) fun _ => ?_
    exact Keeps.bind (Keeps.failIf _) fun _ => keeps_teeVoid
  · refine Keeps.bind keeps_teeVoid fun _ => Keeps.bind keeps_tee fun _ => ?_
    refine Keeps.bind Keeps.get fun _ => Keeps.bind keeps_content fun _ => ?_
    refine Keeps.bind keeps_tee fun _ => Keeps.bind (Keeps.failIf _) fun _ => ?_
    exact Keeps.bind keeps_tee fun _ => Keeps.pure _

end

section

variable {C : Crypto} {env : Env Fn} {v : View}

lemma keeps_view_prepareMsg1 (bufferSize : ℕ) :
    Keeps (fun s : State => s.view = v) (prepareMsg1 C env bufferSize) :=
  keeps_prepareMsg1 (fun _ _ _ _ hs => hs) (fun s _ _ hs => (view_withTags s _ _).trans hs)
    bufferSize

/-! ## Message 0 -/

/-- The sizes of the verifier's own ephemeral key stay within their arrays. -/
def VerifierFits (s : State) : Prop :=
  s.msgs.msg1.ecdhVerifierPublicKeyX.Fits ∧ s.msgs.msg1.ecdhVerifierPublicKeyY.Fits

/-- The flag is down and the key of the verifier fits. -/
def FlagDown (s : State) : Prop := s.ctx.isQuoteValid = false ∧ VerifierFits s

lemma keeps_flag_handleMsg0 {b : Bool} (buffer : List UInt8) :
    Keeps (fun s : State => s.ctx.isQuoteValid = b ∧ VerifierFits s)
      (handleMsg0 C env buffer) := by
  refine Keeps.bind (keeps_generateEcdhKeypair (fun _ _ hs => hs) fun s x y hx hy hs => ?_) fun _ =>
    keeps_afterKeypair (fun _ _ hs => hs) (fun _ hs => hs)
      (fun _ _ _ hflag _ hs => ⟨hflag.trans hs.1, hs.2⟩) (fun _ _ _ _ _ _ _ hs => hs)
  exact ⟨hs.1, hx.elim id fun h => h ▸ hs.2.1, hy.elim id fun h => h ▸ hs.2.2⟩

/-! ## Message 2 -/

lemma triple_checkQuote (buffer : List UInt8) :
    Triple VerifierFits (checkQuote C env buffer) (fun _ => VerifierFits) FlagDown := by
  refine Triple.bind (Q := fun _ => FlagDown) (Triple.modify fun s hs => ⟨rfl, hs⟩) fun _ => ?_
  refine Triple.bind (keeps_storeMsg2 fun _ _ hs => hs) fun _ => ?_
  refine Triple.bind (keeps_verifyMacMsg2 fun _ _ _ _ _ hs => hs) fun _ => ?_
  refine Triple.bind (keeps_verifyPublicKeyMsg2MatchesMsg0 fun _ _ _ _ _ hs => hs) fun _ => ?_
  exact triple_verifyQuoteSignature fun _ hs => hs.2

variable {s s' : State} {r : Request}

/-- However `handle_msg2` ends, the flag is down or the message has passed the first three checks;
in that case the context is the one in which the checks were made, with the flag up. -/
lemma final_handleMsg2 (hs : VerifierFits s) (buffer : List UInt8) :
    FlagDown (final (handleMsg2 C env buffer s))
      ∨ CallsOk Fn.sites env [.verifyMacMsg2, .verifyQuoteSignature]
        ∧ QuoteChecks C env.tail s buffer
        ∧ (final (handleMsg2 C env buffer s)).view
          = ((s.withMsg2 buffer).setQuoteValid true).view := by
  have hquote : Triple VerifierFits (checkQuote C env buffer) (fun _ => VerifierFits) FlagDown :=
    triple_checkQuote buffer
  rw [handleMsg2_eq_bind]
  cases h : checkQuote C env buffer s with
  | ok u t =>
    right
    rw [bind_of_ok h]
    obtain ⟨hcalls, hchecks, rfl⟩ := checkQuote_eq_ok.mp h
    exact ⟨hcalls, hchecks, (keeps_verifyAnchor (I := fun t => t.view = _) fun _ _ _ _ _ hs =>
      hs).final_of rfl⟩
  | error e t =>
    left
    rw [bind_of_error h]
    exact (hquote s hs).2 e t h

/-! ## One command -/

lemma verifierFits_of_view {t : State} (hs : VerifierFits s) (h : t.view = s.view) :
    VerifierFits t := by
  have hx : t.msgs.msg1.ecdhVerifierPublicKeyX = s.msgs.msg1.ecdhVerifierPublicKeyX :=
    congrFun (congrArg View.coord h) .verifierX
  have hy : t.msgs.msg1.ecdhVerifierPublicKeyY = s.msgs.msg1.ecdhVerifierPublicKeyY :=
    congrFun (congrArg View.coord h) .verifierY
  rw [VerifierFits, hx, hy]
  exact hs

/-- What a command does to the part of the context that the verdict is about. -/
inductive ViewStep (C : Crypto) (s : State) (r : Request) (s' : State) : Prop where
  | same (h : s'.view = s.view)
  | newSession (hid : r.cmdId = Cmd.handleMsg0.id)
      (hflag : s'.ctx.isQuoteValid = s.ctx.isQuoteValid) (hfits : VerifierFits s')
  | rejected (hid : r.cmdId = Cmd.handleMsg2.id) (hdown : FlagDown s')
  | checked (hid : r.cmdId = Cmd.handleMsg2.id) (htypes : r.paramTypes = Cmd.handleMsg2.paramTypes)
      (hcalls : CallsOk Fn.sites r.env [.verifyMacMsg2, .verifyQuoteSignature])
      (hchecks : QuoteChecks C r.env.tail s r.memref)
      (h : s'.view = ((s.withMsg2 r.memref).setQuoteValid true).view)

lemma viewStep_of_step (hs : VerifierFits s) (h : (step C (some s) r).2 = some s') :
    ViewStep C s r s' := by
  have hfinal := final_of_step h
  rcases taInvokeCommandEntryPoint_cases C r s with ⟨e, he⟩ | ⟨cmd, hid, htypes, hrun⟩
  · rw [he, final_error] at hfinal
    exact .same (congrArg State.view hfinal.symm)
  rw [hrun] at hfinal
  cases cmd with
  | bootstrapSecret =>
    refine .same ?_
    rw [← hfinal, runCmd, final_bind fun _ _ => rfl]
    exact (keeps_taConfigureCustomSecret (I := fun t => t.view = s.view) (fun _ _ hs => hs)
      r.memref).final_of rfl
  | handleMsg0 =>
    rw [runCmd, final_bind fun _ _ => rfl] at hfinal
    obtain ⟨hflag, hfits⟩ := (keeps_flag_handleMsg0 r.memref).final_of ⟨rfl, hs⟩
    exact .newSession hid (hfinal ▸ hflag) (hfinal ▸ hfits)
  | prepareMsg1 =>
    refine .same ?_
    rw [← hfinal, runCmd, final_bind fun _ _ => rfl]
    exact (keeps_view_prepareMsg1 r.memref.length).final_of rfl
  | handleMsg2 =>
    rw [runCmd, final_bind fun _ _ => rfl] at hfinal
    rcases final_handleMsg2 hs r.memref with hdown | ⟨hcalls, hchecks, hview⟩
    · exact .rejected hid (hfinal ▸ hdown)
    · exact .checked hid htypes hcalls hchecks (hfinal ▸ hview)
  | prepareMsg3 =>
    refine .same ?_
    have hget : runCmd C r .prepareMsg3 s
        = (prepareMsg3 C r.env r.memref s.ctx.secret >>= fun out => pure ⟨some out, none⟩) s := rfl
    rw [← hfinal, hget, final_bind fun _ _ => rfl]
    exact (keeps_prepareMsg3 (I := fun t => t.view = s.view) (fun _ _ hs => hs) r.memref
      s.ctx.secret).final_of rfl

lemma ViewStep.verifierFits (hs : VerifierFits s) (h : ViewStep C s r s') : VerifierFits s' := by
  cases h with
  | same h => exact verifierFits_of_view hs h
  | newSession _ _ hfits => exact hfits
  | rejected _ hdown => exact hdown.2
  | checked _ _ _ _ h => exact verifierFits_of_view (s := (s.withMsg2 r.memref).setQuoteValid true) hs h

end

end Watz.Verifier
