import Watz.Verifier.Frame

/-!
# The verdict on a quote and the release of the secret

`handle_msg2` records in `is_quote_valid` that it has accepted a quote.  The flag goes up before
the anchor is checked, no command but `handle_msg2` takes it down, and `prepare_msg3` does not
ask for it.  This file shows what that amounts to over whole sessions: the secret leaves the
verifier without any quote, and the flag can be up although the stored messages do not pass the
checks.  Both properties hold along the sessions in which the client makes up for it.
-/

namespace Watz.Verifier

open Lib

/-! ## Conditions on the commands of a session -/

/-- A command that releases the secret comes while the flag is up. -/
def ReleaseAfterVerdict (st : Option State) (r : Request) : Prop :=
  r.cmdId = Cmd.prepareMsg3.id → ∀ s ∈ st, s.ctx.isQuoteValid = true

/-- A command that starts a new session comes while the flag is down, also one that is then
rejected for its parameter types. -/
def RestartWithoutVerdict (st : Option State) (r : Request) : Prop :=
  r.cmdId = Cmd.handleMsg0.id → ∀ s ∈ st, s.ctx.isQuoteValid = false

/-- A quote that passes the first three checks also passes the check of its anchor. -/
def AnchorFollows (C : Crypto) (st : Option State) (r : Request) : Prop :=
  r.cmdId = Cmd.handleMsg2.id → ∀ s ∈ st, QuoteChecks C r.env.tail s r.memref →
    AnchorOk C r.env.tail (s.withMsg2 r.memref)
      ∧ r.env.Ok .verifyAnchor Fn.verifyAnchor.sites

/-- The sizes in `msg0` and in an arriving `msg2` stay within their arrays. -/
def SizesFit (st : Option State) (r : Request) : Prop :=
  r.cmdId = Cmd.handleMsg2.id → ∀ s ∈ st,
    ∀ f ∈ [Field.attesterX, .attesterY, .localX, .localY],
      (f.coord (s.withMsg2 r.memref).msgs).Fits

instance (st : Option State) (r : Request) : Decidable (ReleaseAfterVerdict st r) :=
  inferInstanceAs (Decidable (_ → _))

instance (st : Option State) (r : Request) : Decidable (RestartWithoutVerdict st r) :=
  inferInstanceAs (Decidable (_ → _))

instance (C : Crypto) (st : Option State) (r : Request) : Decidable (AnchorFollows C st r) :=
  inferInstanceAs (Decidable (_ → _))

instance (st : Option State) (r : Request) : Decidable (SizesFit st r) :=
  inferInstanceAs (Decidable (_ → _))

section

variable {C : Crypto} {attestationKey : Point} {s : State}

/-! ## Every state of a session -/

lemma Opened.flagDown (h : Opened C attestationKey s) : FlagDown s := by
  obtain ⟨env, paramTypes, hopen⟩ := h
  have hkeeps : Keeps FlagDown (taOpenSessionEntryPoint C env attestationKey paramTypes) :=
    keeps_taOpenSessionEntryPoint (fun _ _ _ hs => hs) (fun _ _ hs => hs) (fun _ _ _ hs => hs)
  have hfits : VerifierFits State.zero := ⟨Nat.zero_le 32, Nat.zero_le 32⟩
  exact (hkeeps State.zero ⟨rfl, hfits⟩).1 () s hopen

/-- The key the verifier exports fits its arrays in every state of a session. -/
lemma verifierFits_of_mem_session (h : Opened C attestationKey s) {rs : List Request} :
    ∀ e ∈ session C s rs, ∀ t ∈ e.before, VerifierFits t := by
  have hstep : ∀ (st : Option State) (r : Request), (∀ t ∈ st, VerifierFits t) → True →
      ∀ t ∈ (step C st r).2, VerifierFits t := by
    intro st r hst _ t ht
    cases st with
    | none => simp [step_none] at ht
    | some t₀ => exact (viewStep_of_step (hst t₀ rfl) ht).verifierFits (hst t₀ rfl)
  have hinit : ∀ t ∈ some s, VerifierFits t := by
    rintro t ht
    obtain rfl := Option.mem_some.mp ht
    exact h.flagDown.2
  exact invariant_before hstep hinit fun _ _ => trivial

/-! ## The release of the secret -/

lemma step_handleMsg2_of_checks {r : Request} (hid : r.cmdId = Cmd.handleMsg2.id)
    (htypes : r.paramTypes = Cmd.handleMsg2.paramTypes)
    (hcalls : CallsOk Fn.sites r.env [.verifyMacMsg2, .verifyQuoteSignature, .verifyAnchor])
    (hchecks : QuoteChecks C r.env.tail s r.memref)
    (hanchor : AnchorOk C r.env.tail (s.withMsg2 r.memref)) :
    ∃ out, (step C (some s) r).1 = .ok out := by
  have hok := (handleMsg2_eq_ok (u := ())).mpr ⟨hcalls, hchecks, hanchor, rfl⟩
  have hrun : ∃ out t, runCmd C r .handleMsg2 s = .ok out t := ⟨_, _, bind_of_ok hok⟩
  obtain ⟨out, t, hrun⟩ := hrun
  rw [← taInvokeCommandEntryPoint_eq_runCmd hid htypes] at hrun
  exact ⟨out, by rw [step_of_ok hrun]⟩

/-- In a session whose commands heed the flag, every release of the secret has an accepted quote
since the last `msg0`. -/
theorem release_guarded_of_verdict (C : Crypto) (attestationKey : Point) (s : State)
    (hopen : Opened C attestationKey s) (rs : List Request)
    (hcmds : ∀ e ∈ session C s rs, ReleaseAfterVerdict e.before e.input
      ∧ RestartWithoutVerdict e.before e.input ∧ AnchorFollows C e.before e.input) :
    Guarded (Event.Succeeds · .prepareMsg3) (Event.IsCmd · .handleMsg0)
      (Event.Succeeds · .handleMsg2) (session C s rs) := by
  refine guarded_of_flag (fun st => ∃ t ∈ st, t.ctx.isQuoteValid = true) ?_ ?_ ?_
  · rintro ⟨t, ht, hflag⟩
    obtain rfl := Option.mem_some.mp ht
    rw [hopen.flagDown.1] at hflag
    exact absurd hflag (by simp)
  · rintro e he ⟨t, ht, hflag⟩
    obtain ⟨-, hrestart, hanchor⟩ := hcmds e he
    have hfits := verifierFits_of_mem_session hopen e he
    have hout := output_of_mem_history he
    cases hbefore : e.before with
    | none => simp [hbefore, step_none] at ht
    | some t₀ =>
      rw [hbefore] at ht hrestart hanchor hfits hout
      have hnot : t₀.ctx.isQuoteValid = true → ¬ Event.IsCmd e .handleMsg0 := by
        intro htrue hcmd
        rw [hrestart hcmd t₀ rfl] at htrue
        exact absurd htrue (by simp)
      cases viewStep_of_step (hfits t₀ rfl) ht with
      | same h =>
        have hflag0 : t₀.ctx.isQuoteValid = true := (congrArg View.isQuoteValid h).symm.trans hflag
        exact .inr ⟨⟨t₀, rfl, hflag0⟩, hnot hflag0⟩
      | newSession hid hsame _ => exact absurd hid (hnot (hsame.symm.trans hflag))
      | rejected _ hdown =>
        rw [hdown.1] at hflag
        exact absurd hflag (by simp)
      | checked hid htypes hcalls hchecks _ =>
        obtain ⟨hanchorOk, hcall⟩ := hanchor hid t₀ rfl hchecks
        have hall : CallsOk Fn.sites e.input.env
            [.verifyMacMsg2, .verifyQuoteSignature, .verifyAnchor] := by
          simp only [callsOk_cons, callsOk_nil] at hcalls ⊢
          exact ⟨hcalls.1, hcalls.2.1, hcall, trivial⟩
        exact .inl ⟨hid, hout ▸ step_handleMsg2_of_checks hid htypes hall hchecks hanchorOk⟩
  · rintro e he ⟨hid, out, hout⟩
    cases hbefore : e.before with
    | none =>
      rw [output_of_mem_history he, hbefore, step_none] at hout
      exact absurd hout (by simp)
    | some t₀ => exact ⟨t₀, rfl, (hcmds e he).1 hid t₀ hbefore⟩

/-- Nothing in the code prevents a release after commands none of which is a `msg2`. -/
lemma not_guarded_of_release {rs : List Request} {r : Request}
    (hid : r.cmdId = Cmd.prepareMsg3.id)
    (hout : ∃ out, (step C (finalState (step C) (some s) rs) r).1 = .ok out)
    (hrs : ∀ r ∈ rs, r.cmdId ≠ Cmd.handleMsg2.id) :
    ¬ Guarded (Event.Succeeds · .prepareMsg3) (Event.IsCmd · .handleMsg0)
      (Event.Succeeds · .handleMsg2) (session C s (rs ++ [r])) := by
  intro hguard
  obtain ⟨pre, e, post, hsplit, ⟨hmsg2, -⟩, -⟩ :=
    hguard _ _ [] (history_concat (some s) rs r) ⟨hid, hout⟩
  have hmem : e ∈ session C s rs := by
    rw [session, hsplit]
    simp
  exact hrs _ (input_mem_of_mem_history hmem) hmsg2

end

/-- A freshly opened session with the sample algorithms. -/
def sampleOpened : State := State.zero.opened Crypto.sample raImxTestPublicKey 5

lemma sampleOpened_opened : Opened Crypto.sample raImxTestPublicKey sampleOpened :=
  opened_of_allOk (Env.calm_allOk Fn 5) raImxTestPublicKey

/-- Under the sample algorithms, a `msg2` whose MAC and signature are right in a session with an
empty `Ga`. -/
def sampleMsg2 (anchor : List UInt8) : List UInt8 :=
  Msg2.layout.enc { Msg2.zero with
    quote := { Quote.zero with
      anchor := Bytes.slice 32 anchor
      signature := Bytes.slice 64 (Bytes.slice 32 anchor).toList } }

/-- The beginning of a session: the client stores a secret and sends an empty `Ga`; the private
key of the verifier is 7, so that `Gv` has the coordinates 7 and 8. -/
def sampleHandshake : List Request :=
  [.calm .bootstrapSecret [42] 0, .calm .handleMsg0 (List.replicate 72 0) 7]

/-- The hypotheses are met by a session with a good quote, and the secret is released in it. -/
theorem release_guarded_sample :
    let rs := sampleHandshake ++ [.calm .handleMsg2 (sampleMsg2 [7, 8]) 0]
    let release := Request.calm .prepareMsg3 (List.replicate 53 0) 0
    (step Crypto.sample (finalState (step Crypto.sample) (some sampleOpened) rs) release).1.isOk
        = true
      ∧ Guarded (Event.Succeeds · .prepareMsg3) (Event.IsCmd · .handleMsg0)
        (Event.Succeeds · .handleMsg2) (session Crypto.sample sampleOpened (rs ++ [release])) :=
  ⟨by decide +kernel,
    release_guarded_of_verdict Crypto.sample raImxTestPublicKey sampleOpened sampleOpened_opened _
      (by decide +kernel)⟩

/-- The secret is released in a session without any quote. -/
theorem release_without_quote :
    Opened Crypto.sample raImxTestPublicKey sampleOpened
      ∧ ¬ Guarded (Event.Succeeds · .prepareMsg3) (Event.IsCmd · .handleMsg0)
        (Event.Succeeds · .handleMsg2) (session Crypto.sample sampleOpened
          (sampleHandshake ++ [.calm .prepareMsg3 (List.replicate 53 0) 0])) :=
  ⟨sampleOpened_opened, not_guarded_of_release rfl (exists_output_of_isOk (by decide +kernel))
    (by decide)⟩

/-! ## The meaning of the flag -/

/-- The stored messages and keys pass the four checks of `handle_msg2`. -/
def AllChecks (C : Crypto) (tail : List UInt8) (s : State) : Prop :=
  MacOk C tail s ∧ KeysMatch tail s ∧ SignatureOk C s ∧ AnchorOk C tail s

instance (C : Crypto) (tail : List UInt8) (s : State) : Decidable (AllChecks C tail s) :=
  inferInstanceAs (Decidable (_ ∧ _))

/-- All sizes that the checks use stay within their arrays. -/
def ChecksFit (s : State) : Prop :=
  ∀ f ∈ [Field.attesterX, .attesterY, .localX, .localY, .verifierX, .verifierY],
    (f.coord s.msgs).Fits

section

variable {C : Crypto} {attestationKey : Point} {s s' : State} {tail tail' : List UInt8}

lemma coord_of_view (h : s'.view = s.view) (f : Field) : f.coord s'.msgs = f.coord s.msgs :=
  congrFun (congrArg View.coord h) f

lemma concat_of_view (h : s'.view = s.view) {fs : List Field}
    (hfits : ∀ f ∈ fs, (f.coord s.msgs).Fits) :
    s'.msgs.concat tail' fs = s.msgs.concat tail fs := by
  have hfits' : ∀ f ∈ fs, (f.coord s'.msgs).Fits := fun f hf => by
    rw [coord_of_view h f]
    exact hfits f hf
  rw [Messages.concat_of_fits _ _ hfits, Messages.concat_of_fits _ _ hfits']
  simp only [coord_of_view h]

lemma fieldsMatch_of_view (h : s'.view = s.view) {f g : Field} (hfits : (f.coord s.msgs).Fits)
    (hmatch : FieldsMatch tail s f g) : FieldsMatch tail' s' f g := by
  obtain ⟨bs, hf, hg⟩ := hmatch
  rw [Messages.read_of_le _ _ _ hfits] at hf hg
  refine ⟨bs, ?_, ?_⟩
  · rw [coord_of_view h f, Messages.read_of_le _ _ _ hfits, coord_of_view h f, hf]
  · rw [coord_of_view h f, Messages.read_of_le _ _ _ hfits, coord_of_view h g, hg]

/-- When the sizes fit, the checks depend on nothing but what the verdict is about. -/
lemma AllChecks.of_view (h : s'.view = s.view) (hfits : ChecksFit s)
    (hchecks : AllChecks C tail s) : AllChecks C tail' s' := by
  obtain ⟨⟨k, data, hk, hdata, hmac⟩, ⟨hx, hy⟩, ⟨key, hkey, hsig⟩, data', hdata', hanchor⟩ := hchecks
  have hmsg2 : s'.msgs.msg2 = s.msgs.msg2 := congrArg View.msg2 h
  have hlocal : ∀ f ∈ msg2MacFields, (f.coord s.msgs).Fits := by
    simp only [ChecksFit, msg2MacFields, List.forall_mem_cons] at hfits ⊢
    tauto
  have hpeers : ∀ f ∈ anchorFields, (f.coord s.msgs).Fits := by
    simp only [ChecksFit, anchorFields, List.forall_mem_cons] at hfits ⊢
    tauto
  refine ⟨⟨k, data, ?_, ?_, ?_⟩, ⟨?_, ?_⟩, ⟨key, ?_, ?_⟩, data', ?_, ?_⟩
  · exact (congrArg View.macKey h).trans hk
  · rw [concat_of_view h hlocal, hdata]
  · rw [hmsg2, hmac]
  · exact fieldsMatch_of_view h (hfits _ (by simp)) hx
  · exact fieldsMatch_of_view h (hfits _ (by simp)) hy
  · exact (congrArg View.attestationKey h).trans hkey
  · rw [hmsg2, hsig]
  · rw [concat_of_view h hpeers, hdata']
  · rw [hmsg2, hanchor]

/-- What the flag stands for, as an invariant of a session. -/
def VerdictInv (C : Crypto) (s : State) : Prop :=
  VerifierFits s ∧ (s.ctx.isQuoteValid = true → ChecksFit s ∧ ∀ tail, AllChecks C tail s)

lemma VerdictInv.of_flagDown (h : FlagDown s) : VerdictInv C s := by
  refine ⟨h.2, fun hflag => ?_⟩
  rw [h.1] at hflag
  exact absurd hflag (by simp)

lemma verdictInv_step {r : Request} (hs : VerdictInv C s) (h : (step C (some s) r).2 = some s')
    (hrestart : RestartWithoutVerdict (some s) r) (hanchor : AnchorFollows C (some s) r)
    (hsizes : SizesFit (some s) r) : VerdictInv C s' := by
  cases viewStep_of_step hs.1 h with
  | same hview =>
    refine ⟨verifierFits_of_view hs.1 hview, fun hflag => ?_⟩
    obtain ⟨hfits, hchecks⟩ := hs.2 ((congrArg View.isQuoteValid hview).symm.trans hflag)
    refine ⟨fun f hf => ?_, fun tail => (hchecks tail).of_view hview hfits⟩
    rw [coord_of_view hview]
    exact hfits f hf
  | newSession hid hsame hfits =>
    exact VerdictInv.of_flagDown ⟨hsame.trans (hrestart hid s rfl), hfits⟩
  | rejected _ hdown => exact VerdictInv.of_flagDown hdown
  | checked hid _ _ hchecks hview =>
    have hfits : ChecksFit ((s.withMsg2 r.memref).setQuoteValid true) := by
      have hsizes := hsizes hid s rfl
      simp only [List.forall_mem_cons] at hsizes
      simp only [ChecksFit, List.forall_mem_cons]
      exact ⟨hsizes.1, hsizes.2.1, hsizes.2.2.1, hsizes.2.2.2.1, hs.1.1, hs.1.2, by simp⟩
    have hall : AllChecks C r.env.tail ((s.withMsg2 r.memref).setQuoteValid true) :=
      ⟨hchecks.macOk, hchecks.keysMatch, hchecks.signatureOk, (hanchor hid s rfl hchecks).1⟩
    refine ⟨verifierFits_of_view ⟨hfits .verifierX (by simp), hfits .verifierY (by simp)⟩ hview,
      fun _ => ⟨fun f hf => ?_, fun tail => hall.of_view hview hfits⟩⟩
    rw [coord_of_view hview]
    exact hfits f hf

/-- In a session that starts anew only while the flag is down, in which sizes fit and every quote
that passes the first three checks passes the fourth, the flag is up only if the stored messages
and keys pass the checks. -/
theorem flag_sound_of_cmds (C : Crypto) (attestationKey : Point) (s : State)
    (hopen : Opened C attestationKey s) (rs : List Request)
    (hcmds : ∀ e ∈ session C s rs, RestartWithoutVerdict e.before e.input
      ∧ AnchorFollows C e.before e.input ∧ SizesFit e.before e.input)
    (t : State) (ht : finalState (step C) (some s) rs = some t)
    (hflag : t.ctx.isQuoteValid = true) (tail : List UInt8) : AllChecks C tail t := by
  have hinv : ∀ t ∈ finalState (step C) (some s) rs, VerdictInv C t := by
    refine invariant_finalState (I := fun st => ∀ t ∈ st, VerdictInv C t)
      (C := fun st r => RestartWithoutVerdict st r ∧ AnchorFollows C st r ∧ SizesFit st r)
      (fun st r hst hcmd t ht => ?_) (fun t ht => ?_) hcmds
    · cases st with
      | none => simp [step_none] at ht
      | some t₀ => exact verdictInv_step (hst t₀ rfl) ht hcmd.1 hcmd.2.1 hcmd.2.2
    · obtain rfl := Option.mem_some.mp ht
      exact VerdictInv.of_flagDown hopen.flagDown
  exact ((hinv t ht).2 hflag).2 tail

end

/-- The hypotheses are met by a session with a good quote, and the flag is up at its end. -/
theorem flag_sound_sample :
    let rs := sampleHandshake ++ [.calm .handleMsg2 (sampleMsg2 [7, 8]) 0]
    ∃ t, finalState (step Crypto.sample) (some sampleOpened) rs = some t
      ∧ t.ctx.isQuoteValid = true ∧ AllChecks Crypto.sample [] t := by
  have hflag : ∃ t ∈ finalState (step Crypto.sample) (some sampleOpened)
      (sampleHandshake ++ [.calm .handleMsg2 (sampleMsg2 [7, 8]) 0]),
      t.ctx.isQuoteValid = true := by decide +kernel
  obtain ⟨t, ht, hflag⟩ := hflag
  exact ⟨t, ht, hflag, flag_sound_of_cmds Crypto.sample raImxTestPublicKey sampleOpened
    sampleOpened_opened _ (by decide +kernel) t ht hflag []⟩

/-- The flag is up after a `msg2` whose anchor is wrong, and it stays up when a new `msg0` replaces
the keys; in both states the stored messages do not pass the checks. -/
theorem flag_up_without_checks :
    Opened Crypto.sample raImxTestPublicKey sampleOpened
      ∧ (∃ t ∈ finalState (step Crypto.sample) (some sampleOpened)
          (sampleHandshake ++ [.calm .handleMsg2 (sampleMsg2 [1, 2]) 0]),
        t.ctx.isQuoteValid = true ∧ ¬ AllChecks Crypto.sample [] t)
      ∧ (∃ t ∈ finalState (step Crypto.sample) (some sampleOpened)
          (sampleHandshake ++ [.calm .handleMsg2 (sampleMsg2 [7, 8]) 0,
            .calm .handleMsg0 (List.replicate 72 0) 9]),
        t.ctx.isQuoteValid = true ∧ ¬ AllChecks Crypto.sample [] t) :=
  ⟨sampleOpened_opened, by decide +kernel, by decide +kernel⟩

end Watz.Verifier
