import Watz.Attester.Handles

/-!
# The session with the attestation service

The handle of the session is kept between the calls of a module.  `ensure_attestation_service_up`
opens a session if the handle is null, and the disposal of a quote closes it, but leaves the
handle as it is.  This file follows the handle through a history and says which histories invoke
and close open sessions only.
-/

namespace Watz.Attester

open Lib

/-! ## The calls that use the session -/

/-- The handle on which a call invokes `TEE_InvokeTACommand`. -/
def invokedSession (w : World) (s : RaState) : Call → Option SessionHandle
  | .collectQuote _ _ ok =>
    if ok = true ∧ s.isRaQuoteAvailable = true then
      match ensureAttestationServiceUp w.env ⟨s.attestationSession, s.raQuoteSingleton⟩ with
      | .ok _ q => some q.attestationSession
      | .error _ _ => none
    else none
  | _ => none

/-- The handle on which a call invokes `TEE_CloseTASession`. -/
def closedSession (s : RaState) : Call → Option SessionHandle
  | .disposeQuote h =>
    if s.isRaQuoteAvailable = false ∧ h = 0 then some s.attestationSession else none
  | _ => none

/-- The call opens a session. -/
def OpensSession (w : World) (s : RaState) : Call → Prop
  | .collectQuote _ _ ok => ok = true ∧ s.isRaQuoteAvailable = true
    ∧ s.attestationSession = .null
    ∧ w.env.Ok .ensureAttestationServiceUp Fn.ensureAttestationServiceUp.sites
  | _ => False

/-- The step opens a session. -/
def Opens (e : Entry (Option Modules) Input (Option Reply)) : Prop :=
  ∃ m c w, e.before = some m ∧ e.input = .call c w ∧ OpensSession w m.ra c

/-- The step closes a session. -/
def Closes (e : Entry (Option Modules) Input (Option Reply)) : Prop :=
  ∃ m c w, e.before = some m ∧ e.input = .call c w ∧ closedSession m.ra c ≠ none

/-- Commands are invoked in open sessions only, open sessions only are closed, and a session is
closed at most once: two steps that close have one that opens between them. -/
structure SessionsValid (l : List (Entry (Option Modules) Input (Option Reply))) : Prop where
  opened : ∀ e ∈ l, ∀ m c w, e.before = some m → e.input = .call c w →
    ∀ h, invokedSession w m.ra c = some h ∨ closedSession m.ra c = some h → h = .opened
  once : Guarded Closes Closes Opens l

/-- The step asks for a quote. -/
def Collects (e : Entry (Option Modules) Input (Option Reply)) : Prop :=
  ∃ a n w, e.input = .call (.collectQuote a n true) w

/-- The history has one session: it can be opened whenever a quote is asked for, and once a quote
has been disposed of, none is asked for any more. -/
structure OneSession (l : List (Entry (Option Modules) Input (Option Reply))) : Prop where
  opens : ∀ e ∈ l, ∀ a n w, e.input = .call (.collectQuote a n true) w →
    w.env.Ok .ensureAttestationServiceUp Fn.ensureAttestationServiceUp.sites
  last : ∀ pre e post, l = pre ++ e :: post → Collects e →
    ∀ d ∈ pre, ¬ Succeeds (Call.DisposesQuote 0) d

section

variable {C : Crypto} {key : Pta.AttestationKey} {inputs : List Input}

variable {env : Env Fn} {session : SessionHandle}

lemma ensuredSession_of_ok
    (hok : env.Ok .ensureAttestationServiceUp Fn.ensureAttestationServiceUp.sites)
    (hclosed : session ≠ .closed) : ensuredSession env session = .opened := by
  cases session <;> simp_all [ensuredSession]

lemma ensuredSession_eq_closed :
    ensuredSession env session = .closed ↔ session = .closed := by
  by_cases hopens : session = .null
      ∧ env.Ok .ensureAttestationServiceUp Fn.ensureAttestationServiceUp.sites
  · simp [ensuredSession, hopens]
  · rw [ensuredSession, if_neg hopens]

lemma ensuredSession_eq_opened (h : ensuredSession env session = .opened) :
    session = .null ∧ env.Ok .ensureAttestationServiceUp Fn.ensureAttestationServiceUp.sites
      ∨ session = .opened := by
  by_cases hopens : session = .null
      ∧ env.Ok .ensureAttestationServiceUp Fn.ensureAttestationServiceUp.sites
  · exact .inl hopens
  · rw [ensuredSession, if_neg hopens] at h
    exact .inr h

lemma guarded_closed :
    Guarded (fun e => Collects e ∧ ∃ m, e.before = some m ∧ m.ra.attestationSession = .closed)
      (fun _ => False) (Succeeds (Call.DisposesQuote 0))
      (history (moduleStep C key) (some Modules.init) inputs) := by
  refine guarded_of_flag (fun s => ∃ m, s = some m ∧ m.ra.attestationSession = .closed) ?_ ?_ ?_
  · rintro ⟨m, ⟨⟩, hclosed⟩
    cases hclosed
  · rintro e he ⟨m', hm', hclosed⟩
    obtain ⟨m, hm, ⟨hash, -, hra⟩ | ⟨c, w, reply, hinput, houtput, hcall⟩⟩ :=
      moduleStep_cases hm'
    · exact .inr ⟨⟨m, hm, hra ▸ hclosed⟩, id⟩
    · rcases quoteSlot_of_wasiCall hcall with
        ⟨a, n, -, -, -, -, hsession⟩ | ⟨rfl, -, -, hsuccess, -⟩ | ⟨-, hsame, -⟩
      · rw [hsession, ensuredSession_eq_closed] at hclosed
        exact .inr ⟨⟨m, hm, hclosed⟩, id⟩
      · rw [← output_of_mem_history he] at houtput
        exact .inl ⟨_, w, reply, hinput, houtput, hsuccess, rfl⟩
      · exact .inr ⟨⟨m, hm, hsame ▸ hclosed⟩, id⟩
  · exact fun e _ hevent => hevent.2

/-- If the step asks for a quote, it can do so in an open session. -/
def Usable (s : Option Modules) (i : Input) : Prop :=
  ∀ m a n w, s = some m → i = .call (.collectQuote a n true) w →
    m.ra.attestationSession ≠ .closed
      ∧ w.env.Ok .ensureAttestationServiceUp Fn.ensureAttestationServiceUp.sites

lemma OneSession.usable
    (h : OneSession (history (moduleStep C key) (some Modules.init) inputs)) :
    ∀ e ∈ history (moduleStep C key) (some Modules.init) inputs, Usable e.before e.input := by
  intro e he m a n w hm hinput
  refine ⟨fun hclosed => ?_, h.opens e he a n w hinput⟩
  obtain ⟨pre, post, heq⟩ := List.append_of_mem he
  have hcollects : Collects e := ⟨a, n, w, hinput⟩
  obtain ⟨pre', d, post', hpre, hdispose, -⟩ :=
    guarded_closed pre e post heq ⟨hcollects, m, hm, hclosed⟩
  exact h.last pre e post heq hcollects d (by simp [hpre]) hdispose

/-- If every step that asks for a quote can do so in an open session, the session is open while a
quote is taken. -/
lemma opened_of_taken
    (h : ∀ e ∈ history (moduleStep C key) (some Modules.init) inputs, Usable e.before e.input) :
    ∀ e ∈ history (moduleStep C key) (some Modules.init) inputs, ∀ m, e.before = some m →
      m.ra.isRaQuoteAvailable = false → m.ra.attestationSession = .opened := by
  refine invariant_before (I := fun s : Option Modules => ∀ m, s = some m →
    m.ra.isRaQuoteAvailable = false → m.ra.attestationSession = .opened) ?_ ?_ h
  · intro s i hI hC m' hm' htaken
    obtain ⟨m, rfl, ⟨hash, -, hra⟩ | ⟨c, w, reply, rfl, -, hcall⟩⟩ := moduleStep_cases hm'
    · rw [hra] at htaken ⊢
      exact hI m rfl htaken
    · rcases quoteSlot_of_wasiCall hcall with
        ⟨a, n, rfl, -, -, -, hsession⟩ | ⟨-, -, havail, -⟩ | ⟨hsame, hsame', -⟩
      · obtain ⟨hclosed, hok⟩ := hC m a n w rfl rfl
        rw [hsession, ensuredSession_of_ok hok hclosed]
      · rw [htaken] at havail
        cases havail
      · rw [hsame] at htaken
        rw [hsame']
        exact hI m rfl htaken
  · rintro m ⟨⟩ htaken
    cases htaken

lemma invokedSession_eq_some {w : World} {s : RaState} {c : Call}
    (h : invokedSession w s c = some session) :
    (∃ a n, c = .collectQuote a n true)
      ∧ session = ensuredSession w.env s.attestationSession := by
  cases c with
  | collectQuote a n ok =>
    rw [invokedSession] at h
    split at h
    · rename_i hreach
      refine ⟨⟨a, n, by rw [hreach.1]⟩, ?_⟩
      have hsession : (final (ensureAttestationServiceUp w.env
          ⟨s.attestationSession, s.raQuoteSingleton⟩)).attestationSession
            = ensuredSession w.env s.attestationSession := ensureAttestationServiceUp_session _
      split at h
      · rename_i u q hensure
        rw [← hsession, hensure]
        exact (Option.some.inj h).symm
      · cases h
    · cases h
  | _ => cases h

lemma closedSession_eq_some {s : RaState} {c : Call} (h : closedSession s c = some session) :
    c = .disposeQuote 0 ∧ s.isRaQuoteAvailable = false ∧ session = s.attestationSession := by
  cases c with
  | disposeQuote q =>
    rw [closedSession] at h
    split at h
    · rename_i hreach
      exact ⟨by rw [hreach.2], hreach.1, (Option.some.inj h).symm⟩
    · cases h
  | _ => cases h

end

/-- In a history with one session, commands are invoked in it while it is open, and it is closed
at most once. -/
theorem sessions_valid (C : Crypto) (key : Pta.AttestationKey) (inputs : List Input)
    (h : OneSession (history (moduleStep C key) (some Modules.init) inputs)) :
    SessionsValid (history (moduleStep C key) (some Modules.init) inputs) := by
  have hopened := opened_of_taken h.usable
  constructor
  · rintro e he m c w hm hinput session (hinvoked | hclosed)
    · obtain ⟨⟨a, n, rfl⟩, rfl⟩ := invokedSession_eq_some hinvoked
      obtain ⟨hnot, hok⟩ := h.usable e he m a n w hm hinput
      exact ensuredSession_of_ok hok hnot
    · obtain ⟨-, htaken, rfl⟩ := closedSession_eq_some hclosed
      exact hopened e he m hm htaken
  · refine guarded_of_flag
      (fun s => ∃ m, s = some m ∧ m.ra.attestationSession = .opened) ?_ ?_ ?_
    · rintro ⟨m, ⟨⟩, hopen⟩
      cases hopen
    · rintro e he ⟨m', hm', hopen⟩
      obtain ⟨m, hm, ⟨hash, hinput, hra⟩ | ⟨c, w, reply, hinput, -, hcall⟩⟩ :=
        moduleStep_cases hm'
      · refine .inr ⟨⟨m, hm, hra ▸ hopen⟩, ?_⟩
        rintro ⟨_, c, w, -, hcall, -⟩
        rw [hinput] at hcall
        cases hcall
      · rcases quoteSlot_of_wasiCall hcall with
          ⟨a, n, rfl, havail, -, -, hsession⟩ | ⟨-, htaken, -, -, hcloses⟩
            | ⟨-, hsame, -, hnot, -⟩
        · rw [hsession] at hopen
          rcases ensuredSession_eq_opened hopen with ⟨hnull, hok⟩ | hbefore
          · exact .inl ⟨m, _, w, hm, hinput, rfl, havail, hnull, hok⟩
          · refine .inr ⟨⟨m, hm, hbefore⟩, ?_⟩
            rintro ⟨_, c, w', -, hcall', hcloses⟩
            rw [hinput] at hcall'
            cases hcall'
            exact hcloses rfl
        · rw [hcloses (hopened e he m hm htaken)] at hopen
          cases hopen
        · refine .inr ⟨⟨m, hm, hsame ▸ hopen⟩, ?_⟩
          rintro ⟨m₁, c, w', hm1, hcall', hcloses⟩
          rw [hinput] at hcall'
          rw [hm] at hm1
          cases hcall'
          cases hm1
          obtain ⟨session, hclosed⟩ := Option.ne_none_iff_exists'.mp hcloses
          obtain ⟨rfl, htaken, -⟩ := closedSession_eq_some hclosed
          rw [hnot rfl] at htaken
          cases htaken
    · rintro e he ⟨m, c, w, hm, hinput, hcloses⟩
      obtain ⟨session, hclosed⟩ := Option.ne_none_iff_exists'.mp hcloses
      obtain ⟨-, htaken, -⟩ := closedSession_eq_some hclosed
      exact ⟨m, hm, hopened e he m hm htaken⟩

/-- A call that asks for a quote when every call succeeds. -/
def sampleCollect : Input := .call (.collectQuote (Bytes.zero 32) 32 true) (sampleWorld [])

/-- The disposal of the quote. -/
def sampleDispose : Input := .call (.disposeQuote 0) (sampleWorld [])

/-- A module that collects a quote and disposes of it. -/
theorem sessions_valid_sample :
    SessionsValid (history (moduleStep Crypto.sample sampleKey) (some Modules.init)
      [sampleCollect, sampleDispose]) := by
  refine sessions_valid _ _ _ ⟨?_, ?_⟩
  · intro e he a n w hinput
    have hmem := input_mem_of_mem_history he
    rw [hinput] at hmem
    obtain ⟨⟩ | ⟨_, ⟨⟩ | ⟨_, ⟨⟩⟩⟩ := hmem
    exact (Env.calm_allOk Fn 7).ok _ _
  · rintro pre e post heq ⟨a, n, w, hinput⟩ d hd
    obtain ⟨js, ks, hinputs, rfl, -⟩ := exists_of_history_eq_append heq
    rw [hinput] at hinputs
    cases js with
    | nil => cases hd
    | cons j js =>
      have hmem : Input.call (.collectQuote a n true) w ∈ [sampleDispose] := by
        rw [(List.cons.inj hinputs).2]
        simp
      cases List.mem_singleton.mp hmem

/-- The second of two collections with a disposal between them invokes a command in the session
that the disposal has closed. -/
theorem collect_in_closed_session :
    ¬ SessionsValid (history (moduleStep Crypto.sample sampleKey) (some Modules.init)
      [sampleCollect, sampleDispose, sampleCollect]) := by
  intro hvalid
  have hbefore : (finalState (moduleStep Crypto.sample sampleKey) (some Modules.init)
      [sampleCollect, sampleDispose]).map (fun m => (m.ra.isRaQuoteAvailable,
        m.ra.attestationSession)) = some (true, .closed) := by decide +kernel
  obtain ⟨m, hm, hdata⟩ := Option.map_eq_some_iff.mp hbefore
  obtain ⟨havail, hclosed⟩ := Prod.mk.inj hdata
  have hinvoked : invokedSession (sampleWorld []) m.ra
      (.collectQuote (Bytes.zero 32) 32 true) = some .closed := by
    have hensure : ensureAttestationServiceUp (sampleWorld []).env
        ⟨m.ra.attestationSession, m.ra.raQuoteSingleton⟩
          = .ok () ⟨m.ra.attestationSession, m.ra.raQuoteSingleton⟩ :=
      ensureAttestationServiceUp_eq_ok.mpr (.inl ⟨by simp [hclosed], rfl⟩)
    rw [invokedSession, if_pos ⟨rfl, havail⟩, hensure, hclosed]
  have hopened := hvalid.opened _
    (mem_history (some Modules.init) [sampleCollect, sampleDispose] [] sampleCollect)
    m _ _ hm rfl .closed (.inl hinvoked)
  cases hopened

end Watz.Attester
