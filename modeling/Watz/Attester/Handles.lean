import Watz.Attester.Spec
import Watz.Attester.Isolation

/-!
# The handles of the interface

There is one slot for a quote and one for a context, each with a flag that says whether it is
available.  A handle is the number 0; it is live while its slot is taken.  This file says what a
call does to the two slots, when a failed call leaves them alone, and when a call that succeeds
on a handle finds it live.
-/

namespace Watz.Attester

open Lib

/-! ## What a call does to the slots -/

/-- `ra_quote_collect` does not return an error: no call fails, the session can be opened if there
is none, and the service accepts the size of the anchor.  A closed session makes it panic before
the service sees the request. -/
structure CollectOk (w : World) (anchorSize : ℕ) (session : SessionHandle) : Prop where
  opens : session = .null →
    w.env.Ok .ensureAttestationServiceUp Fn.ensureAttestationServiceUp.sites
  invokes : w.env.Ok .raQuoteCollect Fn.raQuoteCollect.sites
  size_le : session ≠ .closed → anchorSize ≤ 32
  hashes : session ≠ .closed → w.ptaEnv.Ok .hashQuote Pta.Fn.hashQuote.sites
  signs : session ≠ .closed → w.ptaEnv.Ok .generateQuote Pta.Fn.generateQuote.sites

section

variable {C : Crypto} {key : Pta.AttestationKey} {w : World} {hash anchor : Bytes 32}
  {anchorSize : ℕ} {c : Call} {s s' : RaState} {reply : Reply}

variable {q q' : QuoteState}

lemma collectOk_of_raQuoteCollect {u : Unit}
    (h : raQuoteCollect C w.env w.ptaEnv key hash anchor anchorSize q = .ok u q') :
    CollectOk w anchorSize q.attestationSession := by
  obtain ⟨hopens, -, hinvokes, hquote, -⟩ := raQuoteCollect_eq_ok.mp h
  obtain ⟨hsize, -, hhashes, hsigns, -⟩ := Pta.generateQuote_eq_ok.mp hquote
  exact ⟨hopens, hinvokes, fun _ => hsize, fun _ => hhashes, fun _ => hsigns⟩

lemma raQuoteCollect_ne_error {e : TeeError} (h : CollectOk w anchorSize q.attestationSession) :
    raQuoteCollect C w.env w.ptaEnv key hash anchor anchorSize q ≠ .error (.error e) q' := by
  by_cases hclosed : q.attestationSession = .closed
  · have hensure : ensureAttestationServiceUp w.env q = .ok () q :=
      ensureAttestationServiceUp_eq_ok.mpr (.inl ⟨by simp [hclosed], rfl⟩)
    have hinvoke : w.env.outcome ⟨.raQuoteCollect, .invokeTaCommand, 0⟩ = none :=
      h.invokes _ List.mem_cons_self
    have htee : tee w.env .raQuoteCollect .invokeTaCommand 0 q = .ok () q :=
      tee_eq_ok.mpr ⟨hinvoke, rfl⟩
    rw [raQuoteCollect, bind_of_ok hensure, invokeGenQuote, bind_of_ok htee]
    simp [inService, hclosed]
  · have hquote : Pta.generateQuote C w.ptaEnv key hash.toList anchor anchorSize q.quote
        = .ok () (Pta.signedQuote C key w.ptaEnv.nonce hash.toList anchor) :=
      Pta.generateQuote_eq_ok.mpr
        ⟨h.size_le hclosed, fun hlen => absurd hash.length_eq hlen, h.hashes hclosed,
          h.signs hclosed, rfl⟩
    have hok : raQuoteCollect C w.env w.ptaEnv key hash anchor anchorSize q
        = .ok () ⟨.opened, Pta.signedQuote C key w.ptaEnv.nonce hash.toList anchor⟩ :=
      raQuoteCollect_eq_ok.mpr ⟨h.opens, hclosed, h.invokes, hquote, rfl⟩
    rw [hok]
    intro hne
    cases hne

/-- The session a quote is asked for in: `ensure_attestation_service_up` opens one if there is
none. -/
def ensuredSession (env : Env Fn) (session : SessionHandle) : SessionHandle :=
  if session = .null ∧ env.Ok .ensureAttestationServiceUp Fn.ensureAttestationServiceUp.sites then
    .opened
  else session

lemma ensureAttestationServiceUp_session {env : Env Fn} (q : QuoteState) :
    (final (ensureAttestationServiceUp env q)).attestationSession
      = ensuredSession env q.attestationSession := by
  by_cases hnull : q.attestationSession = .null
  · cases hopen : env.outcome ⟨.ensureAttestationServiceUp, .openTaSession, 0⟩ with
    | none =>
      have hok : ensureAttestationServiceUp env q
          = .ok () { q with attestationSession := .opened } :=
        ensureAttestationServiceUp_eq_ok.mpr (.inr ⟨hnull, by simp [Fn.sites, hopen], rfl⟩)
      rw [hok]
      simp [ensuredSession, hnull, Fn.sites, hopen]
    | some stop =>
      have herr : ensureAttestationServiceUp env q = .error stop q := by
        rw [ensureAttestationServiceUp, bind_of_ok (get_eq_ok.mpr ⟨rfl, rfl⟩),
          if_neg (not_not.mpr hnull), bind_of_error (tee_of_some hopen)]
      rw [herr]
      simp [ensuredSession, hnull, Fn.sites, hopen]
  · have hok : ensureAttestationServiceUp env q = .ok () q :=
      ensureAttestationServiceUp_eq_ok.mpr (.inl ⟨hnull, rfl⟩)
    rw [hok]
    simp [ensuredSession, hnull]

lemma invokeGenQuote_session {env : Env Fn} {pta : EStateM Stop Quote Unit} (q : QuoteState) :
    (final (invokeGenQuote env pta q)).attestationSession = q.attestationSession := by
  have hservice : Keeps (fun t : QuoteState => t.attestationSession = q.attestationSession)
      (inService pta) := by
    intro t ht
    rw [inService]
    by_cases hopen : t.attestationSession = .opened
    · cases hpta : pta t.quote with
      | ok u quote => simp [hopen, ← ht]
      | error stop quote => simp [hopen, ← ht]
    · simp only [if_neg hopen]
      refine ⟨fun _ _ hne => (by cases hne), ?_⟩
      rintro e t' ⟨⟩
      exact ht
  exact Keeps.final_of (Keeps.bind keeps_tee fun _ => hservice) rfl

lemma raQuoteCollect_session (q : QuoteState) :
    (final (raQuoteCollect C w.env w.ptaEnv key hash anchor anchorSize q)).attestationSession
      = ensuredSession w.env q.attestationSession := by
  rw [← ensureAttestationServiceUp_session q, raQuoteCollect]
  cases h : ensureAttestationServiceUp w.env q with
  | ok u t => rw [bind_of_ok h, invokeGenQuote_session, final_ok]
  | error stop t => rw [bind_of_error h, final_error]

lemma raQuoteDispose_session {u : Unit} (h : raQuoteDispose q = .ok u q')
    (hopen : q.attestationSession = .opened) : q'.attestationSession = .closed := by
  obtain ⟨session, quote⟩ := q
  obtain rfl : session = .opened := hopen
  cases h
  rfl

/-- What a call that returns does to the slot of the quote and to the session: a collection takes
the slot, also if it fails, a disposal makes it available, and nothing else changes it. -/
lemma quoteSlot_of_wasiCall (h : wasiCall C key w hash c s = some (reply, s')) :
    (∃ a n, c = .collectQuote a n true ∧ s.isRaQuoteAvailable = true
        ∧ s'.isRaQuoteAvailable = false
        ∧ (reply.result = .success ↔ CollectOk w n s.attestationSession)
        ∧ s'.attestationSession = ensuredSession w.env s.attestationSession)
      ∨ (c = .disposeQuote 0 ∧ s.isRaQuoteAvailable = false ∧ s'.isRaQuoteAvailable = true
        ∧ reply.result = .success
        ∧ (s.attestationSession = .opened → s'.attestationSession = .closed))
      ∨ (s'.isRaQuoteAvailable = s.isRaQuoteAvailable
        ∧ s'.attestationSession = s.attestationSession
        ∧ (∀ a n, c = .collectQuote a n true → s.isRaQuoteAvailable = false)
        ∧ (c = .disposeQuote 0 → s.isRaQuoteAvailable = true)
        ∧ (reply.result = .success → (∀ a n b, c ≠ .collectQuote a n b)
            ∧ ∀ q, c ≠ .disposeQuote q)) := by
  cases c with
  | collectQuote a n ok =>
    simp only [wasiCall, wasiRaCollectQuote] at h
    split at h
    · rename_i hok
      cases h
      exact .inr (.inr ⟨rfl, rfl, by simp [hok], by simp, fun hs => (by cases hs)⟩)
    · split at h
      · rename_i havail
        cases h
        exact .inr (.inr ⟨rfl, rfl, fun _ _ _ => havail, by simp, fun hs => (by cases hs)⟩)
      · rename_i hok havail
        have hsession : (final (raQuoteCollect C w.env w.ptaEnv key hash a n
            ⟨s.attestationSession, s.raQuoteSingleton⟩)).attestationSession
              = ensuredSession w.env s.attestationSession := raQuoteCollect_session _
        refine .inl ⟨a, n, by simpa using hok, by simpa using havail, ?_⟩
        split at h
        · rename_i u q hcollect
          cases h
          rw [hcollect] at hsession
          exact ⟨rfl, iff_of_true rfl (collectOk_of_raQuoteCollect hcollect), hsession⟩
        · rename_i e q hcollect
          cases h
          rw [hcollect] at hsession
          exact ⟨rfl, iff_of_false (fun hs => by cases hs) fun hc => raQuoteCollect_ne_error hc hcollect, hsession⟩
        · cases h
  | disposeQuote q =>
    simp only [wasiCall, wasiRaNetDisposeQuote] at h
    split at h
    · rename_i havail
      cases h
      exact .inr (.inr ⟨rfl, rfl, by simp, fun _ => havail, fun hs => (by cases hs)⟩)
    · split at h
      · rename_i hq
        cases h
        have hne : Call.disposeQuote q ≠ .disposeQuote 0 := fun hc => hq (Call.disposeQuote.inj hc)
        exact .inr (.inr ⟨rfl, rfl, by simp, fun hc => absurd hc hne, fun hs => (by cases hs)⟩)
      · rename_i havail hq
        obtain rfl : q = 0 := not_not.mp hq
        refine .inr (.inl ⟨rfl, by simpa using havail, ?_⟩)
        split at h
        · rename_i u q hdispose
          cases h
          exact ⟨rfl, rfl, fun hopen => raQuoteDispose_session hdispose hopen⟩
        · rename_i e q hdispose
          exact absurd hdispose raQuoteDispose_ne_error
        · cases h
  | handshake x y n ok =>
    simp only [wasiCall, wasiRaNetHandshake] at h
    right; right
    grind -ring -linarith
  | sendQuote hc q =>
    simp only [wasiCall, wasiRaNetSendQuote] at h
    right; right
    grind -ring -linarith
  | receiveData hc n ok ok' =>
    simp only [wasiCall, wasiRaNetReceiveData] at h
    right; right
    grind -ring -linarith
  | dispose hc =>
    simp only [wasiCall, wasiRaNetDispose] at h
    right; right
    grind -ring -linarith

lemma contextSlot_of_wasiCall (h : wasiCall C key w hash c s = some (reply, s')) :
    (∃ x y n, c = .handshake x y n true ∧ s.isRaContextAvailable = true
        ∧ s'.isRaContextAvailable = false ∧ reply.result = .success)
      ∨ (c = .dispose 0 ∧ s.isRaContextAvailable = false ∧ s'.isRaContextAvailable = true
        ∧ reply.result = .success)
      ∨ (s'.isRaContextAvailable = s.isRaContextAvailable
        ∧ (reply.result = .success → (∀ x y n b, c ≠ .handshake x y n b)
            ∧ ∀ q, c ≠ .dispose q)) := by
  cases c with
  | collectQuote a n ok =>
    simp only [wasiCall, wasiRaCollectQuote] at h
    grind -ring -linarith
  | disposeQuote q =>
    simp only [wasiCall, wasiRaNetDisposeQuote] at h
    grind -ring -linarith
  | handshake x y n ok =>
    simp only [wasiCall, wasiRaNetHandshake] at h
    cases ok <;> grind -ring -linarith [Reply.of]
  | sendQuote hc q =>
    simp only [wasiCall, wasiRaNetSendQuote] at h
    grind -ring -linarith
  | receiveData hc n ok ok' =>
    simp only [wasiCall, wasiRaNetReceiveData] at h
    grind -ring -linarith
  | dispose hc =>
    simp only [wasiCall, wasiRaNetDispose] at h
    grind -ring -linarith [Reply.of, raNetDispose_ne_error]

/-! ## Failed calls -/

/-- A call that fails leaves both slots as they are exactly if it is not a collection that fails
after it has found the slot of the quote available. -/
theorem slots_unchanged_iff (h : wasiCall C key w hash c s = some (reply, s')) :
    (reply.result ≠ .success → s'.isRaQuoteAvailable = s.isRaQuoteAvailable
        ∧ s'.isRaContextAvailable = s.isRaContextAvailable)
      ↔ ∀ a n, c = .collectQuote a n true → s.isRaQuoteAvailable = true →
        CollectOk w n s.attestationSession := by
  constructor
  · rintro hatomic a n rfl havail
    rcases quoteSlot_of_wasiCall h with
      ⟨_, _, ⟨⟩, -, htaken, hiff, -⟩ | ⟨⟨⟩, -⟩ | ⟨-, -, hnot, -⟩
    · refine hiff.mp (by_contra fun hfail => ?_)
      rw [(hatomic hfail).1, havail] at htaken
      cases htaken
    · rw [hnot a n rfl] at havail
      cases havail
  · intro hok hfail
    constructor
    · rcases quoteSlot_of_wasiCall h with
        ⟨a, n, rfl, havail, -, hiff, -⟩ | ⟨-, -, -, hsuccess, -⟩ | ⟨hsame, -⟩
      · exact absurd (hiff.mpr (hok a n rfl havail)) hfail
      · exact absurd hsuccess hfail
      · exact hsame
    · rcases contextSlot_of_wasiCall h with
        ⟨x, y, n, -, -, -, hsuccess⟩ | ⟨-, -, -, hsuccess⟩ | ⟨hsame, -⟩
      · exact absurd hsuccess hfail
      · exact absurd hsuccess hfail
      · exact hsame

end

/-- A handshake to which nothing is answered. -/
theorem slots_unchanged_iff_sample :
    ∃ reply s', wasiCall Crypto.sample sampleKey (sampleWorld []) (Bytes.zero 32)
        (.handshake [] [] 32 true) RaState.init = some (reply, s')
      ∧ (reply.result ≠ .success → s'.isRaQuoteAvailable = true
        ∧ s'.isRaContextAvailable = true) := by
  have hsome : (wasiCall Crypto.sample sampleKey (sampleWorld []) (Bytes.zero 32)
      (.handshake [] [] 32 true) RaState.init).isSome = true := by decide +kernel
  obtain ⟨⟨reply, s'⟩, h⟩ := Option.isSome_iff_exists.mp hsome
  exact ⟨reply, s', h, (slots_unchanged_iff h).mpr nofun⟩

/-- A world in which the session with the attestation service cannot be opened. -/
def noServiceWorld : World :=
  { sampleWorld [] with
    env.outcome := fun site =>
      if site = ⟨.ensureAttestationServiceUp, .openTaSession, 0⟩ then some (.error .generic)
      else none }

/-- A collection that fails because there is no service takes the slot of the quote: trying again
is refused, although no handle has been delivered. -/
theorem failed_collect_takes_slot :
    ∃ s', wasiCall Crypto.sample sampleKey noServiceWorld (Bytes.zero 32)
          (.collectQuote (Bytes.zero 32) 32 true) RaState.init = some (.of .genericError, s')
      ∧ RaState.init.isRaQuoteAvailable = true ∧ s'.isRaQuoteAvailable = false
      ∧ wasiCall Crypto.sample sampleKey (sampleWorld []) (Bytes.zero 32)
          (.collectQuote (Bytes.zero 32) 32 true) s' = some (.of .concurrentError, s') :=
  ⟨{ RaState.init with isRaQuoteAvailable := false }, rfl, rfl, rfl, rfl⟩

/-! ## Handles in a history -/

section

/-- The call takes a handle of a quote. -/
def Call.TakesQuote (h : UInt32) : Call → Prop
  | .disposeQuote q => q = h
  | .sendQuote _ q => q = h
  | _ => False

/-- The call delivers a handle of a quote if it succeeds. -/
def Call.DeliversQuote (h : UInt32) : Call → Prop
  | .collectQuote _ _ _ => h = 0
  | _ => False

/-- The call disposes of a handle of a quote. -/
def Call.DisposesQuote (h : UInt32) : Call → Prop
  | .disposeQuote q => q = h
  | _ => False

/-- The call takes a handle of a context. -/
def Call.TakesContext (h : UInt32) : Call → Prop
  | .sendQuote c _ => c = h
  | .receiveData c _ _ _ => c = h
  | .dispose c => c = h
  | _ => False

/-- The call delivers a handle of a context if it succeeds. -/
def Call.DeliversContext (h : UInt32) : Call → Prop
  | .handshake _ _ _ _ => h = 0
  | _ => False

/-- The call disposes of a handle of a context. -/
def Call.DisposesContext (h : UInt32) : Call → Prop
  | .dispose c => c = h
  | _ => False

/-- The step is a call of the given kind that returns `WASI_RA_SUCCESS`. -/
def Succeeds (kind : Call → Prop) (e : Entry (Option Modules) Input (Option Reply)) : Prop :=
  ∃ c w reply, e.input = .call c w ∧ e.output = some reply ∧ reply.result = .success ∧ kind c

/-- An operation that takes a handle succeeds only if the handle has been delivered and not been
disposed of since. -/
def HandlesLive (l : List (Entry (Option Modules) Input (Option Reply))) : Prop :=
  ∀ h, Guarded (Succeeds (Call.TakesQuote h)) (Succeeds (Call.DisposesQuote h))
      (Succeeds (Call.DeliversQuote h)) l
    ∧ Guarded (Succeeds (Call.TakesContext h)) (Succeeds (Call.DisposesContext h))
      (Succeeds (Call.DeliversContext h)) l

/-- What the flag of the quote needs to be right: a collection that finds the slot available does
not fail, and a quote is sent only while the slot is taken. -/
def QuoteSlotTrusted (m : Modules) (w : World) : Call → Prop
  | .collectQuote _ anchorSize ok =>
    ok = true → m.ra.isRaQuoteAvailable = true → CollectOk w anchorSize m.ra.attestationSession
  | .sendQuote _ _ => m.ra.isRaQuoteAvailable = false
  | _ => True

variable {C : Crypto} {key : Pta.AttestationKey}

lemma moduleStep_cases {s : Option Modules} {i : Input} {m' : Modules}
    (h : (moduleStep C key s i).2 = some m') :
    ∃ m, s = some m ∧ ((∃ hash, i = .runWasm hash ∧ m'.ra = m.ra)
      ∨ ∃ c w reply, i = .call c w ∧ (moduleStep C key s i).1 = some reply
        ∧ wasiCall C key w m.wasmBytecodeHash c m.ra = some (reply, m'.ra)) := by
  cases s with
  | none => cases h
  | some m =>
    refine ⟨m, rfl, ?_⟩
    cases i with
    | runWasm hash =>
      cases h
      exact .inl ⟨hash, rfl, rfl⟩
    | call c w =>
      cases hcall : wasiCall C key w m.wasmBytecodeHash c m.ra with
      | none => simp [moduleStep, hcall] at h
      | some out =>
        simp only [moduleStep, hcall, Option.some.injEq] at h ⊢
        exact .inr ⟨c, w, out.1, rfl, rfl, by rw [hcall, ← h]; rfl⟩

variable {inputs : List Input}

lemma exists_of_succeeds {kind : Call → Prop} {s : Option Modules}
    {e : Entry (Option Modules) Input (Option Reply)}
    (he : e ∈ history (moduleStep C key) s inputs) (h : Succeeds kind e) :
    ∃ m c w reply ra, e.before = some m ∧ e.input = .call c w
      ∧ wasiCall C key w m.wasmBytecodeHash c m.ra = some (reply, ra)
      ∧ reply.result = .success ∧ kind c := by
  obtain ⟨c, w, reply, hinput, houtput, hresult, hkind⟩ := h
  have hstep := output_of_mem_history he
  rw [hinput, houtput] at hstep
  cases hbefore : e.before with
  | none =>
    rw [hbefore] at hstep
    cases hstep
  | some m =>
    cases hcall : wasiCall C key w m.wasmBytecodeHash c m.ra with
    | none => simp [moduleStep, hbefore, hcall] at hstep
    | some out =>
      simp only [moduleStep, hbefore, hcall, Option.some.injEq] at hstep
      exact ⟨m, c, w, reply, out.2, rfl, hinput, by rw [hcall, hstep], hresult, hkind⟩

section

variable {w : World} {hash : Bytes 32} {c : Call} {s s' : RaState} {reply : Reply} {h : UInt32}

section

variable (hcall : wasiCall C key w hash c s = some (reply, s'))

include hcall

lemma reaches_of_success (hsuccess : reply.result = .success)
    (hkind : c.TakesQuote h ∨ c.TakesContext h) :
    c.ReachesContext s ∨ c.ReachesQuote s := by
  by_contra hnot
  obtain ⟨hcontext, hquote⟩ := not_or.mp hnot
  refine (wasiCall_of_not_reaches hcall hcontext hquote ⟨?_, ?_⟩).1 hsuccess
  · rintro a n b rfl
    exact hkind.elim id id
  · rintro x y n b rfl
    exact hkind.elim id id

lemma taken_of_takesContext (hsuccess : reply.result = .success) (hkind : c.TakesContext h) :
    s.isRaContextAvailable = false ∧ h = 0 := by
  have hreach := reaches_of_success hcall hsuccess (.inr hkind)
  cases c <;> simp_all [Call.TakesContext, Call.ReachesContext, Call.ReachesQuote]

lemma taken_of_takesQuote (hsuccess : reply.result = .success) (hkind : c.TakesQuote h) :
    ((∀ hc q, c ≠ .sendQuote hc q) → s.isRaQuoteAvailable = false) ∧ h = 0 := by
  have hreach := reaches_of_success hcall hsuccess (.inl hkind)
  cases c <;> simp_all [Call.TakesQuote, Call.ReachesContext, Call.ReachesQuote]

end

end

/-- The rule for a slot: its flag guards the calls that take its handle, if a call takes the slot
only when it succeeds in delivering the handle, gives it up when it disposes of the handle, and
takes the handle only while the slot is taken. -/
lemma guarded_of_slot (available : RaState → Bool) {takes disposes delivers : Call → Prop}
    (hinit : available RaState.init = true)
    (hstep : ∀ e ∈ history (moduleStep C key) (some Modules.init) inputs, ∀ m c w reply ra,
      e.before = some m → e.input = .call c w →
      wasiCall C key w m.wasmBytecodeHash c m.ra = some (reply, ra) → available ra = false →
      reply.result = .success ∧ delivers c
        ∨ available m.ra = false ∧ (reply.result = .success → ¬ disposes c))
    (htakes : ∀ e ∈ history (moduleStep C key) (some Modules.init) inputs, ∀ m c w reply ra,
      e.before = some m → e.input = .call c w →
      wasiCall C key w m.wasmBytecodeHash c m.ra = some (reply, ra) →
      reply.result = .success → takes c → available m.ra = false) :
    Guarded (Succeeds takes) (Succeeds disposes) (Succeeds delivers)
      (history (moduleStep C key) (some Modules.init) inputs) := by
  refine guarded_of_flag (fun s => ∃ m, s = some m ∧ available m.ra = false) ?_ ?_ ?_
  · rintro ⟨m, ⟨⟩, htaken⟩
    exact absurd (htaken.symm.trans hinit) (by decide)
  · rintro e he ⟨m', hm', htaken⟩
    obtain ⟨m, hm, ⟨hash, hinput, hra⟩ | ⟨c, w, reply, hinput, houtput, hcall⟩⟩ :=
      moduleStep_cases hm'
    · refine .inr ⟨⟨m, hm, hra ▸ htaken⟩, ?_⟩
      rintro ⟨c, w, reply, hcall, -⟩
      rw [hinput] at hcall
      cases hcall
    · rw [← output_of_mem_history he] at houtput
      rcases hstep e he m c w reply _ hm hinput hcall htaken with
        ⟨hsuccess, hdelivers⟩ | ⟨hbefore, hother⟩
      · exact .inl ⟨c, w, reply, hinput, houtput, hsuccess, hdelivers⟩
      · refine .inr ⟨⟨m, hm, hbefore⟩, ?_⟩
        rintro ⟨c', w', reply', hinput', houtput', hsuccess, hdisposes⟩
        rw [hinput] at hinput'
        rw [houtput] at houtput'
        cases hinput'
        cases houtput'
        exact hother hsuccess hdisposes
  · intro e he hevent
    obtain ⟨m, c, w, reply, ra, hm, hinput, hcall, hsuccess, hkind⟩ :=
      exists_of_succeeds he hevent
    exact ⟨m, hm, htakes e he m c w reply ra hm hinput hcall hsuccess hkind⟩

lemma guarded_context (inputs : List Input) (h : UInt32) :
    Guarded (Succeeds (Call.TakesContext h)) (Succeeds (Call.DisposesContext h))
      (Succeeds (Call.DeliversContext h))
      (history (moduleStep C key) (some Modules.init) inputs) := by
  intro pre e post heq hevent
  have he : e ∈ history (moduleStep C key) (some Modules.init) inputs := by simp [heq]
  obtain ⟨m, c, w, reply, ra, -, -, hcall, hsuccess, hkind⟩ := exists_of_succeeds he hevent
  obtain ⟨-, rfl⟩ := taken_of_takesContext hcall hsuccess hkind
  refine guarded_of_slot RaState.isRaContextAvailable rfl ?_ ?_ pre e post heq hevent
  · rintro e - m c w reply ra - - hcall htaken
    rcases contextSlot_of_wasiCall hcall with
      ⟨x, y, n, rfl, -, -, hsuccess⟩ | ⟨-, -, havail, -⟩ | ⟨hsame, hother⟩
    · exact .inl ⟨hsuccess, rfl⟩
    · rw [htaken] at havail
      cases havail
    · refine .inr ⟨hsame ▸ htaken, fun hsuccess hkind => ?_⟩
      cases c <;> simp only [Call.DisposesContext] at hkind
      exact (hother hsuccess).2 _ rfl
  · rintro e - m c w reply ra - - hcall hsuccess hkind
    exact (taken_of_takesContext hcall hsuccess hkind).1

lemma guarded_quote
    (htrust : ∀ e ∈ history (moduleStep C key) (some Modules.init) inputs, ∀ m c w,
      e.before = some m → e.input = .call c w → QuoteSlotTrusted m w c) (h : UInt32) :
    Guarded (Succeeds (Call.TakesQuote h)) (Succeeds (Call.DisposesQuote h))
      (Succeeds (Call.DeliversQuote h))
      (history (moduleStep C key) (some Modules.init) inputs) := by
  intro pre e post heq hevent
  have he : e ∈ history (moduleStep C key) (some Modules.init) inputs := by simp [heq]
  obtain ⟨m, c, w, reply, ra, -, -, hcall, hsuccess, hkind⟩ := exists_of_succeeds he hevent
  obtain ⟨-, rfl⟩ := taken_of_takesQuote hcall hsuccess hkind
  refine guarded_of_slot RaState.isRaQuoteAvailable rfl ?_ ?_ pre e post heq hevent
  · rintro e he m c w reply ra hm hinput hcall htaken
    rcases quoteSlot_of_wasiCall hcall with
      ⟨a, n, rfl, hbefore, -, hiff, -⟩ | ⟨-, -, havail, -⟩ | ⟨hsame, -, -, -, hother⟩
    · exact .inl ⟨hiff.mpr (htrust e he m _ w hm hinput rfl hbefore), rfl⟩
    · rw [htaken] at havail
      cases havail
    · refine .inr ⟨hsame ▸ htaken, fun hsuccess hkind => ?_⟩
      cases c <;> simp only [Call.DisposesQuote] at hkind
      exact (hother hsuccess).2 _ rfl
  · rintro e he m c w reply ra hm hinput hcall hsuccess hkind
    by_cases hsend : ∃ hc q, c = .sendQuote hc q
    · obtain ⟨hc, q, rfl⟩ := hsend
      exact htrust e he m _ w hm hinput
    · exact (taken_of_takesQuote hcall hsuccess hkind).1 fun hc q hcq => hsend ⟨hc, q, hcq⟩

end

/-- In every history in which a collection that finds the slot of the quote available does not
fail, and a quote is sent only while that slot is taken, the operations on handles succeed only
on live ones. -/
theorem handles_live (C : Crypto) (key : Pta.AttestationKey) (inputs : List Input)
    (htrust : ∀ e ∈ history (moduleStep C key) (some Modules.init) inputs, ∀ m c w,
      e.before = some m → e.input = .call c w → QuoteSlotTrusted m w c) :
    HandlesLive (history (moduleStep C key) (some Modules.init) inputs) := fun h =>
  ⟨guarded_quote htrust h, guarded_context inputs h⟩

/-- A module that shakes hands, collects a quote and sends it. -/
theorem handles_live_sample :
    HandlesLive (history (moduleStep Crypto.sample sampleKey) (some Modules.init)
      [.call sampleHandshake.1 sampleHandshake.2,
        .call (.collectQuote (Bytes.zero 32) 32 true) (sampleWorld []),
        .call (.sendQuote 0 0) (sampleWorld [])]) := by
  refine handles_live _ _ _ ?_
  have hflag : (moduleStep Crypto.sample sampleKey (moduleStep Crypto.sample sampleKey
      (some Modules.init) (.call sampleHandshake.1 sampleHandshake.2)).2
      (.call (.collectQuote (Bytes.zero 32) 32 true) (sampleWorld []))).2.map
        (fun m => m.ra.isRaQuoteAvailable) = some false := by decide +kernel
  intro e he m c w hm hinput
  simp only [history, List.mem_cons, List.not_mem_nil, or_false] at he
  rcases he with rfl | rfl | rfl
  · cases hinput
    trivial
  · cases hinput
    have hcalm : (sampleWorld []).env.AllOk := fun _ => rfl
    have hcalm' : (sampleWorld []).ptaEnv.AllOk := fun _ => rfl
    exact fun _ _ => ⟨fun _ => hcalm.ok _ _, hcalm.ok _ _, fun _ => le_rfl,
      fun _ => hcalm'.ok _ _, fun _ => hcalm'.ok _ _⟩
  · cases hinput
    dsimp only at hm
    rw [hm] at hflag
    exact Option.some.inj hflag

/-- A quote is sent after a handshake, although none has ever been collected. -/
theorem sent_without_collect :
    ¬ HandlesLive (history (moduleStep Crypto.sample sampleKey) (some Modules.init)
      [.call sampleHandshake.1 sampleHandshake.2, .call (.sendQuote 0 0) (sampleWorld [])]) := by
  intro hlive
  have houtput : (moduleStep Crypto.sample sampleKey (finalState
      (moduleStep Crypto.sample sampleKey) (some Modules.init)
      [.call sampleHandshake.1 sampleHandshake.2])
      (.call (.sendQuote 0 0) (sampleWorld []))).1 = some (.of .success) := by decide +kernel
  have hsend : Succeeds (Call.TakesQuote 0) ⟨finalState (moduleStep Crypto.sample sampleKey)
      (some Modules.init) [.call sampleHandshake.1 sampleHandshake.2],
      .call (.sendQuote 0 0) (sampleWorld []), some (.of .success)⟩ :=
    ⟨.sendQuote 0 0, sampleWorld [], .of .success, rfl, rfl, rfl, rfl⟩
  rw [← houtput] at hsend
  obtain ⟨pre, a, post, heq, ⟨c, w, reply, hinput, -, -, hkind⟩, -⟩ :=
    (hlive 0).1 _ _ []
      (history_concat _ [Input.call sampleHandshake.1 sampleHandshake.2] _) hsend
  have hmem : a ∈ pre ++ a :: post := by simp
  rw [← heq] at hmem
  have hcall := List.mem_singleton.mp (input_mem_of_mem_history hmem)
  rw [hinput] at hcall
  cases hcall
  exact hkind

end Watz.Attester
