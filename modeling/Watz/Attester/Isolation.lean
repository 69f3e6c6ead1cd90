import Watz.Attester.Wasi

/-!
# Modules that run one after the other

The context and the quote of `ra_wasi.c` outlive the module that took them: `TA_RunWasm` tears
down the Wasm runtime only.  This file runs modules one after the other and keeps, beside the
variables of the code, which run has taken the context and the quote.  If every run starts with
both of them free, no module reaches what another one has taken.
-/

namespace Watz.Attester

open Lib

/-! ## Runs -/

/-- A step of the application: `COMMAND_RUN_WASM` starts the next module, given by the hash of
its bytecode, or the running module makes a call.  A module may end after any of its calls. -/
inductive Input where
  | runWasm (wasmBytecodeHash : Bytes 32)
  | call (c : Call) (w : World)

/-- The variables of the application, with the number of the current run and the runs that have
taken the context and the quote. -/
structure Modules where
  run : ℕ
  wasmBytecodeHash : Bytes 32
  ra : RaState
  contextOwner : Option ℕ
  quoteOwner : Option ℕ

/-- The application before its first module. -/
def Modules.init : Modules := ⟨0, Bytes.zero 32, RaState.init, none, none⟩

/-- Who owns a slot after a call, given whether it was available before and after. -/
def nextOwner (run : ℕ) (owner : Option ℕ) : Bool → Bool → Option ℕ
  | true, false => some run
  | false, true => none
  | _, _ => owner

/-- A call of the running module, from the variables it leaves. -/
def Modules.afterCall (m : Modules) (ra : RaState) : Modules where
  run := m.run
  wasmBytecodeHash := m.wasmBytecodeHash
  ra := ra
  contextOwner :=
    nextOwner m.run m.contextOwner m.ra.isRaContextAvailable ra.isRaContextAvailable
  quoteOwner := nextOwner m.run m.quoteOwner m.ra.isRaQuoteAvailable ra.isRaQuoteAvailable

/-- The next module.  `TA_RunWasm` sets up the runtime for it and leaves `ra_wasi.c` alone. -/
def Modules.next (m : Modules) (wasmBytecodeHash : Bytes 32) : Modules :=
  { m with run := m.run + 1, wasmBytecodeHash := wasmBytecodeHash }

/-- One step.  The state `none` is that of an application that has panicked. -/
def moduleStep (C : Crypto) (key : Pta.AttestationKey) :
    Option Modules → Input → Option Reply × Option Modules
  | none, _ => (none, none)
  | some m, .runWasm hash => (none, some (m.next hash))
  | some m, .call c w =>
    match wasiCall C key w m.wasmBytecodeHash c m.ra with
    | none => (none, none)
    | some (reply, ra) => (some reply, some (m.afterCall ra))

/-- A run of a module: the hash of its bytecode and the calls it makes until it ends. -/
structure Module where
  wasmBytecodeHash : Bytes 32
  calls : List (Call × World)

/-- The steps of a run. -/
def Module.inputs (m : Module) : List Input :=
  .runWasm m.wasmBytecodeHash :: m.calls.map fun p => .call p.1 p.2

/-- The history of the application when it runs modules one after the other. -/
abbrev moduleRuns (C : Crypto) (key : Pta.AttestationKey) (modules : List Module) :
    List (Entry (Option Modules) Input (Option Reply)) :=
  history (moduleStep C key) (some Modules.init) (modules.flatMap Module.inputs)

/-! ## Isolation -/

/-- The call gets as far as the context. -/
def Call.ReachesContext (s : RaState) : Call → Prop
  | .sendQuote h q => s.isRaContextAvailable = false ∧ h = 0 ∧ q = 0
  | .receiveData h _ ok ok' =>
    ok = true ∧ ok' = true ∧ s.isRaContextAvailable = false ∧ h = 0
  | .dispose h => s.isRaContextAvailable = false ∧ h = 0
  | _ => False

/-- The call gets as far as the quote. -/
def Call.ReachesQuote (s : RaState) : Call → Prop
  | .disposeQuote h => s.isRaQuoteAvailable = false ∧ h = 0
  | .sendQuote h q => s.isRaContextAvailable = false ∧ h = 0 ∧ q = 0
  | _ => False

/-- The call reaches nothing of another run: the context it works on was taken by this run, and
so was the quote, unless it is blank. -/
def Isolated (m : Modules) (c : Call) : Prop :=
  (c.ReachesContext m.ra → m.contextOwner = some m.run)
    ∧ (c.ReachesQuote m.ra → m.quoteOwner = some m.run ∨ m.ra.raQuoteSingleton = Quote.zero)

/-- Every call of the history is isolated. -/
def Isolation (l : List (Entry (Option Modules) Input (Option Reply))) : Prop :=
  ∀ e ∈ l, ∀ m c w, e.before = some m → e.input = .call c w → Isolated m c

/-- Whether a module that makes a call may hold the context after it, given whether it may have
held it before. -/
def Call.holdsContext (held : Bool) : Call → Bool
  | .handshake _ _ _ _ => true
  | .dispose h => if h = 0 then false else held
  | _ => held

/-- The same for the quote. -/
def Call.holdsQuote (held : Bool) : Call → Bool
  | .collectQuote _ _ _ => true
  | .disposeQuote h => if h = 0 then false else held
  | _ => held

/-- The module disposes of what it has asked for: a `wasi_ra_net_dispose` of the context follows
its last handshake, and a `wasi_ra_net_dispose_quote` of the quote its last
`wasi_ra_collect_quote`. -/
def Module.Tidy (m : Module) : Prop :=
  m.calls.foldl (fun held p => p.1.holdsContext held) false = false
    ∧ m.calls.foldl (fun held p => p.1.holdsQuote held) false = false

instance (m : Module) : Decidable m.Tidy := inferInstanceAs (Decidable (_ ∧ _))

section

variable {C : Crypto} {key : Pta.AttestationKey} {w : World} {hash : Bytes 32} {c : Call}
  {s s' : RaState} {reply : Reply}

/-- A call that reaches neither the context nor the quote of the application, and makes neither,
fails and changes nothing; so a call on a handle succeeds only if it reaches what is behind it. -/
lemma wasiCall_of_not_reaches (h : wasiCall C key w hash c s = some (reply, s'))
    (hcontext : ¬ c.ReachesContext s) (hquote : ¬ c.ReachesQuote s)
    (hmake : (∀ a n b, c ≠ .collectQuote a n b) ∧ ∀ x y n b, c ≠ .handshake x y n b) :
    reply.result ≠ .success ∧ s' = s := by
  cases c with
  | collectQuote a n b => exact absurd rfl (hmake.1 a n b)
  | handshake x y n b => exact absurd rfl (hmake.2 x y n b)
  | disposeQuote h =>
    simp only [wasiCall, wasiRaNetDisposeQuote, Call.ReachesQuote] at h hquote
    grind -ring -linarith [Reply.of]
  | sendQuote h q =>
    simp only [wasiCall, wasiRaNetSendQuote, Call.ReachesQuote] at h hquote
    grind -ring -linarith [Reply.of]
  | receiveData h n ok ok' =>
    simp only [wasiCall, wasiRaNetReceiveData, Call.ReachesContext] at h hcontext
    grind -ring -linarith [Reply.of]
  | dispose h =>
    simp only [wasiCall, wasiRaNetDispose, Call.ReachesContext] at h hcontext
    grind -ring -linarith [Reply.of]

lemma raQuoteDispose_quote {q q' : QuoteState} {u : Unit} (h : raQuoteDispose q = .ok u q') :
    q'.quote = Quote.zero := by
  obtain ⟨_, t, -, hmod⟩ := bind_eq_ok.mp h
  rw [← modify_eq_ok.mp hmod]

lemma raQuoteDispose_ne_error {q q' : QuoteState} {e : TeeError} :
    raQuoteDispose q ≠ .error (.error e) q' := by
  obtain ⟨session, quote⟩ := q
  intro h
  cases session <;> cases h

lemma raNetDispose_ne_error {t t' : State} {stop : Stop} : raNetDispose t ≠ .error stop t' := by
  intro h
  cases h

lemma quote_of_wasiCall (h : wasiCall C key w hash c s = some (reply, s'))
    (havail : s'.isRaQuoteAvailable = true) :
    s.isRaQuoteAvailable = true ∧ s'.raQuoteSingleton = s.raQuoteSingleton
      ∨ s'.raQuoteSingleton = Quote.zero := by
  cases c with
  | collectQuote a n b =>
    simp only [wasiCall, wasiRaCollectQuote] at h
    grind -ring -linarith
  | handshake x y n b =>
    simp only [wasiCall, wasiRaNetHandshake] at h
    grind -ring -linarith
  | disposeQuote hq =>
    simp only [wasiCall, wasiRaNetDisposeQuote] at h
    grind -ring -linarith [raQuoteDispose_quote]
  | sendQuote hc hq =>
    simp only [wasiCall, wasiRaNetSendQuote] at h
    grind -ring -linarith
  | receiveData hc n ok ok' =>
    simp only [wasiCall, wasiRaNetReceiveData] at h
    grind -ring -linarith
  | dispose hc =>
    simp only [wasiCall, wasiRaNetDispose] at h
    grind -ring -linarith

lemma held_of_wasiCall {heldContext heldQuote : Bool}
    (h : wasiCall C key w hash c s = some (reply, s'))
    (hcontext : s.isRaContextAvailable = false → heldContext = true)
    (hquote : s.isRaQuoteAvailable = false → heldQuote = true) :
    (s'.isRaContextAvailable = false → c.holdsContext heldContext = true)
      ∧ (s'.isRaQuoteAvailable = false → c.holdsQuote heldQuote = true) := by
  cases c with
  | collectQuote a n b =>
    simp only [wasiCall, wasiRaCollectQuote, Call.holdsContext, Call.holdsQuote] at h ⊢
    grind -ring -linarith
  | handshake x y n b =>
    simp only [wasiCall, wasiRaNetHandshake, Call.holdsContext, Call.holdsQuote] at h ⊢
    grind -ring -linarith
  | disposeQuote hq =>
    simp only [wasiCall, wasiRaNetDisposeQuote, Call.holdsContext, Call.holdsQuote] at h ⊢
    grind -ring -linarith [raQuoteDispose_ne_error]
  | sendQuote hc hq =>
    simp only [wasiCall, wasiRaNetSendQuote, Call.holdsContext, Call.holdsQuote] at h ⊢
    grind -ring -linarith
  | receiveData hc n ok ok' =>
    simp only [wasiCall, wasiRaNetReceiveData, Call.holdsContext, Call.holdsQuote] at h ⊢
    grind -ring -linarith
  | dispose hc =>
    simp only [wasiCall, wasiRaNetDispose, Call.holdsContext, Call.holdsQuote] at h ⊢
    grind -ring -linarith [raNetDispose_ne_error]

end

section

variable {C : Crypto} {key : Pta.AttestationKey}

/-- What is taken belongs to the current run, and a quote that is not taken is blank. -/
structure Owned (m : Modules) : Prop where
  context : m.ra.isRaContextAvailable = false → m.contextOwner = some m.run
  quote : m.ra.isRaQuoteAvailable = false → m.quoteOwner = some m.run
  blank : m.ra.isRaQuoteAvailable = true → m.ra.raQuoteSingleton = Quote.zero

lemma Owned.isolated {m : Modules} (h : Owned m) (c : Call) : Isolated m c := by
  constructor
  · intro hreach
    refine h.context ?_
    cases c <;> simp_all [Call.ReachesContext]
  · intro _
    cases hq : m.ra.isRaQuoteAvailable with
    | false => exact .inl (h.quote hq)
    | true => exact .inr (h.blank hq)

lemma nextOwner_of_taken {run : ℕ} {owner : Option ℕ} {before : Bool}
    (h : before = false → owner = some run) : nextOwner run owner before false = some run := by
  cases before with
  | false => exact h rfl
  | true => rfl

lemma Owned.afterCall {m : Modules} (h : Owned m) {c : Call} {w : World} {reply : Reply}
    {ra : RaState} (hcall : wasiCall C key w m.wasmBytecodeHash c m.ra = some (reply, ra)) :
    Owned (m.afterCall ra) where
  context hc := by
    change nextOwner _ _ _ ra.isRaContextAvailable = _
    rw [show ra.isRaContextAvailable = false from hc]
    exact nextOwner_of_taken h.context
  quote hq := by
    change nextOwner _ _ _ ra.isRaQuoteAvailable = _
    rw [show ra.isRaQuoteAvailable = false from hq]
    exact nextOwner_of_taken h.quote
  blank hq := by
    rcases quote_of_wasiCall hcall hq with ⟨havail, heq⟩ | hzero
    · exact heq.trans (h.blank havail)
    · exact hzero

/-- The module may hold what is taken. -/
def MayHold (heldContext heldQuote : Bool) (m : Modules) : Prop :=
  (m.ra.isRaContextAvailable = false → heldContext = true)
    ∧ (m.ra.isRaQuoteAvailable = false → heldQuote = true)

lemma Owned.next {m : Modules} (h : Owned m) (hheld : MayHold false false m) (hash : Bytes 32) :
    Owned (m.next hash) where
  context hc := absurd (hheld.1 hc) (by decide)
  quote hq := absurd (hheld.2 hq) (by decide)
  blank := h.blank

lemma isolation_nil : Isolation [] := by
  intro e he
  cases he

lemma isolation_cons {e : Entry (Option Modules) Input (Option Reply)}
    {l : List (Entry (Option Modules) Input (Option Reply))}
    (he : ∀ m c w, e.before = some m → e.input = .call c w → Isolated m c) (hl : Isolation l) :
    Isolation (e :: l) :=
  List.forall_mem_cons.mpr ⟨he, hl⟩

variable (C key)

lemma run_of_none (inputs : List Input) :
    Isolation (history (moduleStep C key) none inputs)
      ∧ finalState (moduleStep C key) none inputs = none := by
  induction inputs with
  | nil => exact ⟨isolation_nil, rfl⟩
  | cons i inputs ih =>
    refine ⟨isolation_cons ?_ ih.1, ih.2⟩
    intro m c w hbefore
    cases hbefore

/-- The calls of one module: they are isolated, and they leave behind what the module may
hold. -/
lemma calls_isolated (calls : List (Call × World)) {m : Modules} (h : Owned m) {hc hq : Bool}
    (hheld : MayHold hc hq m) :
    Isolation (history (moduleStep C key) (some m) (calls.map fun p => .call p.1 p.2))
      ∧ ∀ m', finalState (moduleStep C key) (some m) (calls.map fun p => .call p.1 p.2) = some m' →
        Owned m' ∧ MayHold (calls.foldl (fun held p => p.1.holdsContext held) hc)
          (calls.foldl (fun held p => p.1.holdsQuote held) hq) m' := by
  induction calls generalizing m hc hq with
  | nil =>
    refine ⟨isolation_nil, ?_⟩
    rintro m' ⟨⟩
    exact ⟨h, hheld⟩
  | cons p calls ih =>
    have hhead : ∀ n c w, some m = some n → Input.call p.1 p.2 = .call c w → Isolated n c := by
      rintro n c w ⟨⟩ ⟨⟩
      exact h.isolated _
    cases hcall : wasiCall C key p.2 m.wasmBytecodeHash p.1 m.ra with
    | none =>
      have hstep : moduleStep C key (some m) (.call p.1 p.2) = (none, none) := by
        simp only [moduleStep, hcall]
      obtain ⟨hdead, hfinal⟩ := run_of_none C key
        (calls.map fun p => .call p.1 p.2)
      simp only [List.map_cons, history, finalState, hstep, hfinal]
      exact ⟨isolation_cons hhead hdead, fun m' hm' => by cases hm'⟩
    | some out =>
      obtain ⟨reply, ra⟩ := out
      have hstep : moduleStep C key (some m) (.call p.1 p.2)
          = (some reply, some (m.afterCall ra)) := by
        simp only [moduleStep, hcall]
      obtain ⟨hrest, hfinal⟩ := ih (h.afterCall hcall)
        (held_of_wasiCall hcall hheld.1 hheld.2)
      simp only [List.map_cons, history, finalState, hstep]
      exact ⟨isolation_cons hhead hrest, hfinal⟩

lemma modules_isolated (modules : List Module) (htidy : ∀ m ∈ modules.dropLast, m.Tidy)
    {m : Modules} (h : Owned m) (hheld : MayHold false false m) :
    Isolation (history (moduleStep C key) (some m) (modules.flatMap Module.inputs)) := by
  induction modules generalizing m with
  | nil => exact isolation_nil
  | cons mod modules ih =>
    obtain ⟨hcalls, hfinal⟩ := calls_isolated C key mod.calls
      (h.next hheld mod.wasmBytecodeHash) (hheld : MayHold false false (m.next _))
    have hhead : ∀ n c w, some m = some n → Input.runWasm mod.wasmBytecodeHash = .call c w →
        Isolated n c := fun n c w _ hinput => nomatch hinput
    rw [List.flatMap_cons, history_append]
    refine List.forall_mem_append.mpr ⟨isolation_cons hhead hcalls, ?_⟩
    cases modules with
    | nil => exact isolation_nil
    | cons mod' modules =>
      rw [List.dropLast_cons_cons, List.forall_mem_cons] at htidy
      change Isolation (history _ (finalState _ (some (m.next _)) _) _)
      cases hend : finalState (moduleStep C key) (some (m.next mod.wasmBytecodeHash))
          (mod.calls.map fun p => .call p.1 p.2) with
      | none => exact (run_of_none C key _).1
      | some m' =>
        obtain ⟨howned, hheld'⟩ := hfinal m' hend
        rw [htidy.1.1, htidy.1.2] at hheld'
        exact ih htidy.2 howned hheld'

end

/-- Modules that run one after the other in one application are isolated from each other, if each
module but the last disposes of the context and the quote it has asked for. -/
theorem isolation_of_tidy (C : Crypto) (key : Pta.AttestationKey) (modules : List Module)
    (htidy : ∀ m ∈ modules.dropLast, m.Tidy) : Isolation (moduleRuns C key modules) := by
  have howned : Owned Modules.init := ⟨nofun, nofun, fun _ => rfl⟩
  exact modules_isolated C key modules htidy howned ⟨nofun, nofun⟩

/-- A key for concrete runs. -/
def sampleKey : Pta.AttestationKey := ⟨5, Bytes.zero 65⟩

/-- A world in which every call succeeds and the network delivers the given data. -/
def sampleWorld (inbox : List (List UInt8)) : World :=
  ⟨{ Env.calm Fn 7 with inbox := inbox.map .ok }, Env.calm Pta.Fn 0, []⟩

/-- A handshake that accepts any key of the verifier, with an answer of the network that
`Crypto.sample` takes for genuine. -/
def sampleHandshake : Call × World :=
  (.handshake [] [] 32 true,
    sampleWorld [Msg1.layout.enc { Msg1.zero with ecdhSignature := Bytes.slice 64 [7, 8] }])

/-- Two runs: the first module makes a handshake and then the given calls, the second one sends a
quote through the context with the handle 0. -/
def sampleModules (calls : List (Call × World)) : List Module :=
  [⟨Bytes.zero 32, sampleHandshake :: calls⟩,
    ⟨Bytes.slice 32 [1], [(.sendQuote 0 0, sampleWorld [])]⟩]

/-- The first module disposes of its context before the second one runs. -/
theorem isolation_of_tidy_sample :
    Isolation (moduleRuns Crypto.sample sampleKey
      (sampleModules [(.dispose 0, sampleWorld [])])) :=
  isolation_of_tidy Crypto.sample sampleKey _ (by decide +kernel)

/-- The steps of these runs before the call of the second module, if the first one makes no
further call. -/
def sampleInputs : List Input :=
  [.runWasm (Bytes.zero 32), .call sampleHandshake.1 sampleHandshake.2,
    .runWasm (Bytes.slice 32 [1])]

/-- A module that ends without disposing leaves its context to the next one, which can send
through it. -/
theorem send_through_foreign_context :
    ∃ e ∈ moduleRuns Crypto.sample sampleKey (sampleModules []), ∃ m,
      e.before = some m ∧ m.run = 2 ∧ m.contextOwner = some 1
        ∧ e.input = .call (.sendQuote 0 0) (sampleWorld []) ∧ e.output = some (.of .success)
        ∧ ¬ Isolated m (.sendQuote 0 0) := by
  have hbefore : (finalState (moduleStep Crypto.sample sampleKey) (some Modules.init)
      sampleInputs).map (fun m => (m.run, m.contextOwner, m.ra.isRaContextAvailable))
      = some (2, some 1, false) := by decide +kernel
  have houtput : (moduleStep Crypto.sample sampleKey (finalState
      (moduleStep Crypto.sample sampleKey) (some Modules.init) sampleInputs)
      (.call (.sendQuote 0 0) (sampleWorld []))).1 = some (.of .success) := by decide +kernel
  obtain ⟨m, hm, hdata⟩ := Option.map_eq_some_iff.mp hbefore
  obtain ⟨hrun, howner, hcontext⟩ : m.run = 2 ∧ m.contextOwner = some 1
      ∧ m.ra.isRaContextAvailable = false := by simpa using hdata
  have hmem : _ ∈ history (moduleStep Crypto.sample sampleKey) (some Modules.init)
      (sampleInputs ++ [.call (.sendQuote 0 0) (sampleWorld [])]) :=
    mem_history _ sampleInputs [] _
  rw [houtput, hm] at hmem
  refine ⟨_, hmem, m, rfl, hrun, howner, rfl, rfl, ?_⟩
  intro hiso
  have h := hiso.1 ⟨hcontext, rfl, rfl⟩
  rw [howner, hrun] at h
  exact absurd h (by decide)

end Watz.Attester
