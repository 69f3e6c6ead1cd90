import Watz.Attester.Isolation

/-!
# The runs of Wasm modules

`TA_RunWasm` measures the bytecode, sets up the Wasm runtime, lets it load and instantiate the
module and calls its entry point.  `wasi_ra_collect_quote` takes the measurement from
`singleton_wamr_context`, which is set when the module has been instantiated.  Instantiation can
already run code of the module: `__post_instantiate`, the start function and
`__wasm_call_ctors`.  This file says at which of its calls a module finds its own measurement.
-/

namespace Watz.Attester

open Lib

/-! ## The program -/

/-- The functions of `main.c` and `wasm.c` with calls that can fail. -/
inductive RuntimeFn where
  | taRunWasm
  | taHashWasmBytecode
deriving DecidableEq

/-- The calls of each function. -/
def RuntimeFn.sites : RuntimeFn → List (Api × ℕ)
  | taRunWasm => [(.malloc, 1)]
  | taHashWasmBytecode => [(.allocateOperation, 0), (.digestDoFinal, 0)]

/-- `wamr_context`, which lives on the stack of one `TA_RunWasm`. -/
structure WamrContext where
  /-- Which of the runs it belongs to. -/
  run : ℕ
  wasmBytecode : List UInt8
  wasmBytecodeHash : Bytes 32

/-- A call of a module: the run it is made in, the bytes given to `wasm_runtime_load` in this run
and the value of `singleton_wamr_context`. -/
structure Moment where
  run : ℕ
  loaded : List UInt8
  singletonWamrContext : Option WamrContext

/-- The variables of the application, and the calls the modules of the current run have made. -/
structure Ta where
  run : ℕ
  loaded : List UInt8
  singletonWamrContext : Option WamrContext
  ra : RaState
  moments : List Moment

/-- A call is noted. -/
def Ta.note (s : Ta) : Ta :=
  { s with moments := s.moments ++ [⟨s.run, s.loaded, s.singletonWamrContext⟩] }

/-- The application before its first run. -/
def Ta.init : Ta := ⟨0, [], none, RaState.init, []⟩

/-- A module: its bytecode, what the runtime makes of it and the calls its code makes, during
instantiation and from its entry point. -/
structure Guest where
  wasmBytecode : List UInt8
  wasmRuntimeFullInit : Bool
  wasmRuntimeLoad : Bool
  instantiation : List (Call × World)
  wasmRuntimeInstantiate : Bool
  main : List (Call × World)
  wasmApplicationExecuteMain : Bool

section

variable (C : Crypto) (key : Pta.AttestationKey) (env : Env RuntimeFn)

/-- A call of a module, given the hash behind `singleton_wamr_context`.  If the pointer is null,
a quote cannot be collected: the address of the hash is not one of the application, and
`TEE_InvokeTACommand` panics once the session is there. -/
def nativeCall (w : World) (hash : Option (Bytes 32)) (c : Call) (s : RaState) :
    Option (Reply × RaState) :=
  match hash, c with
  | some hash, c => wasiCall C key w hash c s
  | none, .collectQuote anchor anchorSize ok =>
    match ensureAttestationServiceUp w.env ⟨s.attestationSession, s.raQuoteSingleton⟩ with
    | .ok _ _ =>
      if ok = true ∧ s.isRaQuoteAvailable = true then none
      else wasiRaCollectQuote C key w (Bytes.zero 32) anchor anchorSize ok s
    | .error _ _ => wasiRaCollectQuote C key w (Bytes.zero 32) anchor anchorSize ok s
  | none, c => wasiCall C key w (Bytes.zero 32) c s

/-- One call of the code of a module. -/
def callNative (p : Call × World) : EStateM Stop Ta Unit := do
  modify Ta.note
  let s ← get
  match nativeCall C key p.2 (s.singletonWamrContext.map WamrContext.wasmBytecodeHash) p.1 s.ra with
  | none => throw .panic
  | some (_, ra) => modify fun s => { s with ra := ra }

/-- The code of a module makes its calls. -/
def executeCode : List (Call × World) → EStateM Stop Ta Unit
  | [] => pure ()
  | p :: calls => do
    callNative C key p
    executeCode calls

/-- `TA_HashWasmBytecode`. -/
def taHashWasmBytecode (wasmBytecode : List UInt8) : EStateM Stop Ta (Bytes 32) := do
  tee env .taHashWasmBytecode .allocateOperation 0
  tee env .taHashWasmBytecode .digestDoFinal 0
  pure (C.sha256 wasmBytecode)

/-- `TA_InitializeWamrRuntime`. -/
def taInitializeWamrRuntime (g : Guest) (context : WamrContext) : EStateM Stop Ta Unit := do
  failIf (g.wasmRuntimeFullInit = false) (.error .generic)
  modify fun s => { s with loaded := context.wasmBytecode }
  failIf (g.wasmRuntimeLoad = false) (.error .generic)
  executeCode C key g.instantiation
  failIf (g.wasmRuntimeInstantiate = false) (.error .generic)
  modify fun s => { s with singletonWamrContext := some context }

/-- `TA_ExecuteWamrRuntime`. -/
def taExecuteWamrRuntime (g : Guest) : EStateM Stop Ta Unit := do
  executeCode C key g.main
  failIf (g.wasmApplicationExecuteMain = false) (.error .generic)

/-- `TA_TearDownWamrRuntime`. -/
def taTearDownWamrRuntime (s : Ta) : Ta := { s with singletonWamrContext := none }

/-- `TA_RunWasm` up to the label `error`. -/
def runWasmBody (g : Guest) : EStateM Stop Ta Unit := do
  modify fun s => { s with run := s.run + 1, moments := [] }
  -- the bytecode is moved to memory of the application
  teeVoid env .taRunWasm .malloc 1
  let hash ← taHashWasmBytecode C env g.wasmBytecode
  let s ← get
  taInitializeWamrRuntime C key g ⟨s.run, g.wasmBytecode, hash⟩
  taExecuteWamrRuntime C key g

/-- `TA_RunWasm`: the runtime is torn down however the body ends. -/
def taRunWasm (g : Guest) : EStateM Stop Ta Unit := fun s =>
  match runWasmBody C key env g s with
  | .ok u s' => .ok u (taTearDownWamrRuntime s')
  | .error (.error e) s' => .error (.error e) (taTearDownWamrRuntime s')
  | .error .panic s' => .error .panic s'

end

/-- The application after some runs; `none` if one of them has ended in a panic. -/
def runSession (C : Crypto) (key : Pta.AttestationKey) :
    List (Env RuntimeFn × Guest) → Ta → Option Ta
  | [], s => some s
  | (env, g) :: runs, s =>
    match taRunWasm C key env g s with
    | .error .panic _ => none
    | r => runSession C key runs (final r)

/-! ## The measurement of the running module -/

/-- The call finds the context of its own module, with the hash of the bytes that were loaded. -/
def Moment.Measured (C : Crypto) (mo : Moment) : Prop :=
  ∃ context, mo.singletonWamrContext = some context ∧ context.run = mo.run
    ∧ context.wasmBytecode = mo.loaded ∧ context.wasmBytecodeHash = C.sha256 mo.loaded

section

variable {C : Crypto} {key : Pta.AttestationKey} {env : Env RuntimeFn} {g : Guest} {s t : Ta}

lemma moments_taRunWasm :
    (final (taRunWasm C key env g s)).moments = (final (runWasmBody C key env g s)).moments := by
  rw [taRunWasm]
  cases runWasmBody C key env g s with
  | ok u t => rfl
  | error stop t => cases stop <;> rfl

lemma singleton_runSession {runs : List (Env RuntimeFn × Guest)}
    (hs : s.singletonWamrContext = none) (h : runSession C key runs s = some t) :
    t.singletonWamrContext = none := by
  induction runs generalizing s with
  | nil =>
    cases h
    exact hs
  | cons p runs ih =>
    obtain ⟨env, g⟩ := p
    rw [runSession, taRunWasm] at h
    cases hbody : runWasmBody C key env g s with
    | ok u t' =>
      rw [hbody] at h
      exact ih rfl h
    | error stop t' =>
      rw [hbody] at h
      cases stop with
      | panic => cases h
      | error e => exact ih rfl h

/-- The rule for the code of a module: what survives a call that is noted, and a change of the
variables of `ra_wasi.c`, survives the execution of the code. -/
lemma keeps_executeCode {I : Ta → Prop}
    (hnote : ∀ t, I t → I t.note)
    (hra : ∀ t ra, I t → I { t with ra := ra }) (calls : List (Call × World)) :
    Keeps I (executeCode C key calls) := by
  induction calls with
  | nil => exact Keeps.pure ()
  | cons p calls ih =>
    refine Keeps.bind (Keeps.bind (Keeps.modify hnote) fun _ => ?_) fun _ => ih
    refine Keeps.bind Keeps.get fun t => ?_
    cases nativeCall C key p.2 (t.singletonWamrContext.map WamrContext.wasmBytecodeHash) p.1 t.ra with
    | none => exact Keeps.throw _
    | some out => exact Keeps.modify fun t ht => hra t out.2 ht

/-- All calls so far have found the measurement of their module. -/
def Ta.AllMeasured (C : Crypto) (t : Ta) : Prop := ∀ mo ∈ t.moments, mo.Measured C

/-- The context is the one of the loaded module, and its hash is right. -/
structure Ta.Runs (C : Crypto) (context : WamrContext) (t : Ta) : Prop where
  measured : t.AllMeasured C
  singleton_eq : t.singletonWamrContext = some context
  run_eq : context.run = t.run
  loaded_eq : context.wasmBytecode = t.loaded
  hash_eq : context.wasmBytecodeHash = C.sha256 t.loaded

lemma keeps_runs_executeCode (context : WamrContext) (calls : List (Call × World)) :
    Keeps (Ta.Runs C context) (executeCode C key calls) := by
  refine keeps_executeCode (fun t ht => { ht with measured := fun mo hmo => ?_ })
    (fun t ra ht => ⟨ht.measured, ht.singleton_eq, ht.run_eq, ht.loaded_eq, ht.hash_eq⟩) calls
  rcases List.mem_append.mp hmo with hmo | hmo
  · exact ht.measured mo hmo
  · rw [List.mem_singleton.mp hmo]
    exact ⟨context, ht.singleton_eq, ht.run_eq, ht.loaded_eq, ht.hash_eq⟩

lemma callNative_of_context {context : WamrContext} (ht : t.singletonWamrContext = some context)
    (p : Call × World) :
    callNative C key p t =
      match wasiCall C key p.2 context.wasmBytecodeHash p.1 t.ra with
      | none => .error .panic t.note
      | some (_, ra) => .ok () { t.note with ra := ra } := by
  have hnative : nativeCall C key p.2
      (t.note.singletonWamrContext.map WamrContext.wasmBytecodeHash) p.1 t.note.ra
        = wasiCall C key p.2 context.wasmBytecodeHash p.1 t.ra := by
    rw [show t.note.singletonWamrContext = some context from ht]
    rfl
  rw [callNative, bind_of_ok (modify_eq_ok (u := ()).mpr rfl),
    bind_of_ok (get_eq_ok.mpr ⟨rfl, rfl⟩), hnative]
  cases wasiCall C key p.2 context.wasmBytecodeHash p.1 t.ra <;> rfl

/-- The application after a run; `none` after a panic. -/
def afterRun : EStateM.Result Stop Ta Unit → Option Ta
  | .error .panic _ => none
  | r => some (final r)

lemma runSession_cons (run : Env RuntimeFn × Guest) (runs : List (Env RuntimeFn × Guest)) :
    runSession C key (run :: runs) s
      = (afterRun (taRunWasm C key run.1 run.2 s)).bind (runSession C key runs) := by
  rw [runSession]
  cases taRunWasm C key run.1 run.2 s with
  | ok u t => rfl
  | error stop t => cases stop <;> rfl

lemma ra_executeCode {context : WamrContext} (calls : List (Call × World)) {m : Modules}
    (ht : t.singletonWamrContext = some context) (hra : m.ra = t.ra)
    (hhash : m.wasmBytecodeHash = context.wasmBytecodeHash) :
    (afterRun (executeCode C key calls t)).map Ta.ra
      = (finalState (moduleStep C key) (some m) (calls.map fun p => .call p.1 p.2)).map
        Modules.ra := by
  induction calls generalizing t m with
  | nil =>
    change some t.ra = some m.ra
    rw [hra]
  | cons p calls ih =>
    rw [List.map_cons, finalState, moduleStep, hhash, hra, executeCode]
    cases hwasi : wasiCall C key p.2 context.wasmBytecodeHash p.1 t.ra with
    | none =>
      have hcall : callNative C key p t = .error .panic t.note := by
        rw [callNative_of_context ht p, hwasi]
      rw [bind_of_error hcall, (run_of_none C key _).2]
      rfl
    | some out =>
      have hcall : callNative C key p t = .ok () { t.note with ra := out.2 } := by
        rw [callNative_of_context ht p, hwasi]
      rw [bind_of_ok hcall]
      exact ih ht rfl hhash

/-- The run gets as far as the instantiation of the module. -/
def Instantiates (env : Env RuntimeFn) (g : Guest) : Prop :=
  CallsOk RuntimeFn.sites env [.taRunWasm, .taHashWasmBytecode] ∧ g.wasmRuntimeFullInit = true
    ∧ g.wasmRuntimeLoad = true

/-- The part of the body before the instantiation. -/
def loadModule (C : Crypto) (env : Env RuntimeFn) (g : Guest) : EStateM Stop Ta WamrContext := do
  modify fun s => { s with run := s.run + 1, moments := [] }
  teeVoid env .taRunWasm .malloc 1
  let hash ← taHashWasmBytecode C env g.wasmBytecode
  let s ← get
  failIf (g.wasmRuntimeFullInit = false) (.error .generic)
  modify fun s => { s with loaded := g.wasmBytecode }
  failIf (g.wasmRuntimeLoad = false) (.error .generic)
  pure ⟨s.run, g.wasmBytecode, hash⟩

/-- The part of the body from the instantiation on. -/
def runModule (C : Crypto) (key : Pta.AttestationKey) (g : Guest) (context : WamrContext) :
    EStateM Stop Ta Unit := do
  executeCode C key g.instantiation
  failIf (g.wasmRuntimeInstantiate = false) (.error .generic)
  modify fun s => { s with singletonWamrContext := some context }
  taExecuteWamrRuntime C key g

lemma runWasmBody_eq :
    runWasmBody C key env g = loadModule C env g >>= runModule C key g := by
  simp only [runWasmBody, loadModule, runModule, taInitializeWamrRuntime, bind_assoc, pure_bind]

/-- The context a run makes. -/
def Ta.context (C : Crypto) (s : Ta) (g : Guest) : WamrContext :=
  ⟨s.run + 1, g.wasmBytecode, C.sha256 g.wasmBytecode⟩

/-- The variables when the module is going to be instantiated. -/
def Ta.withModule (s : Ta) (g : Guest) : Ta :=
  { s with run := s.run + 1, moments := [], loaded := g.wasmBytecode }

lemma loadModule_eq_ok {context : WamrContext} :
    loadModule C env g s = .ok context t ↔
      Instantiates env g ∧ s.context C g = context ∧ s.withModule g = t := by
  simp only [loadModule, taHashWasmBytecode, bind_assoc, modify_bind_eq_ok, teeVoid_bind_eq_ok,
    tee_bind_eq_ok, pure_bind, get_bind_eq_ok, failIf_bind_eq_ok, pure_eq_ok, Instantiates,
    callsOk_cons, callsOk_nil, RuntimeFn.sites, Env.ok_cons, Env.ok_nil, Bool.not_eq_false]
  constructor
  · rintro ⟨h1, h2, h3, hinit, hload, hcontext, ht⟩
    exact ⟨⟨⟨⟨h1, trivial⟩, ⟨h2, h3, trivial⟩, trivial⟩, hinit, hload⟩, hcontext, ht⟩
  · rintro ⟨⟨⟨⟨h1, -⟩, ⟨h2, h3, -⟩, -⟩, hinit, hload⟩, hcontext, ht⟩
    exact ⟨h1, h2, h3, hinit, hload, hcontext, ht⟩

/-- Before the instantiation no code of the module runs. -/
lemma moments_loadModule : (final (loadModule C env g s)).moments = [] := by
  have hkeeps : Triple (fun _ : Ta => True) (loadModule C env g) (fun _ t => t.moments = [])
      (fun t => t.moments = []) := by
    refine Triple.bind (Q := fun _ t => t.moments = []) (Triple.modify fun _ _ => rfl) fun _ => ?_
    refine Keeps.bind keeps_teeVoid fun _ => Keeps.bind ?_ fun _ => Keeps.bind Keeps.get fun _ => ?_
    · exact Keeps.bind keeps_tee fun _ => Keeps.bind keeps_tee fun _ => Keeps.pure _
    · refine Keeps.bind (Keeps.failIf _) fun _ => Keeps.bind (Keeps.modify fun _ ht => ht) fun _ => ?_
      exact Keeps.bind (Keeps.failIf _) fun _ => Keeps.pure _
  exact hkeeps.final_of trivial

/-- From its instantiation on, the calls of a module without code that runs then are measured. -/
lemma allMeasured_runModule (h : g.instantiation = []) (s : Ta) :
    (final (runModule C key g (s.context C g) (s.withModule g))).AllMeasured C := by
  have hnone : (s.withModule g).AllMeasured C := nofun
  have hexecute : Triple (Ta.Runs C (s.context C g)) (taExecuteWamrRuntime C key g)
      (fun _ => Ta.AllMeasured C) (Ta.AllMeasured C) := by
    have hkeeps : Keeps (Ta.Runs C (s.context C g)) (taExecuteWamrRuntime C key g) :=
      Keeps.bind (keeps_runs_executeCode _ _) fun _ => Keeps.failIf _
    exact hkeeps.conseq (fun _ ht => ht) (fun _ _ ht => ht.measured) fun _ ht => ht.measured
  have hrun : Triple (fun t => t = s.withModule g) (runModule C key g (s.context C g))
      (fun _ => Ta.AllMeasured C) (Ta.AllMeasured C) := by
    rw [runModule, h]
    refine Triple.bind (Q := fun _ t => t = s.withModule g) (Triple.pure fun _ ht => ht) fun _ => ?_
    refine Triple.bind (Q := fun _ t => t = s.withModule g) ?_ fun _ => ?_
    · exact (Keeps.failIf _).conseq (fun _ ht => ht) (fun _ _ ht => ht) fun _ ht => ht ▸ hnone
    · refine Triple.bind (Triple.modify fun t ht => ?_) fun _ => hexecute
      subst ht
      exact ⟨hnone, rfl, rfl, rfl, rfl⟩
  exact hrun.final_of rfl

/-- The run gets as far as the entry point of the module, which has no code that runs before. -/
def Enters (env : Env RuntimeFn) (g : Guest) : Prop :=
  Instantiates env g ∧ g.instantiation = [] ∧ g.wasmRuntimeInstantiate = true

lemma ra_taRunWasm {m : Modules} (hra : m.ra = s.ra) (henters : Enters env g) :
    (afterRun (taRunWasm C key env g s)).map Ta.ra
      = (finalState (moduleStep C key) (some m)
          (Module.inputs ⟨C.sha256 g.wasmBytecode, g.main⟩)).map Modules.ra := by
  obtain ⟨hinst, hcode, hok⟩ := henters
  have hload : loadModule C env g s = .ok (s.context C g) (s.withModule g) :=
    loadModule_eq_ok.mpr ⟨hinst, rfl, rfl⟩
  have hbody : runWasmBody C key env g s = taExecuteWamrRuntime C key g
      { s.withModule g with singletonWamrContext := some (s.context C g) } := by
    rw [runWasmBody_eq, bind_of_ok hload, runModule, hcode, executeCode, pure_bind,
      failIf_of_neg (by simp [hok]), pure_bind, bind_of_ok (modify_eq_ok (u := ()).mpr rfl)]
  have hcalls : (afterRun (executeCode C key g.main
      { s.withModule g with singletonWamrContext := some (s.context C g) })).map Ta.ra
      = (finalState (moduleStep C key) (some (m.next (C.sha256 g.wasmBytecode)))
        (g.main.map fun p => .call p.1 p.2)).map Modules.ra := ra_executeCode g.main rfl hra rfl
  generalize ({ s.withModule g with singletonWamrContext := some (s.context C g) } : Ta) = t₀
    at hbody hcalls
  change _ = (finalState (moduleStep C key) (some (m.next (C.sha256 g.wasmBytecode))) _).map _
  rw [← hcalls, taRunWasm, hbody, taExecuteWamrRuntime]
  cases hrun : executeCode C key g.main t₀ with
  | ok u t =>
    rw [bind_of_ok hrun]
    by_cases hmain : g.wasmApplicationExecuteMain = false
    · rw [failIf_of_pos hmain]
      rfl
    · rw [failIf_of_neg hmain]
      rfl
  | error stop t =>
    rw [bind_of_error hrun]
    cases stop <;> rfl

/-- The calls of a run are measured, if no code of the module runs while it is instantiated. -/
lemma allMeasured_runWasmBody (h : Instantiates env g → g.instantiation = []) (s : Ta) :
    (final (runWasmBody C key env g s)).AllMeasured C := by
  rw [runWasmBody_eq]
  cases hload : loadModule C env g s with
  | error stop t =>
    have hmoments : (final (loadModule C env g s)).moments = [] := moments_loadModule
    rw [hload] at hmoments
    rw [bind_of_error hload]
    intro mo hmo
    rw [final_error] at hmoments hmo
    rw [hmoments] at hmo
    cases hmo
  | ok context t =>
    obtain ⟨hinst, rfl, rfl⟩ := loadModule_eq_ok.mp hload
    rw [bind_of_ok hload]
    exact allMeasured_runModule (h hinst) s

lemma not_allMeasured_runWasmBody (hs : s.singletonWamrContext = none)
    (hinst : Instantiates env g) (hne : g.instantiation ≠ []) :
    ¬ (final (runWasmBody C key env g s)).AllMeasured C := by
  have hload : loadModule C env g s = .ok (s.context C g) (s.withModule g) :=
    loadModule_eq_ok.mpr ⟨hinst, rfl, rfl⟩
  obtain ⟨p, calls, hcalls⟩ := List.exists_cons_of_ne_nil hne
  let mo : Moment := ⟨s.run + 1, g.wasmBytecode, none⟩
  have hcode : ∀ calls, Keeps (fun t : Ta => mo ∈ t.moments) (executeCode C key calls) :=
    keeps_executeCode (fun t ht => List.mem_append_left _ ht) fun t ra ht => ht
  have hfirst : Triple (fun t => t = s.withModule g) (callNative C key p)
      (fun _ t => mo ∈ t.moments) (fun t => mo ∈ t.moments) := by
    refine Triple.bind (Q := fun _ (t : Ta) => mo ∈ t.moments) (Triple.modify fun t ht => ?_)
      fun _ => Keeps.bind Keeps.get fun t => ?_
    · subst ht
      exact List.mem_append_right _ (by simp [mo, Ta.withModule, hs])
    · cases nativeCall C key p.2 (t.singletonWamrContext.map WamrContext.wasmBytecodeHash) p.1
        t.ra with
      | none => exact Keeps.throw _
      | some out => exact Keeps.modify fun t ht => ht
  have hrest : Keeps (fun t : Ta => mo ∈ t.moments) (taExecuteWamrRuntime C key g) :=
    Keeps.bind (hcode _) fun _ => Keeps.failIf _
  have hrun : Triple (fun t => t = s.withModule g) (runModule C key g (s.context C g))
      (fun _ t => mo ∈ t.moments) (fun t => mo ∈ t.moments) := by
    rw [runModule, hcalls]
    refine Triple.bind (Triple.bind hfirst fun _ => hcode calls) fun _ => ?_
    exact Keeps.bind (Keeps.failIf _) fun _ =>
      Keeps.bind (Keeps.modify fun t ht => ht) fun _ => hrest
  have hmem : mo ∈ (final (runWasmBody C key env g s)).moments := by
    rw [runWasmBody_eq, bind_of_ok hload]
    exact hrun.final_of rfl
  intro hall
  obtain ⟨context, hcontext, -⟩ := hall mo hmem
  cases hcontext

end

/-- After any runs of an application, all calls of the next run find the measurement of the
running module exactly if no code of the module makes a call while it is instantiated. -/
theorem measured_iff (C : Crypto) (key : Pta.AttestationKey)
    (runs : List (Env RuntimeFn × Guest)) (s : Ta) (hs : runSession C key runs Ta.init = some s)
    (env : Env RuntimeFn) (g : Guest) :
    (∀ mo ∈ (final (taRunWasm C key env g s)).moments, mo.Measured C)
      ↔ (Instantiates env g → g.instantiation = []) := by
  rw [moments_taRunWasm]
  constructor
  · intro hall hinst
    by_contra hne
    exact not_allMeasured_runWasmBody (singleton_runSession rfl hs) hinst hne hall
  · exact fun h => allMeasured_runWasmBody h s

/-- A module that asks for a quote from its entry point and, with the given calls, while it is
instantiated. -/
def sampleGuest (instantiation : List (Call × World)) : Guest :=
  ⟨[1, 2], true, true, instantiation, true,
    [(.collectQuote (Bytes.zero 32) 32 true, sampleWorld [])], true⟩

/-- A module whose start function makes no call is measured. -/
theorem measured_iff_sample :
    (final (taRunWasm Crypto.sample sampleKey (Env.calm RuntimeFn 0) (sampleGuest [])
        Ta.init)).moments.length = 1
      ∧ ∀ mo ∈ (final (taRunWasm Crypto.sample sampleKey (Env.calm RuntimeFn 0) (sampleGuest [])
        Ta.init)).moments, mo.Measured Crypto.sample :=
  ⟨by decide +kernel, (measured_iff _ _ [] _ rfl _ _).mpr fun _ => rfl⟩

/-- A module whose start function asks for a quote is not measured: the pointer to its context is
still null. -/
theorem not_measured_in_start :
    ∃ mo ∈ (final (taRunWasm Crypto.sample sampleKey (Env.calm RuntimeFn 0)
        (sampleGuest [(.collectQuote (Bytes.zero 32) 32 true, sampleWorld [])]) Ta.init)).moments,
      mo.singletonWamrContext.isNone = true ∧ ¬ mo.Measured Crypto.sample := by
  have hmoments : ((final (taRunWasm Crypto.sample sampleKey (Env.calm RuntimeFn 0)
      (sampleGuest [(.collectQuote (Bytes.zero 32) 32 true, sampleWorld [])])
      Ta.init)).moments.any fun mo => mo.singletonWamrContext.isNone) = true := by decide +kernel
  obtain ⟨mo, hmo, hnone⟩ := List.any_eq_true.mp hmoments
  refine ⟨mo, hmo, hnone, ?_⟩
  rintro ⟨context, hcontext, -⟩
  rw [hcontext] at hnone
  cases hnone

/-! ## Sessions -/

/-- **A session is a run of modules.**  What runs of `TA_RunWasm` one after the other do to the
variables of `ra_wasi.c` is what the modules do with the hashes of their bytecode, if no code runs
before the entry points.  A panic ends both, and the exit code of a module does not matter. -/
theorem runSession_modules (C : Crypto) (key : Pta.AttestationKey)
    (runs : List (Env RuntimeFn × Guest)) (s : Ta) (m : Modules) (hra : m.ra = s.ra)
    (henters : ∀ run ∈ runs, Enters run.1 run.2) :
    (runSession C key runs s).map Ta.ra
      = (finalState (moduleStep C key) (some m) (runs.flatMap fun run =>
          Module.inputs ⟨C.sha256 run.2.wasmBytecode, run.2.main⟩)).map Modules.ra := by
  induction runs generalizing s m with
  | nil => exact congrArg some hra.symm
  | cons run runs ih =>
    have hrun : (afterRun (taRunWasm C key run.1 run.2 s)).map Ta.ra = _ :=
      ra_taRunWasm hra (henters run List.mem_cons_self)
    rw [runSession_cons, List.flatMap_cons, finalState_append]
    cases hafter : afterRun (taRunWasm C key run.1 run.2 s) with
    | none =>
      rw [hafter, Option.map_none, eq_comm, Option.map_eq_none_iff] at hrun
      rw [hrun, (run_of_none C key _).2]
      rfl
    | some t =>
      rw [hafter, Option.map_some, eq_comm, Option.map_eq_some_iff] at hrun
      obtain ⟨m', hm', hra'⟩ := hrun
      rw [hm']
      exact ih t m' hra' fun r hr => henters r (List.mem_cons_of_mem run hr)

/-- A module disposes of the quote that another one has left in the run before. -/
def sampleRuns : List (Env RuntimeFn × Guest) :=
  [(Env.calm RuntimeFn 0, sampleGuest []), (Env.calm RuntimeFn 0, { sampleGuest [] with
    wasmBytecode := [3], main := [(.disposeQuote 0, sampleWorld [])] })]

/-- Two runs, which leave the session closed and the slot of the quote available. -/
theorem runSession_modules_sample :
    (runSession Crypto.sample sampleKey sampleRuns Ta.init).map
        (fun t => (t.ra.attestationSession, t.ra.isRaQuoteAvailable)) = some (.closed, true)
      ∧ (runSession Crypto.sample sampleKey sampleRuns Ta.init).map Ta.ra
        = (finalState (moduleStep Crypto.sample sampleKey) (some Modules.init)
            (sampleRuns.flatMap fun run => Module.inputs
              ⟨Crypto.sample.sha256 run.2.wasmBytecode, run.2.main⟩)).map Modules.ra := by
  refine ⟨by decide +kernel, runSession_modules _ _ sampleRuns _ _ rfl ?_⟩
  rw [sampleRuns, List.forall_mem_cons, List.forall_mem_singleton]
  exact ⟨⟨⟨fun _ _ _ _ => rfl, rfl, rfl⟩, rfl, rfl⟩, ⟨fun _ _ _ _ => rfl, rfl, rfl⟩, rfl, rfl⟩

end Watz.Attester
