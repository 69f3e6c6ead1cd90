import Watz.Lib.Program
import Watz.Aot.Mappings

/-!
# The runtime between two runs

The Wasm runtime keeps its memory mode, the list of native tables and the pointer to the current
context in global variables.  `TA_RunWasm` sets the runtime up, and at the end it tears it down
with `TA_TearDownWamrRuntime`, no matter how far it has got.  The functions that set it up undo a
part of their work themselves when they fail.  This file follows both through every point of
failure.  An object of the runtime is known here by the pool it was allocated from, and an access to
an object of a pool that has been destroyed is noted.  What the loader and the code of a module
write is taken to stay in their own memory.
-/

namespace Watz.Attester

open Lib

/-! ## The state -/

/-- `Memory_Mode`, without the mode for another allocator. -/
inductive MemoryMode where
  | unknown
  | pool
deriving DecidableEq, Repr

/-- The tables that are registered: two by `wasm_native_init` and one by
`wasm_runtime_full_init`. -/
inductive NativeTable where
  | wasiUnstable
  | wasiSnapshotPreview1
  | env
deriving DecidableEq, Repr

/-- A module in a pool. -/
structure LoadedModule where
  pool : ℕ
  aot : Aot.AotModule

/-- The global variables of the runtime and of `wasm.c`, the context of the run, the pools that
have been made and destroyed, and the mappings. -/
structure RuntimeState where
  memoryMode : MemoryMode
  poolAllocator : ℕ
  gNativeSymbolsList : List ℕ
  singletonWamrContext : Bool
  module : Option LoadedModule
  moduleInst : Option ℕ
  /-- Pools are numbered in the order in which they are made. -/
  pools : ℕ
  destroyed : List ℕ
  /-- The accesses to objects of pools that have been destroyed. -/
  strays : List ℕ
  mappings : Aot.Mappings

/-- The application before its first run. -/
def RuntimeState.init : RuntimeState :=
  ⟨.unknown, 0, [], false, none, none, 0, [], [], ⟨0, 0⟩⟩

/-- Which of the steps of a run succeed, and the file that is loaded. -/
structure RunSteps where
  hash : Bool
  memoryInit : Bool
  registers : NativeTable → Bool
  isAot : Bool
  file : Aot.AotFile
  instantiate : Bool
  execute : Bool

/-- An object of a pool is read or written. -/
def RuntimeState.touch (pool : ℕ) (s : RuntimeState) : RuntimeState :=
  if pool ∈ s.destroyed then { s with strays := s.strays ++ [pool] } else s

/-! ## Setting up and destroying the runtime -/

/-- `wasm_memory_init_with_pool`, if the pool can be created. -/
def wasmMemoryInitWithPool (s : RuntimeState) : RuntimeState :=
  { s with memoryMode := .pool, poolAllocator := s.pools, pools := s.pools + 1 }

/-- `wasm_runtime_memory_destroy`. -/
def wasmRuntimeMemoryDestroy (s : RuntimeState) : RuntimeState :=
  match s.memoryMode with
  | .pool => { s with destroyed := s.poolAllocator :: s.destroyed, memoryMode := .unknown }
  | .unknown => s

/-- A node in the current pool becomes the head of the list. -/
def RuntimeState.pushNode (s : RuntimeState) : RuntimeState :=
  { s with gNativeSymbolsList := s.poolAllocator :: s.gNativeSymbolsList }

/-- `register_natives`. -/
def registerNatives (malloc : Bool) : EStateM Unit RuntimeState Unit := do
  let s ← get
  failIf (s.memoryMode = .unknown ∨ malloc = false) ()
  modify (RuntimeState.touch s.poolAllocator)
  modify RuntimeState.pushNode

/-- `wasm_native_init`. -/
def wasmNativeInit (r : RunSteps) : EStateM Unit RuntimeState Unit := do
  registerNatives (r.registers .wasiUnstable)
  registerNatives (r.registers .wasiSnapshotPreview1)

/-- `wasm_runtime_free`. -/
def wasmRuntimeFree (s : RuntimeState) : RuntimeState :=
  match s.memoryMode with
  | .pool => s.touch s.poolAllocator
  | .unknown => s

/-- The loop of `wasm_native_destroy`: each node is read for its successor and freed. -/
def freeNodes : List ℕ → RuntimeState → RuntimeState
  | [], s => s
  | node :: nodes, s => freeNodes nodes (wasmRuntimeFree (s.touch node))

/-- `wasm_native_destroy`. -/
def wasmNativeDestroy (s : RuntimeState) : RuntimeState :=
  { freeNodes s.gNativeSymbolsList s with gNativeSymbolsList := [] }

/-- `wasm_runtime_destroy`. -/
def wasmRuntimeDestroy (s : RuntimeState) : RuntimeState :=
  wasmRuntimeMemoryDestroy (wasmNativeDestroy s)

/-- `wasm_runtime_full_init`. -/
def wasmRuntimeFullInit (r : RunSteps) : EStateM Unit RuntimeState Unit := fun s =>
  if r.memoryInit = false then .error () s
  else
    match wasmNativeInit r (wasmMemoryInitWithPool s) with
    | .error _ s => .error () (wasmRuntimeMemoryDestroy s)
    | .ok _ s =>
      match registerNatives (r.registers .env) s with
      | .error _ s => .error () (wasmRuntimeDestroy s)
      | .ok _ s => .ok () s

/-! ## The run -/

section

variable (pltTableSize : ℕ)

/-- `wasm_runtime_load`. -/
def wasmRuntimeLoad (r : RunSteps) : EStateM Unit RuntimeState Unit := do
  failIf (r.isAot = false) ()
  modify fun s => s.touch s.poolAllocator
  let s ← get
  let out := Aot.aotLoadFromAotFile pltTableSize r.file s.mappings
  modify fun s => { s with
    mappings := out.2, module := out.1.map fun aot => ⟨s.poolAllocator, aot⟩ }
  failIf (out.1 = none) ()

/-- `wasm_runtime_instantiate`. -/
def wasmRuntimeInstantiate (r : RunSteps) : EStateM Unit RuntimeState Unit := do
  modify fun s => s.touch s.poolAllocator
  failIf (r.instantiate = false) ()
  modify fun s => { s with moduleInst := some s.poolAllocator }

/-- `TA_InitializeWamrRuntime` from `wasm_runtime_load` on, and `TA_ExecuteWamrRuntime`. -/
def loadAndExecute (r : RunSteps) : EStateM Unit RuntimeState Unit := do
  wasmRuntimeLoad pltTableSize r
  wasmRuntimeInstantiate r
  modify fun s => { s with singletonWamrContext := true }
  modify fun s => s.touch s.poolAllocator
  failIf (r.execute = false) ()

/-- `TA_RunWasm` up to the label `error`. -/
def runSteps (r : RunSteps) : EStateM Unit RuntimeState Unit := do
  failIf (r.hash = false) ()
  wasmRuntimeFullInit r
  loadAndExecute pltTableSize r

/-- `wasm_runtime_deinstantiate`, if there is an instance. -/
def deinstantiate (s : RuntimeState) : RuntimeState :=
  match s.moduleInst with
  | some pool => wasmRuntimeFree (s.touch pool)
  | none => s

/-- `wasm_runtime_unload`, if there is a module. -/
def unload (s : RuntimeState) : RuntimeState :=
  match s.module with
  | some module =>
    wasmRuntimeFree { s.touch module.pool with mappings := Aot.aotUnload module.aot s.mappings }
  | none => s

/-- `TA_TearDownWamrRuntime`. -/
def tearDownWamrRuntime (s : RuntimeState) : RuntimeState :=
  wasmRuntimeDestroy (unload (deinstantiate { s with singletonWamrContext := false }))

/-- The context of a run is on its stack. -/
def RuntimeState.begin (s : RuntimeState) : RuntimeState :=
  { s with module := none, moduleInst := none }

/-- `TA_RunWasm`. -/
def runAndTearDown (r : RunSteps) (s : RuntimeState) : RuntimeState :=
  tearDownWamrRuntime (final (runSteps pltTableSize r s.begin))

/-- The application after some runs. -/
def afterRuns : List RunSteps → RuntimeState → RuntimeState
  | [], s => s
  | r :: rs, s => afterRuns rs (runAndTearDown pltTableSize r s)

end

/-! ## Invariants -/

/-- Nothing of a run is left in the global variables. -/
structure RuntimeState.Pristine (s : RuntimeState) : Prop where
  memoryMode_eq : s.memoryMode = .unknown
  gNativeSymbolsList_eq : s.gNativeSymbolsList = []
  singletonWamrContext_eq : s.singletonWamrContext = false

/-- The pools that have been destroyed have been made before. -/
def RuntimeState.Numbered (s : RuntimeState) : Prop := ∀ p ∈ s.destroyed, p < s.pools

/-- The state between two runs. -/
structure RuntimeState.Between (s : RuntimeState) : Prop where
  pristine : s.Pristine
  numbered : s.Numbered
  mappings : s.mappings.Owns 0

/-- The mappings of the module of the run. -/
def RuntimeState.owned (s : RuntimeState) : Multiset Aot.Mapping :=
  (s.module.map fun module => module.aot.mappings).getD 0

/-- The runtime is up: its pool exists, and all its objects are in there. -/
structure RuntimeState.Up (strays : List ℕ) (s : RuntimeState) : Prop where
  memoryMode_eq : s.memoryMode = .pool
  alive : s.poolAllocator ∉ s.destroyed
  lt_pools : s.poolAllocator < s.pools
  numbered : s.Numbered
  nodes : ∀ node ∈ s.gNativeSymbolsList, node = s.poolAllocator
  module : ∀ module, s.module = some module → module.pool = s.poolAllocator
  moduleInst : ∀ pool, s.moduleInst = some pool → pool = s.poolAllocator
  strays_eq : s.strays = strays

/-- The runtime is down and the run has no module. -/
structure RuntimeState.Down (s : RuntimeState) : Prop where
  memoryMode_eq : s.memoryMode = .unknown
  numbered : s.Numbered
  module_eq : s.module = none
  moduleInst_eq : s.moduleInst = none

section

variable {s : RuntimeState} {σ : List ℕ} {r : RunSteps} {plt : ℕ}

lemma touch_of_notMem {pool : ℕ} (h : pool ∉ s.destroyed) : s.touch pool = s := if_neg h

lemma RuntimeState.Up.touch (h : s.Up σ) : s.touch s.poolAllocator = s := touch_of_notMem h.alive

lemma RuntimeState.Up.free (h : s.Up σ) : wasmRuntimeFree s = s := by
  rw [wasmRuntimeFree, h.memoryMode_eq]
  exact h.touch

/-! ## Destroying the runtime -/

section

variable (h : s.Up σ)

include h

lemma RuntimeState.Up.freeNodes {nodes : List ℕ} (hnodes : ∀ node ∈ nodes, node = s.poolAllocator) :
    freeNodes nodes s = s := by
  induction nodes with
  | nil => rfl
  | cons node nodes ih =>
    have hnode : node = s.poolAllocator := hnodes node List.mem_cons_self
    rw [Attester.freeNodes, hnode, h.touch, h.free]
    exact ih fun node' hmem => hnodes node' (List.mem_cons_of_mem _ hmem)

lemma RuntimeState.Up.memoryDestroy :
    wasmRuntimeMemoryDestroy s
      = { s with destroyed := s.poolAllocator :: s.destroyed, memoryMode := .unknown } := by
  rw [wasmRuntimeMemoryDestroy, h.memoryMode_eq]

lemma RuntimeState.Up.numbered_destroyed :
    ∀ p ∈ s.poolAllocator :: s.destroyed, p < s.pools := by
  intro p hp
  rcases List.mem_cons.mp hp with rfl | hp
  · exact h.lt_pools
  · exact h.numbered p hp

lemma RuntimeState.Up.destroy :
    wasmRuntimeDestroy s = { s with
      gNativeSymbolsList := [], destroyed := s.poolAllocator :: s.destroyed
      memoryMode := .unknown } := by
  have hnodes : RuntimeState.Up σ { s with gNativeSymbolsList := [] } := { h with nodes := nofun }
  rw [wasmRuntimeDestroy, wasmNativeDestroy, h.freeNodes h.nodes, hnodes.memoryDestroy]

lemma RuntimeState.Up.between_destroy (hsingleton : s.singletonWamrContext = false)
    (hmappings : s.mappings.Owns 0) :
    (wasmRuntimeDestroy s).Between ∧ (wasmRuntimeDestroy s).strays = σ := by
  rw [h.destroy]
  exact ⟨⟨⟨rfl, rfl, hsingleton⟩, h.numbered_destroyed, hmappings⟩, h.strays_eq⟩

lemma RuntimeState.Up.deinstantiate : deinstantiate s = s := by
  rw [Attester.deinstantiate]
  split
  · rename_i pool hpool
    rw [h.moduleInst pool hpool, h.touch, h.free]
  · rfl

lemma RuntimeState.Up.unload (hmappings : s.mappings.Owns s.owned) :
    ∃ m, unload s = { s with mappings := m } ∧ m.Owns 0 := by
  rw [Attester.unload]
  split
  · rename_i module hmodule
    have hup : RuntimeState.Up σ { s with mappings := Aot.aotUnload module.aot s.mappings } :=
      { h with }
    rw [RuntimeState.owned, hmodule] at hmappings
    refine ⟨Aot.aotUnload module.aot s.mappings, ?_, Aot.owns_aotUnload hmappings⟩
    rw [h.module module hmodule, h.touch, hup.free]
  · rename_i hmodule
    rw [RuntimeState.owned, hmodule] at hmappings
    exact ⟨s.mappings, rfl, hmappings⟩

lemma RuntimeState.Up.tearDown (hmappings : s.mappings.Owns s.owned) :
    (tearDownWamrRuntime s).Between ∧ (tearDownWamrRuntime s).strays = σ := by
  have hdown : RuntimeState.Up σ { s with singletonWamrContext := false } := { h with }
  obtain ⟨m, hunload, hm⟩ := hdown.unload hmappings
  have hrest : RuntimeState.Up σ { s with singletonWamrContext := false, mappings := m } :=
    { h with }
  rw [tearDownWamrRuntime, hdown.deinstantiate, hunload]
  exact hrest.between_destroy rfl hm

end

/-- Without a pool the nodes are read, but not freed. -/
lemma freeNodes_of_unknown (h : s.memoryMode = .unknown) (nodes : List ℕ) :
    freeNodes nodes s = { s with strays := s.strays ++ nodes.filter (· ∈ s.destroyed) } := by
  induction nodes generalizing s with
  | nil => rw [freeNodes, List.filter_nil, List.append_nil]
  | cons node nodes ih =>
    have hfree : wasmRuntimeFree (s.touch node) = s.touch node := by
      have hmode : (s.touch node).memoryMode = .unknown := by
        rw [RuntimeState.touch]
        split <;> exact h
      rw [wasmRuntimeFree, hmode]
    rw [freeNodes, hfree, RuntimeState.touch]
    by_cases hmem : node ∈ s.destroyed
    · rw [if_pos hmem, ih (by exact h), List.filter_cons_of_pos (by simpa using hmem)]
      simp only [List.append_assoc, List.singleton_append]
    · rw [if_neg hmem, ih h, List.filter_cons_of_neg (by simpa using hmem)]

lemma RuntimeState.Down.tearDown (h : s.Down) (hmappings : s.mappings.Owns 0) :
    (tearDownWamrRuntime s).Between
      ∧ (tearDownWamrRuntime s).strays
        = s.strays ++ s.gNativeSymbolsList.filter (· ∈ s.destroyed) := by
  have hrest : unload (deinstantiate { s with singletonWamrContext := false })
      = { s with singletonWamrContext := false } := by
    rw [deinstantiate, h.moduleInst_eq]
    rw [unload, h.module_eq]
  have hdestroy : wasmRuntimeDestroy { s with singletonWamrContext := false }
      = { s with
        singletonWamrContext := false, gNativeSymbolsList := []
        strays := s.strays ++ s.gNativeSymbolsList.filter (· ∈ s.destroyed) } := by
    rw [wasmRuntimeDestroy, wasmNativeDestroy, freeNodes_of_unknown (by exact h.memoryMode_eq),
      wasmRuntimeMemoryDestroy]
    simp only [h.memoryMode_eq]
  rw [tearDownWamrRuntime, hrest, hdestroy]
  exact ⟨⟨⟨h.memoryMode_eq, rfl, rfl⟩, h.numbered, hmappings⟩, rfl⟩

/-! ## Setting up the runtime -/

lemma RuntimeState.Up.registerNatives (h : s.Up σ) (malloc : Bool) :
    registerNatives malloc s = if malloc = true then .ok () s.pushNode else .error () s := by
  rw [Attester.registerNatives, bind_of_ok (get_eq_ok.mpr ⟨rfl, rfl⟩)]
  cases malloc with
  | false => exact bind_of_error (failIf_of_pos (.inr rfl))
  | true =>
    rw [failIf_of_neg (by simp [h.memoryMode_eq]), pure_bind,
      bind_of_ok (modify_eq_ok (u := ()).mpr h.touch)]
    rfl

lemma RuntimeState.Up.pushNode (h : s.Up σ) : s.pushNode.Up σ :=
  { h with
    nodes := fun node hmem => by
      rcases List.mem_cons.mp hmem with rfl | hmem
      · rfl
      · exact h.nodes node hmem }

lemma RuntimeState.Between.up (h : s.Between) :
    RuntimeState.Up s.strays (wasmMemoryInitWithPool s.begin) where
  memoryMode_eq := rfl
  alive hmem := lt_irrefl _ (h.numbered _ hmem)
  lt_pools := Nat.lt_succ_self _
  numbered p hp := (h.numbered p hp).trans (Nat.lt_succ_self _)
  nodes node hmem := by
    have hmem : node ∈ s.gNativeSymbolsList := hmem
    rw [h.pristine.gNativeSymbolsList_eq] at hmem
    cases hmem
  module _ hm := nomatch hm
  moduleInst _ hm := nomatch hm
  strays_eq := rfl

/-- If the registration of a table in `wasm_native_init` fails, it is the first one. -/
def RunSteps.FirstTableFails (r : RunSteps) : Prop :=
  r.memoryInit = true → r.registers .wasiUnstable = true → r.registers .wasiSnapshotPreview1 = true

/-- How `wasm_runtime_full_init` leaves the runtime: it is up, or it is down and the nodes in the
list, if any, are in the pool that has been destroyed. -/
lemma fullInit_cases (h : s.Between) (r : RunSteps) :
    (∃ t, wasmRuntimeFullInit r s.begin = .ok () t ∧ t.Up s.strays ∧ t.module = none
        ∧ t.mappings = s.mappings ∧ r.FirstTableFails)
      ∨ ∃ t, wasmRuntimeFullInit r s.begin = .error () t ∧ t.Down ∧ t.mappings = s.mappings
        ∧ t.strays = s.strays
        ∧ (t.gNativeSymbolsList.filter (· ∈ t.destroyed) = [] ↔ r.FirstTableFails) := by
  have hup := h.up
  have hlist : (wasmMemoryInitWithPool s.begin).gNativeSymbolsList = [] :=
    h.pristine.gNativeSymbolsList_eq
  rw [wasmRuntimeFullInit]
  by_cases hinit : r.memoryInit = false
  · refine .inr ⟨s.begin, if_pos hinit, ⟨h.pristine.memoryMode_eq, h.numbered, rfl, rfl⟩, rfl, rfl,
      ?_⟩
    refine iff_of_true ?_ fun hr => absurd (hinit.symm.trans hr) (by decide)
    change List.filter _ s.gNativeSymbolsList = []
    rw [h.pristine.gNativeSymbolsList_eq, List.filter_nil]
  rw [if_neg hinit]
  cases hfirst : r.registers .wasiUnstable with
  | false =>
    -- the first table: the list is still empty
    have hnative : wasmNativeInit r (wasmMemoryInitWithPool s.begin)
        = .error () (wasmMemoryInitWithPool s.begin) := by
      rw [wasmNativeInit, hfirst]
      exact bind_of_error (hup.registerNatives false)
    rw [hnative]
    dsimp only
    rw [hup.memoryDestroy]
    refine .inr ⟨_, rfl, ⟨rfl, hup.numbered_destroyed, rfl, rfl⟩, rfl, rfl, ?_⟩
    refine iff_of_true ?_ fun _ hr => absurd (hfirst.symm.trans hr) (by decide)
    change List.filter _ (wasmMemoryInitWithPool s.begin).gNativeSymbolsList = []
    rw [hlist, List.filter_nil]
  | true =>
    have hok : registerNatives (r.registers .wasiUnstable) (wasmMemoryInitWithPool s.begin)
        = .ok () (wasmMemoryInitWithPool s.begin).pushNode := by
      rw [hfirst]
      exact hup.registerNatives true
    cases hsecond : r.registers .wasiSnapshotPreview1 with
    | false =>
      -- the second table: the node of the first one stays in the list
      have hnative : wasmNativeInit r (wasmMemoryInitWithPool s.begin)
          = .error () (wasmMemoryInitWithPool s.begin).pushNode := by
        rw [wasmNativeInit, bind_of_ok hok, hsecond]
        exact hup.pushNode.registerNatives false
      rw [hnative]
      dsimp only
      rw [hup.pushNode.memoryDestroy]
      refine .inr ⟨_, rfl, ⟨rfl, hup.numbered_destroyed, rfl, rfl⟩, rfl, rfl, ?_⟩
      refine iff_of_false ?_ fun hr => ?_
      · change List.filter _ (s.pools :: _) ≠ []
        rw [List.filter_cons_of_pos (by simpa using .inl rfl)]
        exact List.cons_ne_nil _ _
      · exact absurd (hsecond.symm.trans (hr (Bool.not_eq_false _ ▸ hinit) hfirst)) (by decide)
    | true =>
      have hnative : wasmNativeInit r (wasmMemoryInitWithPool s.begin)
          = .ok () (wasmMemoryInitWithPool s.begin).pushNode.pushNode := by
        rw [wasmNativeInit, bind_of_ok hok, hsecond]
        exact hup.pushNode.registerNatives true
      have hcond : r.FirstTableFails := fun _ _ => hsecond
      rw [hnative]
      dsimp only
      rw [hup.pushNode.pushNode.registerNatives]
      cases r.registers .env with
      | true => exact .inl ⟨_, rfl, hup.pushNode.pushNode.pushNode, rfl, rfl, hcond⟩
      | false =>
        simp only [Bool.false_eq_true, if_false]
        rw [hup.pushNode.pushNode.destroy]
        exact .inr ⟨_, rfl, ⟨rfl, hup.numbered_destroyed, rfl, rfl⟩, rfl, rfl,
          iff_of_true rfl hcond⟩

/-! ## A whole run -/

/-- The runtime is up, and the module of the run has the mappings. -/
def RuntimeState.Running (strays : List ℕ) (s : RuntimeState) : Prop :=
  s.Up strays ∧ s.mappings.Owns s.owned

lemma keeps_touch : Keeps (RuntimeState.Running σ)
    (modify fun s => s.touch s.poolAllocator : EStateM Unit RuntimeState Unit) :=
  Keeps.modify fun s hs => by rwa [hs.1.touch]

lemma running_wasmRuntimeLoad :
    Triple (fun s => s.Running σ ∧ s.module = none) (wasmRuntimeLoad plt r)
      (fun _ => RuntimeState.Running σ) (RuntimeState.Running σ) := by
  refine Triple.failIf_bind (fun s hs => hs.1) fun _ => ?_
  refine Triple.bind (Q := fun _ s => s.Running σ ∧ s.module = none)
    (Triple.modify fun s hs => by rwa [hs.1.1.touch]) fun _ => ?_
  intro s ⟨⟨hup, howns⟩, hnone⟩
  have hzero : s.mappings.Owns 0 := by rwa [RuntimeState.owned, hnone] at howns
  have hload : (Aot.aotLoadFromAotFile plt r.file s.mappings).2.Owns
      (((Aot.aotLoadFromAotFile plt r.file s.mappings).1.map Aot.AotModule.mappings).getD 0) :=
    Aot.owns_aotLoadFromAotFile hzero rfl
  have hdone : RuntimeState.Running σ { s with
      mappings := (Aot.aotLoadFromAotFile plt r.file s.mappings).2
      module := (Aot.aotLoadFromAotFile plt r.file s.mappings).1.map
        fun aot => ⟨s.poolAllocator, aot⟩ } := by
    constructor
    · refine { hup with module := fun module hm => ?_ }
      obtain ⟨aot, -, rfl⟩ := Option.map_eq_some_iff.mp hm
      rfl
    · rw [RuntimeState.owned, Option.map_map]
      exact hload
  rw [bind_of_ok (get_eq_ok.mpr ⟨rfl, rfl⟩), bind_of_ok (modify_eq_ok (u := ()).mpr rfl)]
  exact Keeps.failIf _ _ hdone

lemma running_loadAndExecute :
    Triple (fun s => s.Running σ ∧ s.module = none) (loadAndExecute plt r)
      (fun _ => RuntimeState.Running σ) (RuntimeState.Running σ) := by
  refine Triple.bind running_wasmRuntimeLoad fun _ => Keeps.bind ?_ fun _ => ?_
  · refine Keeps.bind keeps_touch fun _ => Keeps.bind (Keeps.failIf _) fun _ => ?_
    refine Keeps.modify fun s hs => ⟨{ hs.1 with moduleInst := fun pool hpool => ?_ }, hs.2⟩
    exact (Option.some.inj hpool).symm
  · refine Keeps.bind (Keeps.modify fun s hs => ⟨{ hs.1 with }, hs.2⟩) fun _ => ?_
    exact Keeps.bind keeps_touch fun _ => Keeps.failIf _

/-- A run brings the runtime back to the state between two runs, and it goes astray exactly if a
later table of `wasm_native_init` cannot be registered. -/
lemma between_runAndTearDown (h : s.Between) (r : RunSteps) :
    (runAndTearDown plt r s).Between
      ∧ ((runAndTearDown plt r s).strays = s.strays ↔ (r.hash = true → r.FirstTableFails)) := by
  rw [runAndTearDown, runSteps]
  by_cases hhash : r.hash = false
  · have hdown : s.begin.Down := ⟨h.pristine.memoryMode_eq, h.numbered, rfl, rfl⟩
    obtain ⟨hbetween, hstrays⟩ := hdown.tearDown h.mappings
    rw [bind_of_error (failIf_of_pos hhash), final_error]
    refine ⟨hbetween, iff_of_true ?_ fun hr => absurd (hhash.symm.trans hr) (by decide)⟩
    rw [hstrays]
    change s.strays ++ List.filter _ s.gNativeSymbolsList = s.strays
    rw [h.pristine.gNativeSymbolsList_eq, List.filter_nil, List.append_nil]
  rw [failIf_of_neg hhash, pure_bind]
  obtain ⟨t, hinit, hup, hnone, hmappings, hcond⟩ | ⟨t, hinit, hdown, hmappings, hsame, hcond⟩ :=
    fullInit_cases h r
  · have howns : t.mappings.Owns t.owned := by
      rw [RuntimeState.owned, hnone, hmappings]
      exact h.mappings
    have hrun : (final (loadAndExecute plt r t)).Running s.strays :=
      running_loadAndExecute.final_of ⟨⟨hup, howns⟩, hnone⟩
    obtain ⟨hbetween, hstrays⟩ := hrun.1.tearDown hrun.2
    rw [bind_of_ok hinit]
    exact ⟨hbetween, iff_of_true hstrays fun _ => hcond⟩
  · obtain ⟨hbetween, hstrays⟩ := hdown.tearDown (hmappings ▸ h.mappings)
    rw [bind_of_error hinit, final_error]
    refine ⟨hbetween, ?_⟩
    rw [hstrays, hsame, List.append_right_eq_self, hcond]
    exact ⟨fun hr _ => hr, fun hr => hr (Bool.not_eq_false _ ▸ hhash)⟩

lemma between_afterRuns (h : s.Between) (rs : List RunSteps) : (afterRuns plt rs s).Between := by
  induction rs generalizing s with
  | nil => exact h
  | cons r rs ih => exact ih (between_runAndTearDown h r).1

end

/-- After any runs, the next run starts and ends with a pristine runtime, undoes every mapping
exactly once and makes no access to a destroyed pool, exactly if no later table of
`wasm_native_init` than the first one fails to be registered. -/
theorem pristine_iff (pltTableSize : ℕ) (rs : List RunSteps) (r : RunSteps) :
    ((afterRuns pltTableSize rs RuntimeState.init).Pristine
      ∧ (runAndTearDown pltTableSize r (afterRuns pltTableSize rs RuntimeState.init)).Pristine
      ∧ (runAndTearDown pltTableSize r
          (afterRuns pltTableSize rs RuntimeState.init)).mappings.unmapped
        = (runAndTearDown pltTableSize r
          (afterRuns pltTableSize rs RuntimeState.init)).mappings.mapped
      ∧ (runAndTearDown pltTableSize r (afterRuns pltTableSize rs RuntimeState.init)).strays
        = (afterRuns pltTableSize rs RuntimeState.init).strays)
      ↔ (r.hash = true → r.memoryInit = true → r.registers .wasiUnstable = true →
        r.registers .wasiSnapshotPreview1 = true) := by
  have hinit : RuntimeState.init.Between := ⟨⟨rfl, rfl, rfl⟩, nofun, rfl⟩
  have hstart : (afterRuns pltTableSize rs RuntimeState.init).Between := between_afterRuns hinit rs
  obtain ⟨hend, hstrays⟩ :
      (runAndTearDown pltTableSize r (afterRuns pltTableSize rs RuntimeState.init)).Between ∧ _ :=
    between_runAndTearDown hstart r
  constructor
  · rintro ⟨-, -, -, h⟩
    exact hstrays.mp h
  · intro h
    have hmappings : (0 : Multiset Aot.Mapping) + _ = _ := hend.mappings
    rw [zero_add] at hmappings
    exact ⟨hstart.pristine, hend.pristine, hmappings, hstrays.mpr h⟩

/-- A run whose file is not a module, with the given tables registered. -/
def sampleSteps (registers : NativeTable → Bool) : RunSteps where
  hash := true
  memoryInit := true
  registers := registers
  isAot := false
  file := ⟨false, false, [], false⟩
  instantiate := false
  execute := false

/-- If the pool is full after the first table, the list of tables is read after the pool has been
destroyed. -/
theorem list_read_after_pool_destroyed :
    RuntimeState.init.strays = []
      ∧ (runAndTearDown 0 (sampleSteps fun t => t = .wasiUnstable) RuntimeState.init).strays
        = [0] := by
  decide

end Watz.Attester
