import Watz.Tee
import Watz.Wamr.Native

/-!
# The shared buffers of a run

`COMMAND_RUN_WASM` gets four memory references from the normal world: the bytecode, the argument of
the module, a buffer for its output and one for benchmarks.  They stay shared while the command
runs.  The bytecode is copied once and only the copy is used.  The argument is a C string for
`wasm_runtime_init_wasi`, several calls later, which goes over it up to five times: it measures it,
then `b_strcpy_s` measures it twice and copies it, and then it is measured again.  Here every pass
over the argument may find other bytes, and an access is noted with the buffer it is meant for.
-/

namespace Watz.Attester

open Lib

/-! ## The command and its memory references -/

/-- The passes over the argument, in the order of the code. -/
inductive Pass where
  /-- `argv_buf_size` is computed. -/
  | measure
  /-- `b_strcpy_s` compares the length with the room. -/
  | check
  /-- `b_strcpy_s` computes how much it copies. -/
  | copyLength
  /-- `memcpy`. -/
  | copy
  /-- `argv_buf_offset` is computed. -/
  | advance
deriving DecidableEq, Repr

/-- The argument: what each pass finds from the start of the buffer on, and how much memory is
mapped there. -/
structure Argument where
  size : ℕ
  mapped : ℕ
  seen : Pass → ℕ → UInt8
  size_le : size ≤ mapped

/-- What a pass takes for the length of the string; it is `mapped` if there is no end. -/
def Argument.length (a : Argument) (p : Pass) : ℕ := Wamr.LinearMemory.scan (a.seen p) a.mapped 0

/-- A `writev` of the module on an open file: the lengths of its vectors, and whether there is
memory to put them together. -/
structure Writev where
  fd : ℕ
  iov : List (List UInt8)
  osMalloc : Bool

/-- How a part of the run ends that does not touch the shared buffers. -/
inductive Outcome where
  | success
  | failure
  | crash
deriving DecidableEq, Repr

/-- The parameters of the command, as they are found while it runs, and the course of the run. -/
structure RunCommand where
  bytecodeSize : ℕ
  bytecode : ℕ → UInt8
  /-- The null pointer is `none`. -/
  argument : Option Argument
  outputSize : ℕ
  benchmarkSize : ℕ
  /-- The `TEE_Malloc` for the copy of the bytecode. -/
  teeMalloc : Bool
  hash : Outcome
  fullInit : Outcome
  load : Outcome
  /-- The instantiation up to `wasm_runtime_init_wasi`, and the `wasi_ctx` there. -/
  instantiate : Outcome
  hasMemory : Bool
  argvListMalloc : Bool
  argvBufMalloc : Bool
  /-- What the heap holds where `argv_buf` is allocated. -/
  fresh : ℕ → UInt8
  /-- The rest of `wasm_runtime_init_wasi`. -/
  wasiTables : Outcome
  /-- What the code prints that runs during the instantiation. -/
  started : List Writev
  start : Outcome
  printed : List Writev
  executeMain : Outcome
  /-- What a build for benchmarks writes at the end. -/
  benchmark : Option (List UInt8)

/-! ## The accesses -/

inductive SharedBuffer where
  | bytecode
  | argument
  | output
  | benchmark
  /-- The copies of the arguments, in the heap of the runtime. -/
  | argvBuf
deriving DecidableEq, Repr

structure Access where
  buffer : SharedBuffer
  write : Bool
  offset : ℕ
  len : ℕ
deriving DecidableEq, Repr

/-- What the command has done so far. -/
structure Progress where
  accesses : List Access
  trustedWasmBytecode : List UInt8
  hashed : Option (List UInt8)
  loaded : Option (List UInt8)
  /-- `output_buffer`, from the start of the memory reference on. -/
  outputBuffer : ℕ
  outputBufferSize : ℕ
  argvBuf : ℕ → UInt8
  /-- The offsets in `argv_buf` that the module gets as its `argv_list`. -/
  handed : Option (List ℕ)

namespace Progress

def note (a : Access) (s : Progress) : Progress := { s with accesses := s.accesses ++ [a] }

def start (fresh : ℕ → UInt8) : Progress := ⟨[], [], none, none, 0, 0, fresh, none⟩

end Progress

/-- The end of a part of the run. -/
def ends (o : Outcome) : EStateM Stop Progress Unit := do
  failIf (o = .crash) .panic
  failIf (o = .failure) (.error .generic)

/-! ## The arguments of the module -/

/-- An element of `argv`: the empty string of the application, or the shared argument. -/
inductive Arg where
  | empty
  | shared (a : Argument)

namespace Arg

def seen : Arg → Pass → ℕ → UInt8
  | empty, _, _ => 0
  | shared a, p, i => a.seen p i

/-- `strlen`.  It ends in a data abort where no memory is mapped. -/
def strlen (p : Pass) : Arg → EStateM Stop Progress ℕ
  | empty => pure 0
  | shared a => do
    modify (Progress.note ⟨.argument, false, 0, a.length p + 1⟩)
    failIf (a.length p = a.mapped) .panic
    pure (a.length p)

/-- The bytes that are read when the argument is copied. -/
def read (n : ℕ) : Arg → Progress → Progress
  | empty, s => s
  | shared _, s => s.note ⟨.argument, false, 0, n⟩

end Arg

/-- `RSIZE_MAX` of `bh_common.c`. -/
def rsizeMax : ℕ := 0x7FFFFFFF

/-- `memcpy` of `n` bytes of an argument to `argv_buf`. -/
def copyArg (arg : Arg) (offset n : ℕ) (s : Progress) : Progress :=
  { (arg.read n s).note ⟨.argvBuf, true, offset, n⟩ with
    argvBuf := fun i => if offset ≤ i ∧ i < offset + n then arg.seen .copy (i - offset)
      else s.argvBuf i }

/-- `b_strcpy_s` to an offset in `argv_buf`; its result is not looked at. -/
def bStrcpyS (offset s1max : ℕ) (arg : Arg) : EStateM Stop Progress Unit := do
  let n ← arg.strlen .check
  if s1max < n + 1 ∨ s1max > rsizeMax then pure ()
  else do
    let n ← arg.strlen .copyLength
    modify (copyArg arg offset (n + 1))

/-- The first loop over `argv`: `argv_buf_size`. -/
def measureArgs : List Arg → EStateM Stop Progress ℕ
  | [] => pure 0
  | arg :: args => do
    let n ← arg.strlen .measure
    let size ← measureArgs args
    pure (n + 1 + size)

/-- The second loop over `argv`, from an offset on: the rest of `argv_list`. -/
def copyArgs (argvBufSize : ℕ) : List Arg → ℕ → EStateM Stop Progress (List ℕ)
  | [], _ => pure []
  | arg :: args, offset => do
    bStrcpyS offset (argvBufSize - offset) arg
    let n ← arg.strlen .advance
    let argvList ← copyArgs argvBufSize args (offset + n + 1)
    pure (offset :: argvList)

/-- `argv` of `TA_RunWasm`. -/
def RunCommand.argv (cmd : RunCommand) : List Arg :=
  match cmd.argument with
  | none => [.empty]
  | some a => [.empty, .shared a]

/-- The end of `wasm_runtime_init_wasi`: the tables of files and arguments are made. -/
def handOver (cmd : RunCommand) (argvList : List ℕ) : EStateM Stop Progress Unit := do
  ends cmd.wasiTables
  modify fun s => { s with handed := some argvList }

/-- The part of `wasm_runtime_init_wasi` after the arguments have been measured. -/
def placeArgs (cmd : RunCommand) (argvBufSize : ℕ) : EStateM Stop Progress Unit := do
  failIf (cmd.argvListMalloc = false) (.error .generic)
  failIf (argvBufSize ≥ 2 ^ 32 - 1) (.error .generic)
  failIf (cmd.argvBufMalloc = false) (.error .generic)
  let argvList ← copyArgs argvBufSize cmd.argv 0
  handOver cmd argvList

/-- `wasm_runtime_init_wasi` with the parameters of `TA_InitializeWamrRuntime`. -/
def wasmRuntimeInitWasi (cmd : RunCommand) : EStateM Stop Progress Unit :=
  if cmd.hasMemory = false then pure ()
  else do
    let argvBufSize ← measureArgs cmd.argv
    placeArgs cmd argvBufSize

/-! ## The output -/

/-- The output is appended, unless it would fill the buffer. -/
def Progress.print (nchars : ℕ) (s : Progress) : Progress :=
  if s.outputBufferSize > nchars then
    { s.note ⟨.output, true, s.outputBuffer, nchars⟩ with
      outputBuffer := s.outputBuffer + nchars
      outputBufferSize := s.outputBufferSize - nchars }
  else s

/-- `writev`. -/
def writev (w : Writev) : EStateM Stop Progress Unit :=
  if w.fd = 1 ∨ w.fd = 2 then do
    let nchars := (w.iov.map List.length).sum
    failIf (w.osMalloc = false ∧ nchars ≠ 0) .panic
    modify (Progress.print nchars)
  else pure ()

def writevs : List Writev → EStateM Stop Progress Unit
  | [] => pure ()
  | w :: ws => do
    writev w
    writevs ws

/-- `snprintf` to the benchmark buffer: as much of the text as fits, with a zero byte. -/
def snprintf (size : ℕ) (text : List UInt8) (s : Progress) : Progress :=
  if size = 0 then s else s.note ⟨.benchmark, true, 0, min text.length (size - 1) + 1⟩

/-! ## The run -/

/-- `TA_InitializeWamrRuntime`. -/
def initializeWamrRuntime (cmd : RunCommand) : EStateM Stop Progress Unit := do
  ends cmd.fullInit
  modify fun s => { s with loaded := some s.trustedWasmBytecode }
  ends cmd.load
  ends cmd.instantiate
  wasmRuntimeInitWasi cmd
  writevs cmd.started
  ends cmd.start

/-- The start of `TA_RunWasm`: the bytecode is copied, the output buffer is set and the copy of
the bytecode is hashed. -/
def prepareRun (cmd : RunCommand) : EStateM Stop Progress Unit := do
  -- the size is passed on as a `uint32_t`
  let size := cmd.bytecodeSize % 2 ^ 32
  modify (Progress.note ⟨.bytecode, false, 0, size⟩)
  failIf (cmd.teeMalloc = false ∧ size ≠ 0) .panic
  modify fun s => { s with trustedWasmBytecode := (List.range size).map cmd.bytecode }
  modify fun s => { s with outputBuffer := 0, outputBufferSize := cmd.outputSize % 2 ^ 32 }
  modify fun s => { s with hashed := some s.trustedWasmBytecode }
  ends cmd.hash

/-- `TA_RunWasm` up to the label `error`.  The runtime is torn down without the shared buffers. -/
def runWasmCommand (cmd : RunCommand) : EStateM Stop Progress Unit := do
  prepareRun cmd
  initializeWamrRuntime cmd
  writevs cmd.printed
  ends cmd.executeMain
  match cmd.benchmark with
  | none => pure ()
  | some text => modify (snprintf cmd.benchmarkSize text)

/-! ## What the command should keep to -/

/-- The room for the copies of the arguments. -/
def RunCommand.argvBufSize (cmd : RunCommand) : ℕ :=
  match cmd.argument with
  | none => 1
  | some a => a.length .measure + 2

/-- The access is one the buffer is there for. -/
def Access.Inside (cmd : RunCommand) (x : Access) : Prop :=
  match x.buffer with
  | .bytecode => x.write = false ∧ x.offset + x.len ≤ cmd.bytecodeSize
  | .argument => x.write = false ∧ ∃ a, cmd.argument = some a ∧ x.offset + x.len ≤ a.size
  | .output => x.write = true ∧ x.offset + x.len ≤ cmd.outputSize
  | .benchmark => x.write = true ∧ x.offset + x.len ≤ cmd.benchmarkSize
  | .argvBuf => x.offset + x.len ≤ cmd.argvBufSize

def Progress.AllInside (cmd : RunCommand) (s : Progress) : Prop := ∀ x ∈ s.accesses, x.Inside cmd

/-- Every argument of the module ends with a zero byte in `argv_buf`. -/
def Progress.Terminated (cmd : RunCommand) (s : Progress) : Prop :=
  ∀ argvList, s.handed = some argvList →
    ∀ offset ∈ argvList, ∃ i, offset ≤ i ∧ i < cmd.argvBufSize ∧ s.argvBuf i = 0

/-- All accesses are inside their buffers, the arguments of the module are strings in `argv_buf`,
and the bytes that are loaded have been hashed. -/
structure Progress.Contained (cmd : RunCommand) (s : Progress) : Prop where
  inside : s.AllInside cmd
  terminated : s.Terminated cmd
  hashed : ∀ bytes, s.loaded = some bytes → s.hashed = some bytes

/-! ## When the command keeps to it -/

/-- The run comes to the arguments. -/
def RunCommand.ReachesArguments (cmd : RunCommand) : Prop :=
  (cmd.teeMalloc = false → cmd.bytecodeSize % 2 ^ 32 = 0) ∧ cmd.hash = .success
    ∧ cmd.fullInit = .success ∧ cmd.load = .success ∧ cmd.instantiate = .success
    ∧ cmd.hasMemory = true

/-- There is room for the copy of the argument. -/
def RunCommand.HasArgvBuf (cmd : RunCommand) (a : Argument) : Prop :=
  cmd.argvListMalloc = true ∧ a.length .measure + 2 < 2 ^ 32 - 1 ∧ cmd.argvBufMalloc = true

/-- `b_strcpy_s` finds the room large enough. -/
def Argument.Copied (a : Argument) : Prop :=
  a.length .check ≤ a.length .measure ∧ a.length .measure < rsizeMax

instance (a : Argument) : Decidable a.Copied := inferInstanceAs (Decidable (_ ∧ _))

/-- What is in the place of the argument in `argv_buf` at the end, if the heap held `fresh`. -/
def Argument.inArgvBuf (a : Argument) (fresh : ℕ → UInt8) (i : ℕ) : UInt8 :=
  if a.Copied ∧ i ≤ a.length .copyLength then a.seen .copy i else fresh (1 + i)

/-- Each pass over the argument finds an end inside the buffer, the copy is not longer than the
room that was measured for it, and there is an end in what the module gets. -/
def RunCommand.ArgumentHolds (cmd : RunCommand) (a : Argument) : Prop :=
  a.length .measure < a.size
    ∧ (cmd.HasArgvBuf a →
      a.length .check < a.size
        ∧ (a.Copied → a.length .copyLength < a.size ∧ a.length .copyLength ≤ a.length .measure)
        ∧ a.length .advance < a.size
        ∧ (cmd.wasiTables = .success →
          ∃ i ≤ a.length .measure, a.inArgvBuf cmd.fresh i = 0))

section

variable {cmd : RunCommand} {s : Progress} {a : Argument} {p : Pass}

lemma allInside_note (x : Access) : (s.note x).AllInside cmd ↔ s.AllInside cmd ∧ x.Inside cmd := by
  simp only [Progress.AllInside, Progress.note, List.mem_append, List.mem_singleton, or_imp,
    forall_and, forall_eq]

lemma contained_note (x : Access) : (s.note x).Contained cmd ↔ s.Contained cmd ∧ x.Inside cmd := by
  constructor
  · intro h
    obtain ⟨hs, hx⟩ := (allInside_note x).mp h.inside
    exact ⟨⟨hs, h.terminated, h.hashed⟩, hx⟩
  · rintro ⟨hs, hx⟩
    exact ⟨(allInside_note x).mpr ⟨hs.inside, hx⟩, hs.terminated, hs.hashed⟩

variable {n : ℕ} {o : Outcome} {t : Progress} {β : Type}

lemma inside_argument (ha : cmd.argument = some a) :
    Access.Inside cmd ⟨.argument, false, 0, n + 1⟩ ↔ n < a.size := by
  simp [Access.Inside, ha]

/-- Before the arguments are handed over there is nothing to end. -/
lemma terminated_of_none (h : s.handed = none) : s.Terminated cmd := by
  intro argvList hl
  rw [h] at hl
  cases hl

lemma keeps_ends {I : Progress → Prop} (o : Outcome) : Keeps I (ends o) :=
  Keeps.bind (Keeps.failIf _) fun _ => Keeps.failIf _

lemma ends_bind_eq_ok {f : Unit → EStateM Stop Progress β} {b : β} :
    (ends o >>= f) s = .ok b t ↔ o = .success ∧ f () s = .ok b t := by
  cases o <;> simp [ends, bind_assoc, failIf_bind_eq_ok]

lemma ends_eq_ok {u : Unit} :
    ends o s = .ok u t ↔ o = .success ∧ s = t := by
  cases o <;> simp [ends, failIf_bind_eq_ok, failIf_eq_ok]

/-! ## The rule for the arguments -/

/-- An invariant that holds through all that is done with the arguments. -/
structure ArgsInvariant (I : Progress → Prop) : Prop where
  note : ∀ s x, I s → I (s.note x)
  copyArg : ∀ s arg offset n, I s → I (copyArg arg offset n s)
  handed : ∀ s argvList, I s → I { s with handed := some argvList }

namespace ArgsInvariant

variable {I : Progress → Prop} (hI : ArgsInvariant I)

include hI

lemma keeps_strlen (arg : Arg) : Keeps I (arg.strlen p) := by
  cases arg with
  | empty => exact Keeps.pure 0
  | shared a =>
    exact Keeps.bind (Keeps.modify fun s hs => hI.note s _ hs) fun _ =>
      Keeps.bind (Keeps.failIf _) fun _ => Keeps.pure _

lemma keeps_bStrcpyS (offset s1max : ℕ) (arg : Arg) : Keeps I (bStrcpyS offset s1max arg) := by
  refine Keeps.bind (hI.keeps_strlen arg) fun n => Keeps.ite (Keeps.pure ()) ?_
  exact Keeps.bind (hI.keeps_strlen arg) fun n => Keeps.modify fun s hs => hI.copyArg s _ _ _ hs

lemma keeps_measureArgs (args : List Arg) : Keeps I (measureArgs args) := by
  induction args with
  | nil => exact Keeps.pure 0
  | cons arg args ih =>
    exact Keeps.bind (hI.keeps_strlen arg) fun _ => Keeps.bind ih fun _ => Keeps.pure _

lemma keeps_copyArgs (size : ℕ) (args : List Arg) (offset : ℕ) :
    Keeps I (copyArgs size args offset) := by
  induction args generalizing offset with
  | nil => exact Keeps.pure _
  | cons arg args ih =>
    refine Keeps.bind (hI.keeps_bStrcpyS _ _ _) fun _ => ?_
    exact Keeps.bind (hI.keeps_strlen arg) fun n => Keeps.bind (ih _) fun _ => Keeps.pure _

lemma keeps_handOver (argvList : List ℕ) : Keeps I (handOver cmd argvList) :=
  Keeps.bind (keeps_ends _) fun _ => Keeps.modify fun s hs => hI.handed s _ hs

lemma keeps_placeArgs (argvBufSize : ℕ) : Keeps I (placeArgs cmd argvBufSize) := by
  refine Keeps.bind (Keeps.failIf _) fun _ => Keeps.bind (Keeps.failIf _) fun _ => ?_
  refine Keeps.bind (Keeps.failIf _) fun _ => Keeps.bind (hI.keeps_copyArgs _ _ _) fun _ => ?_
  exact hI.keeps_handOver _

lemma keeps_wasmRuntimeInitWasi : Keeps I (wasmRuntimeInitWasi cmd) :=
  Keeps.ite (Keeps.pure ()) (Keeps.bind (hI.keeps_measureArgs _) fun _ => hI.keeps_placeArgs _)

end ArgsInvariant

lemma allInside_of_copyArg {arg : Arg} {offset : ℕ} (h : (copyArg arg offset n s).AllInside cmd) :
    s.AllInside cmd := by
  have h : ((arg.read n s).note ⟨.argvBuf, true, offset, n⟩).AllInside cmd := h
  obtain ⟨h, -⟩ := (allInside_note _).mp h
  cases arg with
  | empty => exact h
  | shared a => exact ((allInside_note _).mp h).1

/-- The program does not take back an access outside of the buffers. -/
def NoRepair {α : Type} (cmd : RunCommand) (x : EStateM Stop Progress α) : Prop :=
  Keeps (fun s => ¬ s.AllInside cmd) x

/-- No access is ever taken back. -/
lemma argsInvariant_not_allInside : ArgsInvariant fun s => ¬ s.AllInside cmd where
  note _ x hs h := hs ((allInside_note x).mp h).1
  copyArg _ _ _ _ hs h := hs (allInside_of_copyArg h)
  handed _ _ hs h := hs h

lemma contained_strlen_bind {f : ℕ → EStateM Stop Progress β} (ha : cmd.argument = some a)
    (hf : NoRepair cmd (f (a.length p))) :
    (final (((Arg.shared a).strlen p >>= f) s)).Contained cmd ↔
      a.length p < a.size
        ∧ (final (f (a.length p)
            (s.note ⟨.argument, false, 0, a.length p + 1⟩))).Contained cmd := by
  -- an access outside of the buffer stays one, whatever comes later
  have hout : ¬ a.length p < a.size →
      ¬ (s.note ⟨.argument, false, 0, a.length p + 1⟩).AllInside cmd :=
    fun hn h => hn ((inside_argument ha).mp ((allInside_note _).mp h).2)
  by_cases hend : a.length p = a.mapped
  · have hstop : (Arg.shared a).strlen p s
        = .error .panic (s.note ⟨.argument, false, 0, a.length p + 1⟩) := by
      rw [Arg.strlen, bind_of_ok (modify_eq_ok (u := ()).mpr rfl),
        bind_of_error (failIf_of_pos hend)]
    have hn : ¬ a.length p < a.size := by
      have := a.size_le
      omega
    rw [bind_of_error hstop, final_error]
    exact ⟨fun h => absurd h.inside (hout hn), fun h => absurd h.1 hn⟩
  · have hok : (Arg.shared a).strlen p s
        = .ok (a.length p) (s.note ⟨.argument, false, 0, a.length p + 1⟩) := by
      rw [Arg.strlen, bind_of_ok (modify_eq_ok (u := ()).mpr rfl), failIf_of_neg hend]
      rfl
    rw [bind_of_ok hok]
    refine ⟨fun h => ⟨?_, h⟩, fun h => h.2⟩
    by_contra hn
    exact hf.final_of (hout hn) h.inside

/-! ## The arguments -/

/-- What `b_strcpy_s` does with the empty string. -/
def Progress.copyEmpty (s1max : ℕ) (s : Progress) : Progress :=
  if s1max < 0 + 1 ∨ s1max > rsizeMax then s else copyArg .empty 0 (0 + 1) s

lemma bStrcpyS_empty (s1max : ℕ) :
    bStrcpyS 0 s1max .empty s = .ok () (s.copyEmpty s1max) := by
  rw [bStrcpyS, Arg.strlen, pure_bind, Progress.copyEmpty]
  split <;> rfl

lemma contained_copyEmpty {s1max : ℕ} (hnone : s.handed = none) :
    (s.copyEmpty s1max).Contained cmd ↔ s.Contained cmd := by
  have hroom : 1 ≤ cmd.argvBufSize := by
    rw [RunCommand.argvBufSize]
    split <;> omega
  rw [Progress.copyEmpty]
  split
  · rfl
  · constructor
    · intro h
      exact ⟨allInside_of_copyArg h.inside, terminated_of_none hnone, h.hashed⟩
    · intro h
      exact ⟨(allInside_note _).mpr ⟨h.inside, hroom⟩, terminated_of_none hnone, h.hashed⟩

lemma contained_handOver {argvList : List ℕ} (hnone : s.handed = none) :
    (final (handOver cmd argvList s)).Contained cmd ↔
      s.Contained cmd ∧ (cmd.wasiTables = .success →
        ∀ offset ∈ argvList, ∃ i, offset ≤ i ∧ i < cmd.argvBufSize ∧ s.argvBuf i = 0) := by
  rw [handOver]
  by_cases htables : cmd.wasiTables = .success
  · rw [bind_of_ok (ends_eq_ok (u := ()).mpr ⟨htables, rfl⟩)]
    constructor
    · intro h
      exact ⟨⟨h.inside, terminated_of_none hnone, h.hashed⟩, fun _ => h.terminated _ rfl⟩
    · rintro ⟨h, hterm⟩
      refine ⟨h.inside, fun l hl => ?_, h.hashed⟩
      cases hl
      exact hterm htables
  · have hsame : final ((ends cmd.wasiTables >>= fun _ =>
        (modify fun s => { s with handed := some argvList } : EStateM Stop Progress Unit)) s)
          = s := by
      cases htab : cmd.wasiTables with
      | success => exact absurd htab htables
      | failure => rfl
      | crash => rfl
    rw [hsame]
    exact ⟨fun h => ⟨h, fun hs => absurd hs htables⟩, fun h => h.1⟩

lemma contained_copyArg (ha : cmd.argument = some a) (hnone : s.handed = none) :
    (copyArg (.shared a) 1 (a.length .copyLength + 1) s).Contained cmd ↔
      s.Contained cmd ∧ a.length .copyLength < a.size
        ∧ a.length .copyLength ≤ a.length .measure := by
  have hwrite : Access.Inside cmd ⟨.argvBuf, true, 1, a.length .copyLength + 1⟩
      ↔ a.length .copyLength ≤ a.length .measure := by
    simp only [Access.Inside, RunCommand.argvBufSize, ha]
    omega
  have hinside : (copyArg (.shared a) 1 (a.length .copyLength + 1) s).AllInside cmd ↔
      s.AllInside cmd ∧ a.length .copyLength < a.size
        ∧ a.length .copyLength ≤ a.length .measure := by
    refine (allInside_note _).trans ?_
    rw [Arg.read, allInside_note, inside_argument ha, hwrite, and_assoc]
  constructor
  · intro h
    obtain ⟨hs, hroom⟩ := hinside.mp h.inside
    exact ⟨⟨hs, terminated_of_none hnone, h.hashed⟩, hroom⟩
  · rintro ⟨h, hroom⟩
    exact ⟨hinside.mpr ⟨h.inside, hroom⟩, terminated_of_none hnone, h.hashed⟩

lemma contained_bStrcpyS_bind {f : Unit → EStateM Stop Progress Unit}
    (ha : cmd.argument = some a) (hf : NoRepair cmd (f ())) :
    (final ((bStrcpyS 1 (a.length .measure + 1) (.shared a) >>= f) s)).Contained cmd ↔
      a.length .check < a.size
        ∧ if a.Copied then
            a.length .copyLength < a.size
              ∧ (final (f () (copyArg (.shared a) 1 (a.length .copyLength + 1)
                  ((s.note ⟨.argument, false, 0, a.length .check + 1⟩).note
                    ⟨.argument, false, 0, a.length .copyLength + 1⟩)))).Contained cmd
          else
            (final (f () (s.note ⟨.argument, false, 0, a.length .check + 1⟩))).Contained cmd := by
  have hcopied : (a.length .measure + 1 < a.length .check + 1 ∨ a.length .measure + 1 > rsizeMax)
      ↔ ¬ a.Copied := by
    rw [Argument.Copied]
    omega
  have hmodify : ∀ n, NoRepair cmd
      (modify (copyArg (.shared a) 1 n) : EStateM Stop Progress Unit) :=
    fun n => Keeps.modify fun _ hs h => hs (allInside_of_copyArg h)
  rw [bStrcpyS, bind_assoc, contained_strlen_bind ha]
  · refine and_congr_right fun _ => ?_
    by_cases h : a.Copied
    · rw [if_neg (fun hc => hcopied.mp hc h), if_pos h, bind_assoc, contained_strlen_bind ha]
      · rfl
      · exact Keeps.bind (hmodify _) fun _ => hf
    · rw [if_pos (hcopied.mpr h), if_neg h, pure_bind]
  · refine Keeps.bind (Keeps.ite (Keeps.pure ()) ?_) fun _ => hf
    exact Keeps.bind (argsInvariant_not_allInside.keeps_strlen _) fun _ => hmodify _

lemma argvBuf_copyEmpty (s1max i : ℕ) :
    (s.copyEmpty s1max).argvBuf (1 + i) = s.argvBuf (1 + i) := by
  rw [Progress.copyEmpty]
  split
  · rfl
  · exact if_neg (by omega)

lemma argvBuf_copyArg (n i : ℕ) :
    (copyArg (.shared a) 1 n s).argvBuf (1 + i)
      = if i < n then a.seen .copy i else s.argvBuf (1 + i) := by
  change (if 1 ≤ 1 + i ∧ 1 + i < 1 + n then a.seen .copy (1 + i - 1) else s.argvBuf (1 + i)) = _
  rw [Nat.add_sub_cancel_left]
  exact if_congr (by omega) rfl rfl

lemma terminated_pair {buf : ℕ → UInt8} :
    (∀ offset ∈ [0, 1], ∃ i, offset ≤ i ∧ i < n + 2 ∧ buf i = 0) ↔ ∃ i ≤ n, buf (1 + i) = 0 := by
  constructor
  · intro h
    obtain ⟨i, hi, hn, hbuf⟩ := h 1 (by simp)
    refine ⟨i - 1, by omega, ?_⟩
    rwa [Nat.add_sub_cancel' hi]
  · rintro ⟨i, hi, hbuf⟩ offset hoffset
    have hle : offset ≤ 1 := by
      simp only [List.mem_cons, List.not_mem_nil, or_false] at hoffset
      omega
    exact ⟨1 + i, by omega, by omega, hbuf⟩

lemma placeArgs_of_hasArgvBuf (ha : cmd.argument = some a) (h : cmd.HasArgvBuf a) :
    placeArgs cmd (a.length .measure + 2) s =
      (bStrcpyS 1 (a.length .measure + 1) (.shared a) >>= fun _ =>
        (Arg.shared a).strlen .advance >>= fun _ => handOver cmd [0, 1])
          (s.copyEmpty (a.length .measure + 2)) := by
  obtain ⟨hlist, hsize, hbuf⟩ := h
  have hempty : ∀ p, Arg.empty.strlen p = pure 0 := fun _ => rfl
  rw [placeArgs, failIf_of_neg (by simp [hlist]), failIf_of_neg (by omega),
    failIf_of_neg (by simp [hbuf]), pure_bind, pure_bind, pure_bind, RunCommand.argv, ha]
  simp only [copyArgs, hempty, bind_assoc, pure_bind]
  exact bind_of_ok (bStrcpyS_empty _)

lemma placeArgs_of_not_hasArgvBuf (h : ¬ cmd.HasArgvBuf a) :
    final (placeArgs cmd (a.length .measure + 2) s) = s := by
  rw [placeArgs]
  by_cases hlist : cmd.argvListMalloc = false
  · rw [bind_of_error (failIf_of_pos hlist), final_error]
  rw [failIf_of_neg hlist, pure_bind]
  by_cases hsize : a.length .measure + 2 ≥ 2 ^ 32 - 1
  · rw [bind_of_error (failIf_of_pos hsize), final_error]
  rw [failIf_of_neg hsize, pure_bind]
  by_cases hbuf : cmd.argvBufMalloc = false
  · rw [bind_of_error (failIf_of_pos hbuf), final_error]
  · rw [Bool.not_eq_false] at hlist hbuf
    exact absurd ⟨hlist, by omega, hbuf⟩ h

lemma terminated_handed (ha : cmd.argument = some a) (hfresh : s.argvBuf = cmd.fresh)
    (ht : t.argvBuf = if a.Copied then
        (copyArg (.shared a) 1 (a.length .copyLength + 1)
          (s.copyEmpty (a.length .measure + 2))).argvBuf
      else (s.copyEmpty (a.length .measure + 2)).argvBuf) :
    (∀ offset ∈ [0, 1], ∃ i, offset ≤ i ∧ i < cmd.argvBufSize ∧ t.argvBuf i = 0) ↔
      ∃ i ≤ a.length .measure, a.inArgvBuf cmd.fresh i = 0 := by
  have hroom : cmd.argvBufSize = a.length .measure + 2 := by rw [RunCommand.argvBufSize, ha]
  have hbyte : ∀ i, t.argvBuf (1 + i) = a.inArgvBuf cmd.fresh i := by
    intro i
    rw [ht, Argument.inArgvBuf]
    by_cases hc : a.Copied
    · rw [if_pos hc, argvBuf_copyArg, argvBuf_copyEmpty, hfresh]
      exact if_congr (by simp [hc]) rfl rfl
    · rw [if_neg hc, argvBuf_copyEmpty, hfresh, if_neg (fun h => hc h.1)]
  rw [hroom, terminated_pair]
  simp only [hbyte]

/-- With the argument measured, the rest of `wasm_runtime_init_wasi` is contained exactly if the
passes agree well enough. -/
lemma contained_placeArgs (ha : cmd.argument = some a) (hs : s.Contained cmd)
    (hnone : s.handed = none) (hfresh : s.argvBuf = cmd.fresh) :
    (final (placeArgs cmd (a.length .measure + 2) s)).Contained cmd ↔
      (cmd.HasArgvBuf a →
        a.length .check < a.size
          ∧ (a.Copied → a.length .copyLength < a.size ∧ a.length .copyLength ≤ a.length .measure)
          ∧ a.length .advance < a.size
          ∧ (cmd.wasiTables = .success →
            ∃ i ≤ a.length .measure, a.inArgvBuf cmd.fresh i = 0)) := by
  by_cases h : cmd.HasArgvBuf a
  swap
  · rw [placeArgs_of_not_hasArgvBuf h]
    exact ⟨fun _ h' => absurd h' h, fun _ => hs⟩
  have hempty : (s.copyEmpty (a.length .measure + 2)).Contained cmd :=
    (contained_copyEmpty hnone).mpr hs
  have hnone' : (s.copyEmpty (a.length .measure + 2)).handed = none := by
    rw [Progress.copyEmpty]
    split <;> exact hnone
  have hrest : NoRepair cmd ((Arg.shared a).strlen .advance >>= fun _ => handOver cmd [0, 1]) :=
    Keeps.bind (argsInvariant_not_allInside.keeps_strlen _) fun _ =>
      argsInvariant_not_allInside.keeps_handOver _
  -- the last pass, and the handing over, from any state with the bytes in place
  have hlast : ∀ t : Progress, t.handed = none →
      (t.argvBuf = if a.Copied then
          (copyArg (.shared a) 1 (a.length .copyLength + 1)
            (s.copyEmpty (a.length .measure + 2))).argvBuf
        else (s.copyEmpty (a.length .measure + 2)).argvBuf) →
      ((final (((Arg.shared a).strlen .advance >>= fun _ => handOver cmd [0, 1]) t)).Contained cmd ↔
        t.Contained cmd ∧ a.length .advance < a.size ∧ (cmd.wasiTables = .success →
            ∃ i ≤ a.length .measure, a.inArgvBuf cmd.fresh i = 0)) := by
    intro t ht hbuf
    rw [contained_strlen_bind (f := fun _ => handOver cmd [0, 1]) ha
        (argsInvariant_not_allInside.keeps_handOver _), contained_handOver (by exact ht),
      contained_note, inside_argument ha]
    have hterm := terminated_handed ha hfresh (t := t) hbuf
    rw [← hterm]
    exact ⟨fun ⟨hn, ⟨hc, _⟩, he⟩ => ⟨hc, hn, he⟩, fun ⟨hc, hn, he⟩ => ⟨hn, ⟨hc, hn⟩, he⟩⟩
  rw [placeArgs_of_hasArgvBuf ha h, contained_bStrcpyS_bind ha hrest]
  by_cases hc : a.Copied
  · rw [if_pos hc, hlast _ (by exact hnone') (by rw [if_pos hc]; rfl),
      contained_copyArg ha (by exact hnone'), contained_note, contained_note, inside_argument ha, inside_argument ha]
    simp only [h, hc, hempty, true_and, forall_const]
    tauto
  · rw [if_neg hc, hlast _ (by exact hnone') (by rw [if_neg hc]; rfl), contained_note,
      inside_argument ha]
    simp only [h, hc, hempty, true_and, forall_const, false_imp_iff]
    tauto

lemma contained_placeArgs_none (ha : cmd.argument = none) (hs : s.Contained cmd)
    (hnone : s.handed = none) : (final (placeArgs cmd 1 s)).Contained cmd := by
  rw [placeArgs]
  by_cases hlist : cmd.argvListMalloc = false
  · rwa [bind_of_error (failIf_of_pos hlist), final_error]
  by_cases hbuf : cmd.argvBufMalloc = false
  · rwa [failIf_of_neg hlist, failIf_of_neg (by omega), pure_bind, pure_bind,
      bind_of_error (failIf_of_pos hbuf), final_error]
  rw [failIf_of_neg hlist, failIf_of_neg (by omega), failIf_of_neg hbuf, pure_bind, pure_bind,
    pure_bind, RunCommand.argv, ha]
  have hempty : s.copyEmpty 1 = copyArg .empty 0 1 s := if_neg (by decide)
  have hcopy : copyArgs 1 [.empty] 0 s = .ok [0] (copyArg .empty 0 1 s) := by
    rw [copyArgs, bind_of_ok (bStrcpyS_empty _), ← hempty]
    rfl
  rw [bind_of_ok hcopy, contained_handOver (by exact hnone), ← hempty, contained_copyEmpty hnone]
  refine ⟨hs, fun _ offset hoffset => ⟨0, ?_, ?_, ?_⟩⟩
  · exact (List.mem_singleton.mp hoffset).le
  · rw [RunCommand.argvBufSize, ha]
    exact Nat.one_pos
  · rw [hempty]
    rfl

lemma contained_wasmRuntimeInitWasi (hs : s.Contained cmd) (hnone : s.handed = none)
    (hfresh : s.argvBuf = cmd.fresh) :
    (final (wasmRuntimeInitWasi cmd s)).Contained cmd ↔
      ∀ a, cmd.argument = some a → cmd.hasMemory = true → cmd.ArgumentHolds a := by
  rw [wasmRuntimeInitWasi]
  by_cases hmem : cmd.hasMemory = false
  · rw [if_pos hmem]
    exact ⟨fun _ a _ h => absurd (hmem.symm.trans h) (by decide), fun _ => hs⟩
  rw [if_neg hmem]
  rw [Bool.not_eq_false] at hmem
  cases ha : cmd.argument with
  | none =>
    have hmeasure : measureArgs cmd.argv s = .ok 1 s := by
      rw [RunCommand.argv, ha]
      rfl
    rw [bind_of_ok hmeasure]
    exact ⟨fun _ a h => (nomatch h), fun _ => contained_placeArgs_none ha hs hnone⟩
  | some a =>
    have hmeasure : measureArgs cmd.argv >>= placeArgs cmd =
        (Arg.shared a).strlen .measure >>= fun n => placeArgs cmd (n + 2) := by
      have hsum : ∀ n : ℕ, 0 + 1 + (n + 1 + 0) = n + 2 := fun n => by omega
      have hempty : Arg.empty.strlen .measure = pure 0 := rfl
      rw [RunCommand.argv, ha]
      simp only [measureArgs, hempty, bind_assoc, pure_bind, hsum]
    have hnote : ∀ n, n < a.size →
        (s.note ⟨.argument, false, 0, n + 1⟩).Contained cmd :=
      fun n hn => (contained_note _).mpr ⟨hs, (inside_argument ha).mpr hn⟩
    rw [hmeasure, contained_strlen_bind (f := fun n => placeArgs cmd (n + 2)) ha
      (argsInvariant_not_allInside.keeps_placeArgs _)]
    constructor
    · rintro ⟨hn, hrest⟩ a' ⟨⟩ -
      exact ⟨hn, (contained_placeArgs ha (hnote _ hn) hnone hfresh).mp hrest⟩
    · intro h
      obtain ⟨hn, hrest⟩ := h a rfl hmem
      exact ⟨hn, (contained_placeArgs ha (hnote _ hn) hnone hfresh).mpr hrest⟩

/-! ## The output -/

/-- The rest of the output buffer is inside the memory reference. -/
def Progress.OutputFits (cmd : RunCommand) (s : Progress) : Prop :=
  s.outputBuffer + s.outputBufferSize ≤ cmd.outputSize

lemma print_cases (n : ℕ) : s.print n = s ∨ n < s.outputBufferSize
    ∧ s.print n = { s.note ⟨.output, true, s.outputBuffer, n⟩ with
        outputBuffer := s.outputBuffer + n, outputBufferSize := s.outputBufferSize - n } := by
  rw [Progress.print]
  by_cases h : s.outputBufferSize > n
  · exact .inr ⟨h, if_pos h⟩
  · exact .inl (if_neg h)

lemma outputFits_print (hs : s.OutputFits cmd) : (s.print n).OutputFits cmd := by
  obtain h | ⟨hn, h⟩ := print_cases (s := s) n
  · rwa [h]
  · rw [h]
    have : s.outputBuffer + s.outputBufferSize ≤ cmd.outputSize := hs
    change s.outputBuffer + n + (s.outputBufferSize - n) ≤ cmd.outputSize
    omega

/-- What is printed goes to the output buffer, and nothing else changes. -/
lemma contained_print (hs : s.OutputFits cmd) :
    (s.print n).Contained cmd ↔ s.Contained cmd := by
  obtain h | ⟨hn, h⟩ := print_cases (s := s) n
  · rw [h]
  · have hx : Access.Inside cmd ⟨.output, true, s.outputBuffer, n⟩ := by
      have : s.outputBuffer + s.outputBufferSize ≤ cmd.outputSize := hs
      exact ⟨rfl, by change s.outputBuffer + n ≤ _; omega⟩
    rw [h]
    constructor
    · intro hc
      exact ((contained_note ⟨.output, true, s.outputBuffer, n⟩).mp
        ⟨hc.inside, hc.terminated, hc.hashed⟩).1
    · intro hc
      have := (contained_note _).mpr ⟨hc, hx⟩
      exact ⟨this.inside, this.terminated, this.hashed⟩

/-- The state is contained or not, as before. -/
def Progress.AsBefore (cmd : RunCommand) (c : Prop) (s : Progress) : Prop :=
  s.OutputFits cmd ∧ (s.Contained cmd ↔ c)

lemma keeps_writev (c : Prop) (w : Writev) : Keeps (Progress.AsBefore cmd c) (writev w) := by
  refine Keeps.ite (Keeps.bind (Keeps.failIf _) fun _ => Keeps.modify ?_) (Keeps.pure ())
  exact fun s hs => ⟨outputFits_print hs.1, (contained_print hs.1).trans hs.2⟩

lemma keeps_writevs (c : Prop) (ws : List Writev) :
    Keeps (Progress.AsBefore cmd c) (writevs ws) := by
  induction ws with
  | nil => exact Keeps.pure ()
  | cons w ws ih => exact Keeps.bind (keeps_writev c w) fun _ => ih

lemma contained_snprintf (text : List UInt8) :
    (snprintf cmd.benchmarkSize text s).Contained cmd ↔ s.Contained cmd := by
  rw [snprintf]
  split
  · rfl
  · rw [contained_note, and_iff_left]
    exact ⟨rfl, by change 0 + (min text.length (cmd.benchmarkSize - 1) + 1) ≤ _; omega⟩

/-! ## The whole run -/

/-- The run up to `wasm_runtime_init_wasi`. -/
def beforeArguments (cmd : RunCommand) : EStateM Stop Progress Unit := do
  prepareRun cmd
  ends cmd.fullInit
  modify fun s => { s with loaded := some s.trustedWasmBytecode }
  ends cmd.load
  ends cmd.instantiate

/-- The run after `wasm_runtime_init_wasi`. -/
def afterArguments (cmd : RunCommand) : EStateM Stop Progress Unit := do
  writevs cmd.started
  ends cmd.start
  writevs cmd.printed
  ends cmd.executeMain
  match cmd.benchmark with
  | none => pure ()
  | some text => modify (snprintf cmd.benchmarkSize text)

lemma runWasmCommand_eq :
    runWasmCommand cmd = beforeArguments cmd >>= fun _ =>
      wasmRuntimeInitWasi cmd >>= fun _ => afterArguments cmd := by
  simp only [runWasmCommand, initializeWamrRuntime, beforeArguments, afterArguments, bind_assoc]

lemma keeps_afterArguments (c : Prop) :
    Triple (Progress.AsBefore cmd c) (afterArguments cmd) (fun _ s => s.Contained cmd ↔ c)
      (fun s => s.Contained cmd ↔ c) := by
  have hkeeps : ∀ x : EStateM Stop Progress Unit, Keeps (Progress.AsBefore cmd c) x →
      Triple (Progress.AsBefore cmd c) x (fun _ => Progress.AsBefore cmd c)
        (fun s => s.Contained cmd ↔ c) :=
    fun x hx => hx.conseq (fun _ h => h) (fun _ _ h => h) fun _ h => h.2
  refine Triple.bind (hkeeps _ (keeps_writevs c _)) fun _ => ?_
  refine Triple.bind (hkeeps _ (keeps_ends _)) fun _ => ?_
  refine Triple.bind (hkeeps _ (keeps_writevs c _)) fun _ => ?_
  refine Triple.bind (hkeeps _ (keeps_ends _)) fun _ => ?_
  cases cmd.benchmark with
  | none => exact Triple.pure fun _ h => h.2
  | some text => exact Triple.modify fun s h => (contained_snprintf text).trans h.2

/-- What holds when the run comes to the arguments. -/
structure Progress.Ready (cmd : RunCommand) (s : Progress) : Prop where
  contained : s.Contained cmd
  outputFits : s.OutputFits cmd
  handed_eq : s.handed = none
  argvBuf_eq : s.argvBuf = cmd.fresh

/-- The state of a run that has not loaded the module yet. -/
structure Progress.Unloaded (cmd : RunCommand) (s : Progress) : Prop where
  inside : s.AllInside cmd
  handed_eq : s.handed = none
  argvBuf_eq : s.argvBuf = cmd.fresh
  loaded_eq : s.loaded = none

lemma Progress.Unloaded.contained (h : s.Unloaded cmd) : s.Contained cmd := by
  refine ⟨h.inside, terminated_of_none h.handed_eq, fun bytes hl => ?_⟩
  rw [h.loaded_eq] at hl
  cases hl

/-- The state of a run that has hashed its copy of the bytecode. -/
structure Progress.Hashed (cmd : RunCommand) (s : Progress) : Prop where
  unloaded : s.Unloaded cmd
  outputFits : s.OutputFits cmd
  hashed_eq : s.hashed = some s.trustedWasmBytecode

lemma hashed_prepareRun :
    Triple (Progress.Unloaded cmd) (prepareRun cmd) (fun _ => Progress.Hashed cmd)
      (Progress.Contained cmd) := by
  have hread : Access.Inside cmd ⟨.bytecode, false, 0, cmd.bytecodeSize % 2 ^ 32⟩ :=
    ⟨rfl, (Nat.zero_add _).le.trans (Nat.mod_le _ _)⟩
  refine Triple.bind (Q := fun _ => Progress.Unloaded cmd) (Triple.modify fun s hs => ?_)
    fun _ => ?_
  · exact { hs with inside := (allInside_note _).mpr ⟨hs.inside, hread⟩ }
  refine Triple.failIf_bind (fun s hs => hs.contained) fun _ => ?_
  refine Triple.bind (Q := fun _ => Progress.Unloaded cmd) (Triple.modify fun s hs => ?_)
    fun _ => ?_
  · exact ⟨hs.inside, hs.handed_eq, hs.argvBuf_eq, hs.loaded_eq⟩
  refine Triple.bind (Q := fun _ s => s.Unloaded cmd ∧ s.OutputFits cmd)
    (Triple.modify fun s hs => ?_) fun _ => ?_
  · refine ⟨⟨hs.inside, hs.handed_eq, hs.argvBuf_eq, hs.loaded_eq⟩, ?_⟩
    exact (Nat.zero_add _).le.trans (Nat.mod_le _ _)
  refine Triple.bind (Q := fun _ => Progress.Hashed cmd) (Triple.modify fun s hs => ?_) fun _ => ?_
  · exact ⟨⟨hs.1.inside, hs.1.handed_eq, hs.1.argvBuf_eq, hs.1.loaded_eq⟩, hs.2, rfl⟩
  · exact (keeps_ends _).conseq (fun _ h => h) (fun _ _ h => h) fun _ h => h.unloaded.contained

/-- Up to the arguments the run is contained: the bytecode is copied once, and what is hashed and
loaded is the copy. -/
lemma ready_beforeArguments :
    Triple (Progress.Unloaded cmd) (beforeArguments cmd) (fun _ => Progress.Ready cmd)
      (Progress.Contained cmd) := by
  have hready : ∀ o : Outcome, Triple (Progress.Ready cmd) (ends o) (fun _ => Progress.Ready cmd)
      (Progress.Contained cmd) :=
    fun o => (keeps_ends o).conseq (fun _ h => h) (fun _ _ h => h) fun _ h => h.contained
  refine Triple.bind hashed_prepareRun fun _ => ?_
  refine Triple.bind (Q := fun _ => Progress.Hashed cmd) ?_ fun _ => ?_
  · exact (keeps_ends _).conseq (fun _ h => h) (fun _ _ h => h) fun _ h => h.unloaded.contained
  refine Triple.bind (Q := fun _ => Progress.Ready cmd) (Triple.modify fun s hs => ?_) fun _ =>
    Triple.bind (hready _) fun _ => hready _
  refine ⟨⟨hs.unloaded.inside, terminated_of_none hs.unloaded.handed_eq, fun bytes hl => ?_⟩,
    hs.outputFits, hs.unloaded.handed_eq, hs.unloaded.argvBuf_eq⟩
  rw [← hl]
  exact hs.hashed_eq

lemma exists_beforeArguments_eq_ok (cmd : RunCommand) (s : Progress) :
    (∃ t, beforeArguments cmd s = .ok () t) ↔
      (cmd.teeMalloc = false → cmd.bytecodeSize % 2 ^ 32 = 0) ∧ cmd.hash = .success
        ∧ cmd.fullInit = .success ∧ cmd.load = .success ∧ cmd.instantiate = .success := by
  simp only [beforeArguments, prepareRun, bind_assoc, modify_bind_eq_ok, failIf_bind_eq_ok,
    ends_bind_eq_ok, ends_eq_ok]
  constructor
  · rintro ⟨t, hmalloc, hhash, hinit, hload, hinst, -⟩
    exact ⟨fun h => by_contra fun h' => hmalloc ⟨h, h'⟩, hhash, hinit, hload, hinst⟩
  · rintro ⟨hmalloc, hhash, hinit, hload, hinst⟩
    exact ⟨_, fun h => h.2 (hmalloc h.1), hhash, hinit, hload, hinst, rfl⟩

lemma contained_afterArguments (hs : s.OutputFits cmd) :
    (final ((wasmRuntimeInitWasi cmd >>= fun _ => afterArguments cmd) s)).Contained cmd ↔
      (final (wasmRuntimeInitWasi cmd s)).Contained cmd := by
  have hI : ArgsInvariant (Progress.OutputFits cmd) := ⟨fun _ _ h => h, fun _ arg _ _ h => ?_,
    fun _ _ h => h⟩
  · have hfits : (final (wasmRuntimeInitWasi cmd s)).OutputFits cmd :=
      hI.keeps_wasmRuntimeInitWasi.final_of hs
    cases hinit : wasmRuntimeInitWasi cmd s with
    | error stop t => rw [bind_of_error hinit]
    | ok u t =>
      rw [hinit] at hfits
      rw [bind_of_ok hinit, final_ok]
      exact (keeps_afterArguments (t.Contained cmd)).final_of ⟨hfits, Iff.rfl⟩
  · cases arg <;> exact h

end

/-- The command is contained exactly if, when the run comes to the arguments, the passes over the
argument find what `ArgumentHolds` says. -/
theorem contained_iff (cmd : RunCommand) :
    (final (runWasmCommand cmd (Progress.start cmd.fresh))).Contained cmd ↔
      ∀ a, cmd.argument = some a → cmd.ReachesArguments → cmd.ArgumentHolds a := by
  have hstart : (Progress.start cmd.fresh).Unloaded cmd := ⟨nofun, rfl, rfl, rfl⟩
  obtain ⟨hok, herr⟩ := ready_beforeArguments _ hstart
  have hreaches := exists_beforeArguments_eq_ok cmd (Progress.start cmd.fresh)
  rw [runWasmCommand_eq]
  cases hbefore : beforeArguments cmd (Progress.start cmd.fresh) with
  | error stop t =>
    rw [bind_of_error hbefore, final_error]
    refine ⟨fun _ a _ ⟨hmalloc, hhash, hinit, hload, hinst, _⟩ => ?_, fun _ => herr stop t hbefore⟩
    obtain ⟨t', ht'⟩ := hreaches.mpr ⟨hmalloc, hhash, hinit, hload, hinst⟩
    rw [hbefore] at ht'
    cases ht'
  | ok u t =>
    have ht : t.Ready cmd := hok u t hbefore
    obtain ⟨hmalloc, hhash, hinit, hload, hinst⟩ := hreaches.mp ⟨t, hbefore⟩
    rw [bind_of_ok hbefore, contained_afterArguments ht.outputFits,
      contained_wasmRuntimeInitWasi ht.contained ht.handed_eq ht.argvBuf_eq]
    exact ⟨fun h a ha hr => h a ha hr.2.2.2.2.2,
      fun h a ha hmem => h a ha ⟨hmalloc, hhash, hinit, hload, hinst, hmem⟩⟩

/-- A run in which every call succeeds, with the given argument and one line of output. -/
def sampleCommand (argument : Argument) : RunCommand where
  bytecodeSize := 2
  bytecode := fun _ => 7
  argument := some argument
  outputSize := 16
  benchmarkSize := 0
  teeMalloc := true
  hash := .success
  fullInit := .success
  load := .success
  instantiate := .success
  hasMemory := true
  argvListMalloc := true
  argvBufMalloc := true
  fresh := fun _ => 1
  wasiTables := .success
  started := []
  start := .success
  printed := [⟨1, [[104, 105], [10]], true⟩]
  executeMain := .success
  benchmark := none

/-- One byte that is not zero, with more memory behind the buffer. -/
def openArgument : Argument := ⟨1, 2, fun _ i => if i = 0 then 65 else 0, by decide⟩

/-- An argument without a zero byte is read beyond its end, although nothing changes it while the
command runs. -/
theorem argument_read_beyond_end :
    ¬ (final (runWasmCommand (sampleCommand openArgument)
        (Progress.start (sampleCommand openArgument).fresh))).Contained
          (sampleCommand openArgument) := by
  intro h
  have hread : (⟨.argument, false, 0, 2⟩ : Access) ∈ (final (runWasmCommand
      (sampleCommand openArgument)
      (Progress.start (sampleCommand openArgument).fresh))).accesses := by decide +kernel
  obtain ⟨-, a, ha, hle⟩ := h.inside _ hread
  cases ha
  exact absurd hle (by decide)

end Watz.Attester
