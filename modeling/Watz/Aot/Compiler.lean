import Mathlib

/-!
# Translating function bodies ahead of time

The compiler walks over the body of a WebAssembly function with a stack of symbolic values and
emits code for a 64 bit target (`core/iwasm/compilation`).  This file models the part of it that
decides which accesses to linear memory are checked: the operands of the stack with what is known
of them, the list of addresses already checked, and what control flow does to both.

Types are the validator's business and are left out, and so are the operators themselves: an
operator takes values from the stack and puts others on it.  A body is kept as a tree, along which
`frame_ip` moves as in the source: the ends of blocks that `wasm_loader_find_block_addr` finds are
taken to be right.  The search for them is in the model of the walk over the bytes of a body, and
`Walk.Body.flow_ofCode` says that both models agree on what control flow reaches.
-/

namespace Watz.Aot

/-! ## Bodies -/

/-- The number of bytes an access touches. -/
inductive AccessWidth where
  | one
  | two
  | four
  | eight
  | sixteen
deriving DecidableEq, Repr

def AccessWidth.bytes : AccessWidth → ℕ
  | one => 1
  | two => 2
  | four => 4
  | eight => 8
  | sixteen => 16

/-- A function body, each operator with the code behind it. -/
inductive Code where
  /-- The end of a block. -/
  | done
  | const (n : ℕ) (next : Code)
  /-- Any operator that is not listed here: numeric ones, calls, globals, `memory.grow`, `drop`. -/
  | op (id pops pushes : ℕ) (next : Code)
  | localGet (idx : ℕ) (next : Code)
  | localSet (idx : ℕ) (next : Code)
  | localTee (idx : ℕ) (next : Code)
  /-- An access to memory with some operands above its address, and results. -/
  | access (above offset : ℕ) (width : AccessWidth) (pushes : ℕ) (next : Code)
  | block (params results : ℕ) (body next : Code)
  | loop (params results : ℕ) (body next : Code)
  | ifThen (params results : ℕ) (thn next : Code)
  | ifElse (params results : ℕ) (thn els next : Code)
  | br (depth : ℕ) (next : Code)
  | brIf (depth : ℕ) (next : Code)
  | brTable (depths : List ℕ) (default : ℕ) (next : Code)
  | ret (next : Code)
  | unreachable (next : Code)
deriving DecidableEq

namespace Code

/-- Loads: `i32.load`, `i64.load`, `f32.load`, `f64.load`, `v128.load` and their variants. -/
def load (offset : ℕ) (width : AccessWidth) (next : Code) : Code := .access 0 offset width 1 next

/-- Stores. -/
def store (offset : ℕ) (width : AccessWidth) (next : Code) : Code := .access 1 offset width 0 next

end Code

/-! ## Emitted code -/

/-- What is emitted for the address of an access. -/
inductive Check where
  /-- The address is a constant inside the initial memory. -/
  | inside (memOffset : ℕ)
  /-- The address is found in the list of checked addresses. -/
  | elided
  /-- A comparison with the bound is emitted. -/
  | checked
deriving DecidableEq, Repr

/-- An emitted access.  `tag` is the local variable the address operand was read from. -/
structure AccessCode where
  offset : ℕ
  bytes : ℕ
  tag : Option ℕ
  check : Check
deriving DecidableEq, Repr

/-- Emitted code, with the structure of blocks kept.  A branch carries the number of values it
passes to its target. -/
inductive Emitted where
  | done
  | push (n : ℕ) (next : Emitted)
  | op (pops pushes : ℕ) (next : Emitted)
  | localGet (idx : ℕ) (next : Emitted)
  | localSet (idx : ℕ) (next : Emitted)
  | localTee (idx : ℕ) (next : Emitted)
  | access (above : ℕ) (code : AccessCode) (pushes : ℕ) (next : Emitted)
  | block (params results : ℕ) (body next : Emitted)
  | loop (params results : ℕ) (body next : Emitted)
  | ifElse (params results : ℕ) (thn els next : Emitted)
  | br (depth arity : ℕ)
  | brIf (depth arity : ℕ) (next : Emitted)
  | brTable (targets : List (ℕ × ℕ)) (default : ℕ × ℕ)
  | ret
  /-- A jump to the exception block. -/
  | trap
deriving DecidableEq

/-! ## The state of the compiler -/

/-- An entry of the value stack (`AOTValue`): its value if that is a constant, and the local
variable it was read from. -/
structure Slot where
  const : Option ℕ
  tag : Option ℕ
deriving DecidableEq, Repr

/-- A value nothing is known of. -/
def Slot.unknown : Slot := ⟨none, none⟩

/-- `AOTCheckedAddr`. -/
structure CheckedAddr where
  localIdx : ℕ
  offset : ℕ
  bytes : ℕ
deriving DecidableEq, Repr

/-- `aot_checked_addr_list_add`. -/
def checkedAddrListAdd (checked : List CheckedAddr) (localIdx offset bytes : ℕ) :
    List CheckedAddr := ⟨localIdx, offset, bytes⟩ :: checked

/-- `aot_checked_addr_list_del`. -/
def checkedAddrListDel (checked : List CheckedAddr) (localIdx : ℕ) : List CheckedAddr :=
  checked.filter fun node => node.localIdx ≠ localIdx

/-- `aot_checked_addr_list_find`. -/
def checkedAddrListFind (checked : List CheckedAddr) (localIdx offset bytes : ℕ) : Bool :=
  checked.any fun node => node.localIdx = localIdx ∧ node.offset = offset ∧ bytes ≤ node.bytes

/-- What becomes of an operator at compile time: its results, with their values if LLVM folds
them to constants, or an exception that is certain. -/
inductive Folded where
  | pushes (consts : List (Option ℕ))
  | traps

/-- What the translation of a function depends on. -/
structure CompEnv where
  numBytesPerPage : ℕ
  initPageCount : ℕ
  /-- Parameters and local variables. -/
  localCount : ℕ
  /-- Constant folding of an operator with operands some of which are constant. -/
  fold : ℕ → List (Option ℕ) → Folded

/-- The size of the initial memory, computed in 32 bits. -/
def CompEnv.memDataSize (env : CompEnv) : ℕ := env.numBytesPerPage * env.initPageCount % 2 ^ 32

/-- The address is a constant and the access stays inside the initial memory. -/
def insideInitial (env : CompEnv) (addr : Slot) (offset bytes : ℕ) : Bool :=
  match addr.const with
  | some c => c + offset + bytes ≤ env.memDataSize
  | none => false

/-- `aot_check_memory_overflow` with bound checks enabled: what is emitted for an address, and
the list of checked addresses behind it. -/
def checkMemoryOverflow (env : CompEnv) (addr : Slot) (offset bytes : ℕ)
    (checked : List CheckedAddr) : AccessCode × List CheckedAddr :=
  if insideInitial env addr offset bytes then
    (⟨offset, bytes, addr.tag, .inside (addr.const.getD 0 + offset)⟩, checked)
  else
    match addr.tag with
    | some idx =>
      if checkedAddrListFind checked idx offset bytes then
        (⟨offset, bytes, addr.tag, .elided⟩, checked)
      else (⟨offset, bytes, addr.tag, .checked⟩, checkedAddrListAdd checked idx offset bytes)
    | none => (⟨offset, bytes, none, .checked⟩, checked)

/-- A label of the block stack (`AOTBlock`). -/
structure Label where
  isLoop : Bool
  params : ℕ
  results : ℕ
deriving DecidableEq, Repr

/-- How many values a branch to a label takes along. -/
def Label.arity (l : Label) : ℕ := if l.isLoop then l.params else l.results

/-- Take values off the stack of the current block. -/
def pop (n : ℕ) (slots : List Slot) : Option (List Slot) :=
  if n ≤ slots.length then some (slots.drop n) else none

/-- Values taken off the stack and put back are no longer known to come from a local variable. -/
def repush (n : ℕ) (slots : List Slot) : Option (List Slot) :=
  if n ≤ slots.length then
    some ((slots.take n).map (fun s => ⟨s.const, none⟩) ++ slots.drop n)
  else none

/-- How the translation of a block ends: at its end, or before it, in code that jumps away.  In
the second case it matters whether the jump was in the block itself or in an inner block whose
end nothing reaches. -/
inductive Exit where
  | falls (slots : List Slot) (checked : List CheckedAddr)
  | stops (inner : Bool)

/-- The result of a translation: the code, the depths of the labels it branches to, and how it
ends. -/
structure Compiled where
  code : Emitted
  reached : List ℕ
  exit : Exit

/-- The depths of labels seen from outside of the block. -/
def outerDepths (reached : List ℕ) : List ℕ := (reached.filter (· ≠ 0)).map (· - 1)

/-- The end of a block is reached by its own code, which then leaves its results, or by a branch
(`is_reachable`). -/
def endReached (results : ℕ) (isLoop : Bool) (body : Compiled) : Option Bool :=
  match body.exit with
  | .falls slots _ => (pop results slots).map fun _ => true
  | .stops _ => some (!isLoop && body.reached.contains 0)

/-- Behind a block (`handle_next_reachable_block`): if its end is reached, its results are pushed,
the list of checked addresses is destroyed and the translation goes on; otherwise the code behind
it is skipped, too. -/
def afterBlock (reached : Bool) (wrap : Emitted → Emitted) (depths : List ℕ)
    (next : Option Compiled) : Option Compiled :=
  if reached then next.map fun n => ⟨wrap n.code, depths ++ n.reached, n.exit⟩
  else some ⟨wrap .trap, depths, .stops true⟩

/-- The stack an `else` branch starts with.  When the code before it stopped in an inner block, the
branch is entered without its parameters, or not at all if something already branches to the end:
its basic block stays unfinished then. -/
def elseSlots (params : ℕ) (thnReached : Bool) : Exit → Option (List Slot)
  | .stops true => if thnReached then none else some []
  | _ => some (List.replicate params .unknown)

/-- The same operator in front of the code behind it. -/
def Compiled.cons (f : Emitted → Emitted) (c : Compiled) : Compiled := { c with code := f c.code }

/-! ## The translation -/

/-- `aot_compile_op_br`. -/
def compileBr (labels : List Label) (slots : List Slot) (depth : ℕ) : Option Compiled := do
  let label ← labels[depth]?
  let _ ← pop label.arity slots
  return ⟨.br depth label.arity, [depth], .stops false⟩

/-- The targets of `br_table`, each of which takes its values off the stack and puts them back. -/
def brTargets (labels : List Label) : List ℕ → List Slot → Option (List (ℕ × ℕ))
  | [], _ => some []
  | depth :: depths, slots => do
    let label ← labels[depth]?
    let slots ← repush label.arity slots
    let targets ← brTargets labels depths slots
    return (depth, label.arity) :: targets

/-- `aot_compile_func`, from some place in the body on, with the stack of the current block and
the list of checked addresses. -/
def compile (env : CompEnv) (labels : List Label) :
    List Slot → List CheckedAddr → Code → Option Compiled
  | slots, checked, .done => some ⟨.done, [], .falls slots checked⟩
  | slots, checked, .const n next =>
    (compile env labels (⟨some n, none⟩ :: slots) checked next).map (·.cons (.push n))
  | slots, checked, .op id pops pushes next => do
    let rest ← pop pops slots
    match env.fold id ((slots.take pops).map Slot.const) with
    | .traps => return ⟨.trap, [], .stops false⟩
    | .pushes consts =>
      let results := (List.range pushes).map fun k => (⟨(consts[k]?).join, none⟩ : Slot)
      (compile env labels (results ++ rest) checked next).map (·.cons (.op pops pushes))
  | slots, checked, .localGet idx next =>
    if idx < env.localCount then
      (compile env labels (⟨none, some idx⟩ :: slots) checked next).map (·.cons (.localGet idx))
    else none
  | slots, checked, .localSet idx next =>
    if idx < env.localCount then do
      let rest ← pop 1 slots
      (compile env labels rest (checkedAddrListDel checked idx) next).map
        (·.cons (.localSet idx))
    else none
  | slots, checked, .localTee idx next =>
    if idx < env.localCount then do
      let slots ← repush 1 slots
      (compile env labels slots (checkedAddrListDel checked idx) next).map
        (·.cons (.localTee idx))
    else none
  | slots, checked, .access above offset width pushes next => do
    match ← pop above slots with
    | [] => none
    | addr :: rest =>
      let (code, checked) := checkMemoryOverflow env addr offset width.bytes checked
      (compile env labels (List.replicate pushes .unknown ++ rest) checked next).map
        (·.cons (.access above code pushes))
  | slots, checked, .block params results body next => do
    let rest ← pop params slots
    let body ← compile env (⟨false, params, results⟩ :: labels)
      (List.replicate params .unknown) checked body
    let reached ← endReached results false body
    afterBlock reached (.block params results body.code) (outerDepths body.reached)
      (compile env labels (List.replicate results .unknown ++ rest) [] next)
  | slots, _, .loop params results body next => do
    let rest ← pop params slots
    let body ← compile env (⟨true, params, results⟩ :: labels)
      (List.replicate params .unknown) [] body
    let reached ← endReached results true body
    afterBlock reached (.loop params results body.code) (outerDepths body.reached)
      (compile env labels (List.replicate results .unknown ++ rest) [] next)
  | slots, checked, .ifThen params results thn next => do
    match slots with
    | [] => none
    | cond :: slots =>
      match cond.const with
      | some 0 => compile env labels slots checked next
      | some _ =>
        let rest ← pop params slots
        let thn ← compile env (⟨false, params, results⟩ :: labels)
          (List.replicate params .unknown) checked thn
        let reached ← endReached results false thn
        afterBlock reached (.block params results thn.code) (outerDepths thn.reached)
          (compile env labels (List.replicate results .unknown ++ rest) [] next)
      | none =>
        let rest ← pop params slots
        let thn ← compile env (⟨false, params, results⟩ :: labels)
          (List.replicate params .unknown) checked thn
        let _ ← endReached results false thn
        -- without an `else` the end is always reached
        afterBlock true (.ifElse params results thn.code .done) (outerDepths thn.reached)
          (compile env labels (List.replicate results .unknown ++ rest) [] next)
  | slots, checked, .ifElse params results thn els next => do
    match slots with
    | [] => none
    | cond :: slots =>
      let rest ← pop params slots
      match cond.const with
      | some 0 =>
        -- the parameters of the block are attached to an entry block that does not exist
        if params ≠ 0 then none
        else do
          let els ← compile env (⟨false, params, results⟩ :: labels) [] checked els
          let reached ← endReached results false els
          afterBlock reached (.block params results els.code) (outerDepths els.reached)
            (compile env labels (List.replicate results .unknown ++ rest) [] next)
      | some _ =>
        let thn ← compile env (⟨false, params, results⟩ :: labels)
          (List.replicate params .unknown) checked thn
        let reached ← endReached results false thn
        afterBlock reached (.block params results thn.code) (outerDepths thn.reached)
          (compile env labels (List.replicate results .unknown ++ rest) [] next)
      | none =>
        let thn ← compile env (⟨false, params, results⟩ :: labels)
          (List.replicate params .unknown) checked thn
        let thnReached ← endReached results false thn
        let elsSlots ← elseSlots params thnReached thn.exit
        let els ← compile env (⟨false, params, results⟩ :: labels) elsSlots [] els
        let elsReached ← endReached results false els
        afterBlock (thnReached || elsReached) (.ifElse params results thn.code els.code)
          (outerDepths thn.reached ++ outerDepths els.reached)
          (compile env labels (List.replicate results .unknown ++ rest) [] next)
  | slots, _, .br depth _ => compileBr labels slots depth
  | slots, checked, .brIf depth next => do
    match slots with
    | [] => none
    | cond :: slots =>
      match cond.const with
      | some 0 => compile env labels slots checked next
      | some _ => compileBr labels slots depth
      | none =>
        let label ← labels[depth]?
        let slots ← repush label.arity slots
        (compile env labels slots checked next).map fun c =>
          ⟨.brIf depth label.arity c.code, depth :: c.reached, c.exit⟩
  | slots, _, .brTable depths default _ => do
    match slots with
    | [] => none
    | idx :: slots =>
      match idx.const with
      | some k => compileBr labels slots (depths.getD k default)
      | none =>
        let targets ← brTargets labels (depths ++ [default]) slots
        return ⟨.brTable targets.dropLast (targets.getLast?.getD (0, 0)), depths ++ [default],
          .stops false⟩
  | slots, _, .ret _ => do
    let label ← labels.getLast?
    let _ ← pop label.results slots
    return ⟨.ret, [], .stops false⟩
  | _, _, .unreachable _ => some ⟨.trap, [], .stops false⟩

/-- The translation of a function: its body is a block with a label for the function itself. -/
def compileFunc (env : CompEnv) (results : ℕ) (body : Code) : Option Emitted := do
  let c ← compile env [⟨false, 0, results⟩] [] [] body
  let _ ← endReached results false c
  return c.code

end Watz.Aot
