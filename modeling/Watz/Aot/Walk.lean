import Watz.Lib.BasicBlocks

/-!
# The walk over a function body

`aot_compile_func` goes over the opcodes of a function from the first to the last and builds LLVM
blocks for them (`core/iwasm/compilation/aot_emit_control.c`).  Code that nothing reaches is not
translated: behind a branch `handle_next_reachable_block` gives up the enclosing blocks whose end
nothing reaches and moves `frame_ip` to the place where the translation goes on.

This file models that walk: the block stack with the flags of its blocks, the value stacks, the
basic blocks with their terminators, and where `frame_ip` goes, which is an index into the bytes of
the body.  The end of a block is searched for in these bytes, and that search takes every type of a
block to be one byte long.  What an opcode does depends on types and on whether LLVM has folded an
operand to a constant, neither of which is known from the bytes; every byte carries the answer for a
compiler that reads on from there.  Types, phi nodes and the code of the other operators are left
out.  An operator that is checked at run time ends the current block for each check, with the
exception block as the other successor.
-/

namespace Watz.Aot.Walk

open Lib (Cfg)

/-! ## Opcodes -/

/-- The opcodes of a body. -/
inductive Op where
  /-- An operator: its operands and results, the checks it is translated with, and whether an
  operand is a constant with which it surely fails (division by zero). -/
  | plain (pops pushes checks : ℕ) (traps : Bool)
  | block (params results : ℕ)
  | loop (params results : ℕ)
  | if_ (const : Option Bool) (params results : ℕ)
  | else_
  | end_
  | br (depth : ℕ)
  | brIf (const : Option Bool) (depth : ℕ)
  | brTable (const : Option ℕ) (depths : List ℕ) (default : ℕ)
  | ret
  | unreachable
deriving DecidableEq, Repr

/-- A byte of the code, with what the compiler reads if `frame_ip` is there: an opcode, and the number
of bytes that it takes with its immediates. -/
structure CodeByte where
  byte : UInt8
  op : Op
  width : ℕ
deriving DecidableEq, Repr

/-! ## The search for the end of a block -/

/-- `skip_leb`, some times: how many bytes the numbers take. -/
def skipLebs : ℕ → List UInt8 → ℕ
  | 0, _ => 0
  | _ + 1, [] => 0
  | n + 1, b :: bytes => (if b < 0x80 then skipLebs n bytes else skipLebs (n + 1) bytes) + 1

/-- `read_leb_uint32`, with so many bytes left of the five: the number, and how many bytes it
takes. -/
def readLebUint32 : ℕ → List UInt8 → Option (ℕ × ℕ)
  | 0, _ => none
  | _ + 1, [] => none
  | n + 1, b :: bytes =>
    if b < 0x80 then if n = 0 ∧ 0x10 ≤ b then none else some (b.toNat, 1)
    else (readLebUint32 n bytes).map fun r => (b.toNat % 0x80 + 0x80 * r.1, r.2 + 1)

/-- The bytes that `wasm_loader_find_block_addr` skips behind an opcode, other than those of blocks,
and `none` for a byte that is no opcode.  The option for reference types is taken to be set: without
it their opcodes are not valid. -/
def immediates (opcode : UInt8) (bytes : List UInt8) : Option ℕ :=
  if opcode ∈ [0x00, 0x01, 0x0f, 0x1a, 0x1b, 0xd1] ∨ 0x45 ≤ opcode ∧ opcode ≤ 0xc6 then some 0
  else if opcode ∈ [0x0c, 0x0d, 0x10, 0x12, 0xd2] ∨ 0x1d ≤ opcode ∧ opcode ≤ 0x26
      ∨ 0x3f ≤ opcode ∧ opcode ≤ 0x42 then some (skipLebs 1 bytes)
  else if 0x28 ≤ opcode ∧ opcode ≤ 0x3e then some (skipLebs 2 bytes)
  else if opcode ∈ [0x11, 0x13, 0x1c] then some (skipLebs 1 bytes + 1)
  else if opcode ∈ [0xc7, 0xc9, 0xca, 0xd0] then some 1
  else if opcode = 0x43 then some 4
  else if opcode = 0x44 then some 8
  else if opcode = 0x0e then do
    let (count, n) ← readLebUint32 5 bytes
    return n + skipLebs (count + 1) (bytes.drop n)
  else if opcode = 0xfc then do
    let (op, n) ← readLebUint32 5 bytes
    let lebs := fun k => n + skipLebs k (bytes.drop n)
    if op ≤ 0x07 then return n
    else if op = 0x08 then return lebs 1 + 1
    else if op = 0x0a then return n + 2
    else if op = 0x0b then return n + 1
    else if op = 0x0c ∨ op = 0x0e then return lebs 2
    else if op ≤ 0x11 then return lebs 1
    else none
  else if opcode = 0xfd then do
    let op ← bytes.head?
    if op ≤ 0x0b then return skipLebs 2 bytes.tail + 1
    else if op ≤ 0x0d then return 17
    else if op ≤ 0x14 then return 1
    else if op ≤ 0x22 then return 2
    else if op ≤ 0xfb then return 1
    else none
  else if opcode = 0xfe then do
    let op ← bytes.head?
    return if op = 0x03 then 2 else skipLebs 2 bytes.tail + 1
  else none

/-- The loop of `wasm_loader_find_block_addr`: the bytes to come, how many of them are to be skipped,
their address, how many blocks are open there, and the `else` found so far. -/
def scan (isIf : Bool) : List UInt8 → ℕ → ℕ → ℕ → Option ℕ → Option (Option ℕ × ℕ)
  | [], _, _, _, _ => none
  | _ :: bytes, skip + 1, p, depth, elseAddr => scan isIf bytes skip (p + 1) depth elseAddr
  | opcode :: bytes, 0, p, depth, elseAddr =>
    if opcode ∈ [0x02, 0x03, 0x04] then
      -- the type of the block is taken to be one byte
      scan isIf bytes 1 (p + 1) (depth + 1) elseAddr
    else if opcode ∈ [0xd3, 0xd4, 0xd5] then
      scan isIf bytes (skipLebs 1 bytes) (p + 1) (depth + 1) elseAddr
    else if opcode = 0x05 then
      scan isIf bytes 0 (p + 1) depth (if isIf ∧ depth = 1 then some p else elseAddr)
    else if opcode = 0x0b then
      if depth = 1 then some (elseAddr, p) else scan isIf bytes 0 (p + 1) (depth - 1) elseAddr
    else
      match immediates opcode bytes with
      | none => none
      | some skip => scan isIf bytes skip (p + 1) depth elseAddr

/-- `wasm_loader_find_block_addr`, whose cache is cleared for every search: where the `else` of a
block, if there is one, and its `end` are, for a block with its code at some address. -/
def findBlockAddr (isIf : Bool) (code : List CodeByte) (p : ℕ) : Option (Option ℕ × ℕ) :=
  scan isIf ((code.drop p).map CodeByte.byte) 0 p 1 none

/-! ## The state of the compiler -/

/-- The label types of blocks. -/
inductive LabelType where
  | block
  | loop
  | if_
  | function
deriving DecidableEq, Repr

/-- A value of the value stack: a phi node at the start of a basic block, or the result of an
operator. -/
inductive Value where
  | phi (block index : ℕ)
  | result
deriving DecidableEq, Repr

/-- The phi nodes of a basic block, pushed in their order; the top of a stack comes first. -/
def phis (block n : ℕ) : List Value := ((List.range n).map (Value.phi block)).reverse

@[simp] lemma length_phis (block n : ℕ) : (phis block n).length = n := by
  simp [phis]

/-- `AOTBlock`.  The phi nodes for parameters and results are those of the basic blocks. -/
structure Block where
  labelType : LabelType
  params : ℕ
  results : ℕ
  wasmCodeElse : Option ℕ
  wasmCodeEnd : ℕ
  llvmEntryBlock : Option ℕ
  llvmElseBlock : Option ℕ
  llvmEndBlock : Option ℕ
  skipWasmCodeElse : Bool
  isReachable : Bool
  valueStack : List Value
deriving DecidableEq, Repr

/-- The start of an `else` arm: its basic block, the number of parameters of the `if`, and the
value stack. -/
structure ElseStart where
  block : ℕ
  params : ℕ
  stack : List Value
deriving DecidableEq, Repr

/-- The arm starts with exactly the parameters of its block. -/
def ElseStart.WithParams (e : ElseStart) : Prop := e.stack = phis e.block e.params

instance (e : ElseStart) : Decidable e.WithParams :=
  inferInstanceAs (Decidable (e.stack = phis e.block e.params))

/-- The compiler between two opcodes: `frame_ip`, the block stack with the innermost block first,
the basic blocks, the one that the builder is at the end of, and the exception block.  The `else`
arms started so far are kept along. -/
structure State where
  ip : ℕ
  blocks : List Block
  cfg : Cfg
  builder : ℕ
  gotExceptionBlock : Option ℕ
  elses : List ElseStart
deriving DecidableEq, Repr

namespace State

/-- `CREATE_BLOCK`; the new block has the number `s.cfg.count`. -/
def create (s : State) : State := { s with cfg := s.cfg.create }

/-- A terminator at the end of the current block. -/
def buildBr (s : State) (succs : List ℕ) : State :=
  { s with cfg := s.cfg.terminate s.builder succs }

/-- `SET_BUILDER_POS`. -/
def setBuilderPos (s : State) (b : ℕ) : State := { s with builder := b }

/-- `POP`, several times. -/
def pop (s : State) (n : ℕ) : Option State :=
  match s.blocks with
  | [] => none
  | b :: prev =>
    if n ≤ b.valueStack.length then
      some { s with blocks := { b with valueStack := b.valueStack.drop n } :: prev }
    else none

/-- `PUSH`, several times. -/
def push (s : State) (values : List Value) : Option State :=
  match s.blocks with
  | [] => none
  | b :: prev => some { s with blocks := { b with valueStack := values ++ b.valueStack } :: prev }

/-- The block that operators jump to when they fail, which is created when it is first needed. -/
def exceptionBlock (s : State) : State × ℕ :=
  match s.gotExceptionBlock with
  | some e => (s, e)
  | none =>
    ({ s with
        cfg := s.cfg.create.terminate s.cfg.count []
        gotExceptionBlock := some s.cfg.count }, s.cfg.count)

/-- `aot_emit_exception`, with the block to go on with if the exception is conditional. -/
def aotEmitException (s : State) (condBrElse : Option ℕ) : State :=
  let (s, e) := s.exceptionBlock
  match condBrElse with
  | none => s.buildBr [e]
  | some b => (s.buildBr [e, b]).setBuilderPos b

/-- The checks of an operator, each with a block behind it. -/
def emitChecks : ℕ → State → State
  | 0, s => s
  | n + 1, s => emitChecks n (s.create.aotEmitException (some s.cfg.count))

end State

/-! ## The next reachable block -/

/-- The `else` arm of an `if` that is still to be translated at some position: its basic block and
the address of the `else`. -/
def Block.elsePending (b : Block) (ip : ℕ) : Option (ℕ × ℕ) :=
  if b.labelType = .if_ ∧ b.skipWasmCodeElse = false then
    match b.llvmElseBlock, b.wasmCodeElse with
    | some e, some q => if ip ≤ q then some (e, q) else none
    | _, _ => none
  else none

/-- The value stack of the innermost block is replaced and the `else` arm is started. -/
def State.startElse (s : State) (b : Block) (prev : List Block) (elseBlock : ℕ)
    (stack : List Value) : State :=
  { s with
    blocks := { b with valueStack := stack } :: prev
    builder := elseBlock
    elses := s.elses ++ [⟨elseBlock, b.params, stack⟩] }

/-- The end of `handle_next_reachable_block`: the translation goes on behind a block whose end is
reached, with its results, or is at the end of the function. -/
def leaveBlock (s : State) (b : Block) (prev : List Block) : Option State := do
  let e ← b.llvmEndBlock
  let s := { s with ip := b.wasmCodeEnd + 1, builder := e, blocks := prev }
  if b.labelType = .function then return s.buildBr [] else s.push (phis e b.results)

/-- The end block of an `if` that nothing reaches is removed. -/
def State.dropEnd (s : State) (b : Block) : State :=
  match b.labelType, b.llvmEndBlock with
  | .if_, some e => { s with cfg := s.cfg.delete e }
  | _, _ => s

/-- The loop of `handle_next_reachable_block`: blocks whose end nothing reaches are popped.  An
`else` arm that is still to be translated is started with an empty value stack. -/
def popUnreachable (s : State) : ℕ → List Block → Option State
  | frameIp, [] => some { s with blocks := [], ip := frameIp + 1 }
  | _, b :: prev =>
    if b.isReachable then leaveBlock s b prev
    else
      match b.elsePending s.ip with
      | some (e, q) => some { s.startElse b prev e [] with ip := q + 1 }
      | none => popUnreachable (s.dropEnd b) b.wasmCodeEnd prev

/-- `handle_next_reachable_block`.  An `else` arm of the innermost block is started with the
parameters. -/
def handleNextReachableBlock (s : State) : Option State :=
  match s.blocks with
  | [] => none
  | b :: prev =>
    match b.elsePending s.ip with
    | some (e, q) => some { s.startElse b prev e (phis e b.params) with ip := q + 1 }
    | none => popUnreachable s 0 (b :: prev)

/-! ## The opcodes of control -/

/-- `push_aot_block_to_stack_and_pass_params`.  The builder is moved to the entry block for the phi
nodes of the parameters; without an entry block that is a null pointer. -/
def pushBlockAndPassParams (s : State) (b : Block) : Option State :=
  if b.params = 0 then some { s with blocks := b :: s.blocks }
  else do
    let entry ← b.llvmEntryBlock
    let s ← s.pop b.params
    return { s with blocks := { b with valueStack := phis entry b.params } :: s.blocks }

/-- A block as it is before its basic blocks are created. -/
def newBlock (label : LabelType) (params results : ℕ) (elseAddr : Option ℕ) (endAddr : ℕ) :
    Block where
  labelType := label
  params := params
  results := results
  wasmCodeElse := elseAddr
  wasmCodeEnd := endAddr
  llvmEntryBlock := none
  llvmElseBlock := none
  llvmEndBlock := none
  skipWasmCodeElse := false
  isReachable := false
  valueStack := []

/-- The entry block of a block is created, the current block jumps to it, and the translation goes
on there. -/
def enterBlock (s : State) (b : Block) : Option State := do
  let entry := s.cfg.count
  let s ← pushBlockAndPassParams (s.create.buildBr [entry]) { b with llvmEntryBlock := some entry }
  return s.setBuilderPos entry

/-- `aot_compile_op_block` for `block` and `loop`. -/
def aotCompileOpBlock (code : List CodeByte) (s : State) (label : LabelType) (params results : ℕ) :
    Option State := do
  let (elseAddr, endAddr) ← findBlockAddr false code s.ip
  enterBlock s (newBlock label params results elseAddr endAddr)

/-- `aot_compile_op_block` for `if`.  A condition that is not constant makes a conditional branch; a
constant one leaves one of the arms. -/
def aotCompileOpIf (code : List CodeByte) (s : State) (const : Option Bool) (params results : ℕ) :
    Option State := do
  let (elseAddr, endAddr) ← findBlockAddr true code s.ip
  let b := newBlock .if_ params results elseAddr endAddr
  let s ← s.pop 1
  match const with
  | none =>
    let entry := s.cfg.count
    let end_ := s.cfg.count + 1
    match elseAddr with
    | some _ =>
      let else_ := s.cfg.count + 2
      let s ← pushBlockAndPassParams (s.create.create.create.buildBr [entry, else_])
        { b with
          llvmEntryBlock := some entry, llvmEndBlock := some end_, llvmElseBlock := some else_ }
      return s.setBuilderPos entry
    | none =>
      let s ← pushBlockAndPassParams (s.create.create.buildBr [entry, end_])
        { b with llvmEntryBlock := some entry, llvmEndBlock := some end_, isReachable := true }
      return s.setBuilderPos entry
  | some true => enterBlock s { b with skipWasmCodeElse := true }
  | some false =>
    match elseAddr with
    | some q =>
      let else_ := s.cfg.count
      let s ← pushBlockAndPassParams (s.create.buildBr [else_]) { b with llvmElseBlock := some else_ }
      let stack ← s.blocks.head?.map Block.valueStack
      return { s with builder := else_, ip := q + 1, elses := s.elses ++ [⟨else_, params, stack⟩] }
    | none => return { s with ip := endAddr + 1 }

/-- The end block of a block, which is created if there is none yet. -/
def State.endBlock (s : State) (b : Block) : State × ℕ :=
  match b.llvmEndBlock with
  | some e => (s, e)
  | none => (s.create, s.cfg.count)

/-- A block with its end reached, at some end block. -/
def Block.atEnd (b : Block) (e : ℕ) : Block := { b with llvmEndBlock := some e, isReachable := true }

/-- The end of a block of the stack is reached. -/
def reachEnd (s : State) (depth : ℕ) : Option (State × ℕ) := do
  let b ← s.blocks[depth]?
  let (s', e) := s.endBlock b
  return ({ s' with blocks := s.blocks.set depth (b.atEnd e) }, e)

/-- `aot_compile_op_else`. -/
def aotCompileOpElse (s : State) : Option State := do
  let b ← s.blocks.head?
  if b.labelType = .if_ ∧ (b.skipWasmCodeElse ∨ b.llvmElseBlock.isSome) then
    let (s, e) ← reachEnd s 0
    let s ← s.pop b.results
    let s := s.buildBr [e]
    match b.skipWasmCodeElse, b.llvmElseBlock, s.blocks with
    | false, some else_, b :: prev => return s.startElse b prev else_ (phis else_ b.params)
    | _, _, _ => handleNextReachableBlock s
  else none

/-- `aot_compile_op_end`. -/
def aotCompileOpEnd (s : State) : Option State := do
  let b ← s.blocks.head?
  let (s, e) ← reachEnd s 0
  let s ← s.pop b.results
  handleNextReachableBlock (s.buildBr [e])

/-- The basic block that a branch goes to and how many values it takes along: the entry of a loop,
the end of any other block. -/
def branchTarget (s : State) (depth : ℕ) : Option (State × ℕ × ℕ) := do
  let b ← s.blocks[depth]?
  if b.labelType = .loop then
    let entry ← b.llvmEntryBlock
    return (s, entry, b.params)
  else
    let (s, e) ← reachEnd s depth
    return (s, e, b.results)

/-- `aot_compile_op_br`. -/
def aotCompileOpBr (s : State) (depth : ℕ) : Option State := do
  let (s, target, arity) ← branchTarget s depth
  let s ← s.pop arity
  handleNextReachableBlock (s.buildBr [target])

/-- `aot_compile_op_br_if`.  The values of the branch stay on the stack. -/
def aotCompileOpBrIf (s : State) (const : Option Bool) (depth : ℕ) : Option State := do
  let s ← s.pop 1
  match const with
  | none =>
    let else_ := s.cfg.count
    let (s, target, arity) ← branchTarget s.create depth
    let _ ← s.pop arity
    return (s.buildBr [target, else_]).setBuilderPos else_
  | some true => aotCompileOpBr s depth
  | some false => return s

/-- The targets of `br_table`. -/
def switchTargets : List ℕ → State → Option (State × List ℕ)
  | [], s => some (s, [])
  | depth :: depths, s => do
    let (s, target, arity) ← branchTarget s depth
    let _ ← s.pop arity
    let (s, targets) ← switchTargets depths s
    return (s, target :: targets)

/-- `aot_compile_op_br_table`. -/
def aotCompileOpBrTable (s : State) (const : Option ℕ) (depths : List ℕ) (default : ℕ) :
    Option State := do
  let s ← s.pop 1
  match const with
  | none =>
    let (s, targets) ← switchTargets (depths ++ [default]) s
    handleNextReachableBlock (s.buildBr targets)
  | some index => aotCompileOpBr s (depths[index]?.getD default)

/-- `aot_compile_op_return`. -/
def aotCompileOpReturn (s : State) : Option State := do
  let func ← s.blocks.getLast?
  let s ← s.pop func.results
  handleNextReachableBlock (s.buildBr [])

/-- `aot_compile_op_unreachable`. -/
def aotCompileOpUnreachable (s : State) : Option State :=
  handleNextReachableBlock (s.aotEmitException none)

/-- The operators that are not of control. -/
def aotCompilePlain (s : State) (pops pushes checks : ℕ) (traps : Bool) : Option State := do
  let s ← s.pop pops
  let s := s.emitChecks checks
  if traps then handleNextReachableBlock (s.aotEmitException none)
  else s.push (List.replicate pushes .result)

/-! ## The walk -/

/-- `frame_ip` behind the opcode that is read. -/
def State.advance (s : State) (width : ℕ) : State := { s with ip := s.ip + width }

/-- The translation of one opcode, with `frame_ip` behind it. -/
def compileOp (code : List CodeByte) (s : State) : Op → Option State
  | .plain pops pushes checks traps => aotCompilePlain s pops pushes checks traps
  | .block params results => aotCompileOpBlock code s .block params results
  | .loop params results => aotCompileOpBlock code s .loop params results
  | .if_ const params results => aotCompileOpIf code s const params results
  | .else_ => aotCompileOpElse s
  | .end_ => aotCompileOpEnd s
  | .br depth => aotCompileOpBr s depth
  | .brIf const depth => aotCompileOpBrIf s const depth
  | .brTable const depths default => aotCompileOpBrTable s const depths default
  | .ret => aotCompileOpReturn s
  | .unreachable => aotCompileOpUnreachable s

/-- One round of the loop of `aot_compile_func`. -/
def step (code : List CodeByte) (s : State) : Option State := do
  let c ← code[s.ip]?
  compileOp code (s.advance c.width) c.op

/-- The loop, for at most some number of rounds.  The positions it visits are kept along. -/
def walk (code : List CodeByte) : ℕ → State → Option (List ℕ × State)
  | 0, s => if code.length ≤ s.ip then some ([], s) else none
  | fuel + 1, s =>
    if code.length ≤ s.ip then some ([], s)
    else do
      let s₁ ← step code s
      let (visited, final) ← walk code fuel s₁
      return (s.ip :: visited, final)

/-- The block of the function itself (`aot_create_func_block`); its end is behind the last
byte. -/
def funcBlock (code : List CodeByte) (results : ℕ) : Block :=
  { newBlock .function 0 results none code.length with llvmEntryBlock := some 0 }

/-- The state before the first opcode. -/
def start (code : List CodeByte) (results : ℕ) : State :=
  ⟨0, [funcBlock code results], ⟨1, []⟩, 0, none, []⟩

/-- `aot_compile_func`: the positions it visits and the state in which it ends. -/
def aotCompileFunc (code : List CodeByte) (results : ℕ) : Option (List ℕ × State) :=
  walk code code.length (start code results)

end Watz.Aot.Walk
