import Watz.Lib.Program

/-!
# Calls from a Wasm module to native functions

A native function is registered with a signature, which says for each parameter whether it is a
plain value, a pointer into the linear memory of the module, the length of the pointer before it,
or a string.  The signature is compared with the type of the import when a module is loaded
(`check_symbol_signature`), and it is walked once more at every call, to translate pointers and to
put the arguments where the calling convention wants them (`wasm_runtime_invoke_native`).
-/

namespace Watz.Wamr

open Lib

/-! ## Linear memory -/

/-- The default memory of an instance (`AOTMemoryInstance`), at its native address, and what is
stored at any native address.  Nothing is mapped in the first page of the address space. -/
structure LinearMemory where
  memoryData : ℕ
  memoryDataSize : ℕ
  content : ℕ → UInt8
  page_le : 4096 ≤ memoryData
  size_lt : memoryDataSize < 2 ^ 32
  end_lt : memoryData + memoryDataSize < 2 ^ 64

namespace LinearMemory

variable (mem : LinearMemory)

/-- `memory_data_end`. -/
def memoryDataEnd : ℕ := mem.memoryData + mem.memoryDataSize

/-- `wasm_runtime_validate_app_addr`. -/
def validateAppAddr (appOffset size : UInt32) : Bool :=
  -- integer overflow check
  if appOffset + size < appOffset then false
  else (appOffset + size).toNat ≤ mem.memoryDataSize

/-- `wasm_runtime_validate_native_addr`. -/
def validateNativeAddr (nativePtr size : ℕ) : Bool :=
  -- integer overflow check
  if (nativePtr + size) % 2 ^ 64 < nativePtr then false
  else mem.memoryData ≤ nativePtr ∧ (nativePtr + size) % 2 ^ 64 ≤ mem.memoryDataEnd

/-- `wasm_runtime_addr_app_to_native`, zero being the null pointer. -/
def addrAppToNative (appOffset : UInt32) : ℕ :=
  if mem.memoryData + appOffset.toNat < mem.memoryDataEnd then mem.memoryData + appOffset.toNat
  else 0

/-- How many bytes from an address on, of the given number, come before the first zero byte. -/
def scan (content : ℕ → UInt8) : ℕ → ℕ → ℕ
  | 0, _ => 0
  | n + 1, addr => if content addr = 0 then 0 else scan content n (addr + 1) + 1

/-- `strlen` of a string in linear memory. -/
def strlen (addr : ℕ) : ℕ := scan mem.content (mem.memoryDataEnd - addr) addr

/-- `wasm_runtime_validate_app_str_addr`. -/
def validateAppStrAddr (appStrOffset : UInt32) : Bool :=
  appStrOffset.toNat < mem.memoryDataSize
    ∧ mem.strlen (mem.memoryData + appStrOffset.toNat)
        < mem.memoryDataEnd - (mem.memoryData + appStrOffset.toNat)

end LinearMemory

/-- A part of the address space. -/
structure Buffer where
  addr : ℕ
  len : ℕ
deriving DecidableEq, Repr

/-! ## Signatures -/

/-- The types of values without reference types and vectors, which the build leaves out. -/
inductive ValueType where
  | i32
  | i64
  | f32
  | f64
deriving DecidableEq, Repr

/-- `WASMType`. -/
structure FuncType where
  params : List ValueType
  results : List ValueType
deriving DecidableEq, Repr

/-- `sig_map`. -/
def sigMap : ValueType → Char
  | .f64 => 'F'
  | .f32 => 'f'
  | .i64 => 'I'
  | .i32 => 'i'

/-- The loop of `check_symbol_signature` over the parameters: what is left of the signature. -/
def checkParams : List ValueType → List Char → Option (List Char)
  | [], p => some p
  | _ :: _, [] => none
  -- a pointer with its length
  | .i32 :: .i32 :: types, '*' :: '~' :: p => checkParams types p
  | t :: types, sig :: p =>
    if sig = sigMap t then checkParams types p
    else if t ≠ .i32 then none
    else if sig = '*' then checkParams types p
    else if sig = '$' then checkParams types p
    else none

/-- `check_symbol_signature`. -/
def checkSymbolSignature (type : FuncType) : List Char → Bool
  | '(' :: p =>
    if p.length < type.params.length + 1 then false
    else
      match checkParams type.params p, type.results with
      | some (')' :: p), [] => p = []
      | some (')' :: p), r :: _ => p = [sigMap r]
      | _, _ => false
  | _ => false

/-! ## Placing the arguments -/

/-- Which registers an argument goes to. -/
inductive ArgClass where
  | int
  | float
deriving DecidableEq, Repr

def ValueType.argClass : ValueType → ArgClass
  | .i32 => .int
  | .i64 => .int
  | .f32 => .float
  | .f64 => .float

/-- The number of 32-bit cells of a value. -/
def ValueType.cells : ValueType → ℕ
  | .i32 => 1
  | .f32 => 1
  | .i64 => 2
  | .f64 => 2

/-- `MAX_REG_FLOATS` and `MAX_REG_INTS` of a target with registers of both kinds. -/
structure CallConv where
  maxRegFloats : ℕ
  maxRegInts : ℕ
  ints_pos : 0 < maxRegInts
  ints_le : maxRegInts ≤ maxRegFloats + 1

def CallConv.aarch64 : CallConv := ⟨8, 8, by decide, by decide⟩

/-- The array `argv1` with the counters of `wasm_runtime_invoke_native`: first the registers for
floats, then those for integers, then the stack.  Beside it stand the indices written, the
arguments in the order in which they were put there, and the buffers that were validated. -/
structure Frame where
  argv1 : ℕ → ℕ
  nInts : ℕ
  nFps : ℕ
  nStacks : ℕ
  written : List ℕ
  pushed : List (ArgClass × ℕ)
  buffers : List Buffer

def Frame.empty : Frame := ⟨fun _ => 0, 0, 0, 0, [], [], []⟩

namespace Frame

variable (cc : CallConv)

def write (idx v : ℕ) (f : Frame) : Frame :=
  { f with argv1 := Function.update f.argv1 idx v, written := f.written ++ [idx] }

/-- Put an argument into the next register of its class or on the stack. -/
def push (cls : ArgClass) (v : ℕ) (f : Frame) : Frame :=
  let f := { f with pushed := f.pushed ++ [(cls, v)] }
  match cls with
  | .int =>
    if f.nInts < cc.maxRegInts then
      { f.write (cc.maxRegFloats + f.nInts) v with nInts := f.nInts + 1 }
    else
      { f.write (cc.maxRegFloats + cc.maxRegInts + f.nStacks) v with nStacks := f.nStacks + 1 }
  | .float =>
    if f.nFps < cc.maxRegFloats then { f.write f.nFps v with nFps := f.nFps + 1 }
    else
      { f.write (cc.maxRegFloats + cc.maxRegInts + f.nStacks) v with nStacks := f.nStacks + 1 }

def addBuffer (b : Buffer) (f : Frame) : Frame := { f with buffers := f.buffers ++ [b] }

end Frame

/-- A 64-bit value in two cells. -/
def word64 (argv : List UInt32) : ℕ := (argv.headD 0).toNat + 2 ^ 32 * (argv.tail.headD 0).toNat

/-- An argument of type `i32` with the signature from its place on and the cells behind it.  A
pointer that cannot be validated stops the call. -/
def passI32 (mem : LinearMemory) (sig : List Char) (arg : UInt32) (argv : List UInt32) :
    EStateM Unit Frame ℕ :=
  if sig.head? = some '*' then do
    let ptrLen := if sig.tail.head? = some '~' then argv.headD 0 else 1
    failIf (mem.validateAppAddr arg ptrLen = false) ()
    modify (Frame.addBuffer ⟨mem.memoryData + arg.toNat, ptrLen.toNat⟩)
    pure (mem.addrAppToNative arg)
  else if sig.head? = some '$' then do
    failIf (mem.validateAppStrAddr arg = false) ()
    modify (Frame.addBuffer
      ⟨mem.memoryData + arg.toNat, mem.strlen (mem.memoryData + arg.toNat) + 1⟩)
    pure (mem.addrAppToNative arg)
  else pure arg.toNat

section

variable (cc : CallConv) (mem : LinearMemory)

/-- The loop of `wasm_runtime_invoke_native` over the parameters, with the rest of the signature and
of `argv`.  It returns the cells behind the parameters. -/
def passParams : List ValueType → List Char → List UInt32 → EStateM Unit Frame (List UInt32)
  | [], _, argv => pure argv
  | .i32 :: types, sig, argv => do
    let v ← passI32 mem sig (argv.headD 0) argv.tail
    modify (Frame.push cc .int v)
    passParams types sig.tail argv.tail
  | .i64 :: types, sig, argv => do
    modify (Frame.push cc .int (word64 argv))
    passParams types sig.tail (argv.drop 2)
  | .f32 :: types, sig, argv => do
    modify (Frame.push cc .float (argv.headD 0).toNat)
    passParams types sig.tail argv.tail
  | .f64 :: types, sig, argv => do
    modify (Frame.push cc .float (word64 argv))
    passParams types sig.tail (argv.drop 2)

/-- The addresses of the results behind the first one. -/
def passExtRets : ℕ → List UInt32 → EStateM Unit Frame Unit
  | 0, _ => pure ()
  | n + 1, argv => do
    modify (Frame.push cc .int (word64 argv))
    passExtRets n (argv.drop 2)

/-- `ext_ret_count`. -/
def FuncType.extRetCount (type : FuncType) : ℕ := type.results.length - 1

/-- `argc1`, the length of `argv1`. -/
def argc1 (type : FuncType) : ℕ := 1 + cc.maxRegFloats + type.params.length + type.extRetCount

/-- `wasm_runtime_invoke_native` up to the call itself, for a function with a signature. -/
def wasmRuntimeInvokeNative (type : FuncType) (signature : List Char) (argv : List UInt32)
    (execEnv : ℕ) : EStateM Unit Frame Unit := do
  modify (Frame.push cc .int execEnv)
  let argv ← passParams cc mem type.params signature.tail argv
  passExtRets cc type.extRetCount argv

/-! ## The other side of the call -/

/-- What a function with parameters of the given classes finds by the calling convention: the next
register of the class, or the next word of the stack. -/
def readArgs (argv1 : ℕ → ℕ) : ℕ → ℕ → ℕ → List ArgClass → List ℕ
  | _, _, _, [] => []
  | nInts, nFps, nStacks, .int :: classes =>
    if nInts < cc.maxRegInts then
      argv1 (cc.maxRegFloats + nInts) :: readArgs argv1 (nInts + 1) nFps nStacks classes
    else
      argv1 (cc.maxRegFloats + cc.maxRegInts + nStacks)
        :: readArgs argv1 nInts nFps (nStacks + 1) classes
  | nInts, nFps, nStacks, .float :: classes =>
    if nFps < cc.maxRegFloats then
      argv1 nFps :: readArgs argv1 nInts (nFps + 1) nStacks classes
    else
      argv1 (cc.maxRegFloats + cc.maxRegInts + nStacks)
        :: readArgs argv1 nInts nFps (nStacks + 1) classes

/-- The parameters of a native function for an import: the execution environment, those of the
import, and the addresses of further results. -/
def FuncType.argClasses (type : FuncType) : List ArgClass :=
  .int :: type.params.map ValueType.argClass ++ List.replicate type.extRetCount .int

/-- The arguments a native function finds. -/
def Frame.args (f : Frame) (type : FuncType) : List ℕ := readArgs cc f.argv1 0 0 0 type.argClasses

end

end Watz.Wamr
