import Watz.OpTee.Vm
import Watz.Lib.History

/-!
# System calls on an address space

The calls through which code in user mode changes its own mappings: those of the loader
(`core/kernel/ldelf_syscalls.c`) and the commands of the system pseudo application
(`core/pta/system.c`), to which this project's kernel adds `MPROTECT`.
-/

namespace Watz.OpTee

open Lib

def ldelfMapFlagShareable : BitVec 64 := 1#64 <<< 0
def ldelfMapFlagWriteable : BitVec 64 := 1#64 <<< 1
def ldelfMapFlagExecutable : BitVec 64 := 1#64 <<< 2
def ptaSystemMapFlagShareable : BitVec 32 := 1#32 <<< 0

/-- A part of a file that is already in memory. -/
structure FileSlice where
  pageOffset : ℕ
  numPages : ℕ
deriving DecidableEq, Repr

/-- What a system call depends on besides the mappings.  The files are shared with other
applications, so their slices are the environment's. -/
structure KernelEnv extends VmEnv where
  /-- Whether `sess->user_ctx` is set. -/
  hasSystemCtx : Bool
  handleLookup : ℕ → Bool
  fileFindSlice : ℕ → Option FileSlice
  /-- The memory object the next allocation gives, up to its size. -/
  mobj : Mobj

/-- The object `mobj_with_fobj_alloc` makes of some pages.  Its size is a product of 32 bits. -/
def mobjOf (env : KernelEnv) (numPages : ℕ) : Mobj :=
  { env.mobj with size := numPages * smallPageSize % 2 ^ 32 }

/-- `fobj_ta_mem_alloc` and `mobj_with_fobj_alloc`. -/
def newMobj (env : KernelEnv) (numPages : ℕ) : VmProg Mobj := do
  allocate env.toVmEnv
  allocate env.toVmEnv
  return mobjOf env numPages

/-- `ROUNDUP_DIV(v, SMALL_PAGE_SIZE)`. -/
def roundupDiv (v : ℕ) : ℕ := v / smallPageSize + if v % smallPageSize ≠ 0 then 1 else 0

/-- What `ldelf_syscall_map_zi` and `system_map_zi` do once the flags are checked. -/
def mapZi (env : KernelEnv) (va numBytes padBegin padEnd : ℕ) (shareable : Bool) : VmProg ℕ := do
  let prot := teeMattrUrw ||| teeMattrPrw
  let vmFlags := if shareable then vmFlagShareable else 0
  let mobj ← newMobj env (roundupDiv numBytes)
  vmMapPad env.toVmEnv va numBytes (prot.setWidth 32) vmFlags mobj 0 padBegin padEnd 0

/-- `ldelf_syscall_map_zi`.  The complement is one of 32 bits: higher flags are not refused. -/
def ldelfSyscallMapZi (env : KernelEnv) (va numBytes padBegin padEnd : ℕ) (flags : BitVec 64) :
    VmProg ℕ := do
  failIf (flags &&& (~~~ ldelfMapFlagShareable.setWidth 32).setWidth 64 ≠ 0)
    (.error .badParameters)
  mapZi env va numBytes padBegin padEnd (decide (flags &&& ldelfMapFlagShareable ≠ 0))

/-- What `ldelf_syscall_unmap` and `system_unmap` do with an address and a rounded size. -/
def unmapRange (env : KernelEnv) (va sz : ℕ) : VmProg Unit := do
  failIf (wordSize ≤ va + sz) (.error .badParameters)
  let vmFlags ← vmGetFlags va sz
  failIf (vmFlags &&& vmFlagPermanent ≠ 0) (.error .accessDenied)
  vmUnmap env.toVmEnv va sz

/-- `ldelf_syscall_unmap`. -/
def ldelfSyscallUnmap (env : KernelEnv) (va numBytes : ℕ) : VmProg Unit :=
  unmapRange env va (roundup numBytes)

/-- The error path of `ldelf_syscall_map_bin`: the new mapping is removed, and the kernel panics
if that fails. -/
def orUnmap (env : KernelEnv) (va len : ℕ) (x : VmProg Unit) : VmProg Unit := fun s =>
  match x s with
  | .ok u t => .ok u t
  | .error .panic t => .error .panic t
  | .error (.error e) t =>
    match vmUnmap env.toVmEnv va len t with
    | .ok _ t' => .error (.error e) t'
    | .error _ t' => .error .panic t'

/-- The protections for the flags of the loader. -/
def ldelfProt (flags : BitVec 64) : BitVec 16 :=
  let prot := teeMattrUr ||| teeMattrPr
  let prot :=
    if flags &&& ldelfMapFlagWriteable ≠ 0 then prot ||| (teeMattrUw ||| teeMattrPw) else prot
  if flags &&& ldelfMapFlagExecutable ≠ 0 then prot ||| teeMattrUx else prot

/-- `ldelf_syscall_map_bin`.  A mapping of exactly one page is made writable whatever the flags
say. -/
def ldelfSyscallMapBin (env : KernelEnv) (va numBytes handle offsBytes padBegin padEnd : ℕ)
    (flags : BitVec 64) : VmProg ℕ := do
  let acceptFlags := ldelfMapFlagShareable ||| ldelfMapFlagWriteable ||| ldelfMapFlagExecutable
  failIf (env.hasSystemCtx = false) (.error .badParameters)
  failIf (env.handleLookup handle = false) (.error .badParameters)
  failIf (flags &&& acceptFlags ≠ flags) (.error .badParameters)
  failIf (flags &&& ldelfMapFlagShareable ≠ 0 ∧ flags &&& ldelfMapFlagWriteable ≠ 0)
    (.error .badParameters)
  failIf (flags &&& ldelfMapFlagExecutable ≠ 0 ∧ flags &&& ldelfMapFlagWriteable ≠ 0)
    (.error .badParameters)
  failIf (¬ PageAligned offsBytes) (.error .badParameters)
  let offsPages := offsBytes / smallPageSize % 2 ^ 32
  let numRoundedBytes := roundupOverflow 32 numBytes smallPageSize 0
  let numPages := numRoundedBytes / smallPageSize
  let prot := if numRoundedBytes = 4096 then ldelfProt flags ||| (teeMattrUw ||| teeMattrPw)
    else ldelfProt flags
  match env.fileFindSlice offsPages with
  | some fs =>
    failIf (fs.pageOffset ≠ offsPages ∨ fs.numPages < numPages) (.error .badParameters)
    failIf (flags &&& ldelfMapFlagShareable = 0) (.error .badParameters)
    allocate env.toVmEnv
    vmMapPad env.toVmEnv va numRoundedBytes (prot.setWidth 32) vmFlagReadonly
      (mobjOf env fs.numPages) 0 padBegin padEnd 0
  | none =>
    let writeable := decide (flags &&& ldelfMapFlagWriteable ≠ 0)
    let mobj ← newMobj env numPages
    let vmFlags := if writeable then 0 else vmFlagReadonly
    let va ← vmMapPad env.toVmEnv va numRoundedBytes (teeMattrPrw.setWidth 32) vmFlags mobj 0
      padBegin padEnd 0
    orUnmap env va numRoundedBytes do
      -- `binh_copy_to`
      attempt env.toVmEnv
      vmSetProt env.toVmEnv va numRoundedBytes (prot.setWidth 32)
      -- `file_add_slice`
      if writeable then pure () else attempt env.toVmEnv
    return va

/-- `ldelf_syscall_set_prot`. -/
def ldelfSyscallSetProt (env : KernelEnv) (va numBytes : ℕ) (flags : BitVec 64) :
    VmProg Unit := do
  let sz := roundup numBytes
  let acceptFlags := ldelfMapFlagWriteable ||| ldelfMapFlagExecutable
  failIf (flags &&& acceptFlags ≠ flags) (.error .badParameters)
  let prot := ldelfProt flags
  failIf (wordSize ≤ va + sz) (.error .badParameters)
  let vmFlags ← vmGetFlags va sz
  failIf (vmFlags &&& vmFlagPermanent ≠ 0) (.error .accessDenied)
  failIf (vmFlags &&& vmFlagReadonly ≠ 0 ∧ prot &&& (teeMattrUw ||| teeMattrPw) ≠ 0)
    (.error .accessDenied)
  vmSetProt env.toVmEnv va sz (prot.setWidth 32)

/-- `ldelf_syscall_remap`. -/
def ldelfSyscallRemap (env : KernelEnv) (oldVa newVa numBytes padBegin padEnd : ℕ) :
    VmProg ℕ := do
  let vmFlags ← vmGetFlags oldVa numBytes
  failIf (vmFlags &&& vmFlagPermanent ≠ 0) (.error .accessDenied)
  vmRemap env.toVmEnv newVa oldVa numBytes padBegin padEnd

/-! ## Commands of the system pseudo application -/

/-- A value parameter. -/
structure Value where
  a : BitVec 32
  b : BitVec 32

/-- The parameters of a command: their types and the values of the first three. -/
structure Params where
  types : BitVec 32
  value0 : Value
  value1 : Value
  value2 : Value

/-- `reg_pair_to_64`. -/
def Value.to64 (v : Value) : ℕ := v.a.toNat * 2 ^ 32 + v.b.toNat

/-- `TEE_PARAM_TYPES(VALUE_INPUT, VALUE_INOUT, VALUE_INPUT, NONE)`. -/
def mapZiTypes : BitVec 32 := 0x131#32

/-- `TEE_PARAM_TYPES(VALUE_INPUT, VALUE_INPUT, NONE, NONE)`. -/
def rangeTypes : BitVec 32 := 0x11#32

/-- `system_map_zi`. -/
def systemMapZi (env : KernelEnv) (params : Params) : VmProg ℕ := do
  failIf (mapZiTypes ≠ params.types) (.error .badParameters)
  failIf (params.value0.b &&& ~~~ ptaSystemMapFlagShareable ≠ 0) (.error .badParameters)
  mapZi env params.value1.to64 params.value0.a.toNat params.value2.a.toNat params.value2.b.toNat
    (decide (params.value0.b &&& ptaSystemMapFlagShareable ≠ 0))

/-- The size of a range in the first parameter: `ROUNDUP` of a 32 bit value. -/
def Params.size (params : Params) : ℕ :=
  (params.value0.a.toNat + (smallPageSize - 1)) % 2 ^ 32 / smallPageSize * smallPageSize

/-- `system_mprotect`. -/
def systemMprotect (env : KernelEnv) (params : Params) : VmProg Unit := do
  failIf (rangeTypes ≠ params.types) (.error .badParameters)
  let va := params.value1.to64
  let sz := params.size
  let prot := params.value0.b
  failIf (wordSize ≤ va + sz) (.error .badParameters)
  let vmFlags ← vmGetFlags va sz
  failIf (vmFlags &&& vmFlagPermanent ≠ 0) (.error .accessDenied)
  vmSetProt env.toVmEnv va sz prot

/-- `system_unmap`. -/
def systemUnmap (env : KernelEnv) (params : Params) : VmProg Unit := do
  failIf (rangeTypes ≠ params.types) (.error .badParameters)
  failIf (params.value0.b ≠ 0) (.error .badParameters)
  unmapRange env params.value1.to64 params.size

/-! ## Runs -/

/-- A system call with its arguments. -/
inductive Syscall where
  | ldelfMapZi (va numBytes padBegin padEnd : ℕ) (flags : BitVec 64)
  | ldelfUnmap (va numBytes : ℕ)
  | ldelfMapBin (va numBytes handle offsBytes padBegin padEnd : ℕ) (flags : BitVec 64)
  | ldelfSetProt (va numBytes : ℕ) (flags : BitVec 64)
  | ldelfRemap (oldVa newVa numBytes padBegin padEnd : ℕ)
  | systemMapZi (params : Params)
  | systemMprotect (params : Params)
  | systemUnmap (params : Params)

/-- The code a system call runs.  The address some of them return is not needed here. -/
def Syscall.exec (env : KernelEnv) : Syscall → VmProg Unit
  | .ldelfMapZi va numBytes padBegin padEnd flags =>
    discard (ldelfSyscallMapZi env va numBytes padBegin padEnd flags)
  | .ldelfUnmap va numBytes => ldelfSyscallUnmap env va numBytes
  | .ldelfMapBin va numBytes handle offsBytes padBegin padEnd flags =>
    discard (ldelfSyscallMapBin env va numBytes handle offsBytes padBegin padEnd flags)
  | .ldelfSetProt va numBytes flags => ldelfSyscallSetProt env va numBytes flags
  | .ldelfRemap oldVa newVa numBytes padBegin padEnd =>
    discard (ldelfSyscallRemap env oldVa newVa numBytes padBegin padEnd)
  | .systemMapZi params => discard (OpTee.systemMapZi env params)
  | .systemMprotect params => OpTee.systemMprotect env params
  | .systemUnmap params => OpTee.systemUnmap env params

/-- The kernel makes one system call.  The state is the list of mappings, or `none` once the
kernel has panicked. -/
def kernelStep : Option (List Region) → KernelEnv × Syscall →
    Except VmStop Unit × Option (List Region)
  | none, _ => (.error .panic, none)
  | some rs, (env, call) =>
    match call.exec env ⟨rs, 0⟩ with
    | .ok _ t => (.ok (), some t.regions)
    | .error .panic _ => (.error .panic, none)
    | .error (.error e) t => (.error (.error e), some t.regions)

/-- A mapping the kernel makes itself: its own code and data in every address space, the loader,
the parameters of a command.  None of them is a file. -/
structure KernelMapping where
  va : ℕ
  len : ℕ
  prot : BitVec 32
  flags : BitVec 16
  mobj : Mobj
  offs : ℕ
  notFile : flags &&& vmFlagReadonly = 0

/-- The mappings of a new address space (`vm_info_init` and its callers), made by `vm_map`. -/
def mapKernel (env : VmEnv) : List KernelMapping → VmProg Unit
  | [] => pure ()
  | m :: ms => do
    discard (vmMapPad env m.va m.len m.prot m.flags m.mobj m.offs 0 0 0)
    mapKernel env ms

end Watz.OpTee
