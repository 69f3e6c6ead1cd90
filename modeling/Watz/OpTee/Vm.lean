import Watz.Lib.Program

/-!
# The address space of a trusted application

The kernel keeps the mappings of a user mode context as a list of regions, ordered by address
(`core/mm/vm.c`).  This file is a model of that file: choosing a place for a new region, splitting
and merging regions, and the operations built from these, which map, move, protect and unmap
ranges of addresses.

Addresses and sizes are 64 bit words, kept as natural numbers with the overflow checks written
out.  The build is the one for AArch64, with long descriptors (`CFG_WITH_LPAE`).
-/

namespace Watz.OpTee

open Lib

/-! ## Constants -/

/-- The first value a machine word cannot hold. -/
def wordSize : ℕ := 2 ^ 64

/-- `SMALL_PAGE_SIZE`. -/
def smallPageSize : ℕ := 4096

/-- A value without bits in `SMALL_PAGE_MASK`. -/
def PageAligned (v : ℕ) : Prop := v % smallPageSize = 0

instance (v : ℕ) : Decidable (PageAligned v) := inferInstanceAs (Decidable (_ = _))

def vmFlagEphemeral : BitVec 16 := 1#16 <<< 0
def vmFlagPermanent : BitVec 16 := 1#16 <<< 1
def vmFlagShareable : BitVec 16 := 1#16 <<< 2
def vmFlagReadonly : BitVec 16 := 1#16 <<< 4

def teeMattrValidBlock : BitVec 16 := 1#16 <<< 0
def teeMattrPr : BitVec 16 := 1#16 <<< 4
def teeMattrPw : BitVec 16 := 1#16 <<< 5
def teeMattrPx : BitVec 16 := 1#16 <<< 6
def teeMattrUr : BitVec 16 := 1#16 <<< 7
def teeMattrUw : BitVec 16 := 1#16 <<< 8
def teeMattrUx : BitVec 16 := 1#16 <<< 9
def teeMattrSecure : BitVec 16 := 1#16 <<< 11
def teeMattrCacheShift : ℕ := 12

def teeMattrPrw : BitVec 16 := teeMattrPr ||| teeMattrPw
def teeMattrUrw : BitVec 16 := teeMattrUr ||| teeMattrUw

/-- `TEE_MATTR_PROT_MASK`. -/
def teeMattrProtMask : BitVec 16 :=
  teeMattrPrw ||| teeMattrPx ||| (teeMattrUrw ||| teeMattrUx)

/-- The protections that allow a write. -/
def writeMask : BitVec 16 := teeMattrUw ||| teeMattrPw

/-! ## Regions -/

/-- The results the modelled functions return. -/
inductive VmError where
  | badParameters
  | outOfMemory
  | accessConflict
  | accessDenied
  | badState
  | generic
deriving DecidableEq, Repr

/-- A function of the kernel returns an error, or it panics and the kernel is gone. -/
inductive VmStop where
  | error (e : VmError)
  | panic
deriving DecidableEq, Repr

/-- A memory object.  The source compares such objects by address, here it is `id`. -/
structure Mobj where
  id : ℕ
  size : ℕ
  isPaged : Bool
  isSecure : Bool
  /-- What `mobj_get_cattr` answers, if it is implemented for the object. -/
  cattr : Option (BitVec 16)
deriving DecidableEq

/-- `struct vm_region`. -/
structure Region where
  mobj : Mobj
  offset : ℕ
  va : ℕ
  size : ℕ
  attr : BitVec 16
  flags : BitVec 16
deriving DecidableEq

namespace Region

/-- The first address behind a region. -/
def endVa (r : Region) : ℕ := r.va + r.size

/-- The region maps a file that other applications may map as well. -/
def ReadOnly (r : Region) : Prop := r.flags &&& vmFlagReadonly ≠ 0

instance (r : Region) : Decidable r.ReadOnly := inferInstanceAs (Decidable (_ ≠ _))

/-- The region can be written, by the application or by the kernel. -/
def Writeable (r : Region) : Prop := r.attr &&& writeMask ≠ 0

instance (r : Region) : Decidable r.Writeable := inferInstanceAs (Decidable (_ ≠ _))

end Region

/-- The mappings, and how many calls into allocators and pager the current system call made. -/
structure Vm where
  regions : List Region
  calls : ℕ

/-- What the functions of this file depend on besides the mappings: the range of addresses a
user mode context may use, and whether each call of an allocator or of the pager succeeds. -/
structure VmEnv where
  vaRangeBase : ℕ
  vaRangeSize : ℕ
  outcome : ℕ → Option VmError

/-- A function of the kernel. -/
abbrev VmProg (α : Type) : Type := EStateM VmStop Vm α

/-- The outcome of the next call into an allocator or the pager. -/
def draw (env : VmEnv) : VmProg (Option VmError) := do
  let s ← get
  modify fun t => { t with calls := t.calls + 1 }
  return env.outcome s.calls

/-- The same for a call that may not be made. -/
def drawIf (env : VmEnv) (called : Bool) : VmProg (Option VmError) :=
  if called then draw env else pure none

/-- A call whose result is passed on. -/
def attempt (env : VmEnv) : VmProg Unit := do
  match ← draw env with
  | none => pure ()
  | some e => throw (.error e)

/-- A call of the pager, made only for paged memory. -/
def attemptIf (env : VmEnv) (paged : Bool) : VmProg Unit :=
  if paged then attempt env else pure ()

/-- An allocation. -/
def allocate (env : VmEnv) : VmProg Unit := do
  match ← draw env with
  | none => pure ()
  | some _ => throw (.error .outOfMemory)

/-- A call whose failure the kernel does not survive. -/
def attemptOrPanic (env : VmEnv) : VmProg Unit := do
  match ← draw env with
  | none => pure ()
  | some _ => throw .panic

/-- The same for a call of the pager. -/
def attemptOrPanicIf (env : VmEnv) (paged : Bool) : VmProg Unit :=
  if paged then attemptOrPanic env else pure ()

def setRegions (rs : List Region) : VmProg Unit := modify fun t => { t with regions := rs }

/-! ## Rounding -/

/-- `ROUNDUP(v, SMALL_PAGE_SIZE)`, which wraps around. -/
def roundup (v : ℕ) : ℕ := (v + (smallPageSize - 1)) % wordSize / smallPageSize * smallPageSize

/-- `ROUNDUP_OVERFLOW(v, size, &res)` for a result of `w` bits that holds `res` before.  The
macro is `overflow ? 1 : (void)(...), 0`, which C reads as `(overflow ? 1 : (void)(...)), 0`: it
never reports an overflow, it only leaves `res` as it was. -/
def roundupOverflow (w v size res : ℕ) : ℕ :=
  if 2 ^ w ≤ v + (size - 1) then res else (v + (size - 1)) / size * size

/-! ## A place for a region -/

/-- Two regions with differing bits among these are kept a page apart. -/
def separatedFlags : BitVec 16 := vmFlagEphemeral ||| vmFlagPermanent ||| vmFlagShareable

/-- The gap between a region and a neighbour of it. -/
def separation (neighbour reg : Region) : ℕ :=
  if neighbour.flags ≠ 0 ∧ neighbour.flags &&& separatedFlags ≠ reg.flags &&& separatedFlags then
    smallPageSize
  else 0

/-- `select_va_in_range`: the address for `reg` between two neighbours, `0` if it does not fit.
Overflow in one of the additions shows in their sum. -/
def selectVaInRange (prev next reg : Region) (padBegin padEnd granul : ℕ) : ℕ :=
  let lowest := prev.endVa + padBegin + separation prev reg
  if wordSize ≤ lowest then 0 else
  let rounded := roundupOverflow 64 lowest granul lowest
  if reg.va ≠ 0 ∧ reg.va < rounded then 0 else
  let beginVa := if reg.va ≠ 0 then reg.va else rounded
  let highest := beginVa + reg.size + padEnd + separation next reg
  if wordSize ≤ highest then 0 else
  if roundupOverflow 64 highest granul highest ≤ next.va then beginVa else 0

/-- The loop of `umap_add_region`: the first gap that takes the region, `prev` being the region
before the rest of the list. -/
def insertRegion (last reg : Region) (padBegin padEnd granul : ℕ) :
    Region → List Region → Option (ℕ × List Region)
  | prev, [] =>
    let va := selectVaInRange prev last reg padBegin padEnd granul
    if va ≠ 0 then some (va, [{ reg with va := va }]) else none
  | prev, r :: rs =>
    let va := selectVaInRange prev r reg padBegin padEnd granul
    if va ≠ 0 then some (va, { reg with va := va } :: r :: rs)
    else (insertRegion last reg padBegin padEnd granul r rs).map fun p => (p.1, r :: p.2)

/-- The regions without size or flags that stand for the bounds of the address range. -/
def boundary (reg : Region) (va : ℕ) : Region :=
  { mobj := reg.mobj, offset := 0, va := va, size := 0, attr := 0, flags := 0 }

/-- `umap_add_region`. -/
def umapAddRegion (env : VmEnv) (reg : Region) (padBegin padEnd align : ℕ) (rs : List Region) :
    Except VmError (ℕ × List Region) :=
  let granul := max align smallPageSize
  if ¬ (PageAligned reg.va ∧ PageAligned reg.size ∧ PageAligned padBegin ∧ PageAligned padEnd) then
    .error .accessConflict
  else if wordSize ≤ reg.offset + reg.size ∨ roundup reg.mobj.size < reg.offset + reg.size then
    .error .badParameters
  else if granul &&& (granul - 1) ≠ 0 then
    .error .badParameters
  else
    match insertRegion (boundary reg (env.vaRangeBase + env.vaRangeSize)) reg padBegin padEnd
      granul (boundary reg env.vaRangeBase) rs with
    | some p => .ok p
    | none => .error .accessConflict

/-- The attributes of a new region of a memory object. -/
def newAttr (mobj : Mobj) (cattr prot : BitVec 16) : BitVec 16 :=
  let attr := if mobj.isPaged then 0 else cattr <<< teeMattrCacheShift
  let attr := attr ||| teeMattrValidBlock
  let attr := if mobj.isSecure then attr ||| teeMattrSecure else attr
  attr ||| prot

/-- The cache attributes of a memory object that is not paged. -/
def mobjGetCattr (mobj : Mobj) : VmProg (BitVec 16) :=
  match mobj.isPaged, mobj.cattr with
  | false, none => throw (.error .generic)
  | false, some cattr => pure cattr
  | true, _ => pure 0

/-- `vm_map_pad`: the address of the new region.  If one of the later calls fails, the source
takes the region out again; here it is put in once nothing can fail. -/
def vmMapPad (env : VmEnv) (va len : ℕ) (prot : BitVec 32) (flags : BitVec 16) (mobj : Mobj)
    (offs padBegin padEnd align : ℕ) : VmProg ℕ := do
  failIf (prot &&& ~~~ (teeMattrProtMask.setWidth 32) ≠ 0) (.error .badParameters)
  allocate env
  let cattr ← mobjGetCattr mobj
  let reg : Region :=
    { mobj := mobj, offset := offs, va := va, size := roundup len,
      attr := newAttr mobj cattr (prot.setWidth 16), flags := flags }
  let s ← get
  match umapAddRegion env reg padBegin padEnd align s.regions with
  | .error e => throw (.error e)
  | .ok (va, rs) =>
    attempt env
    attemptIf env mobj.isPaged
    setRegions rs
    return va

/-! ## Finding and cutting -/

/-- `find_vm_region`: the first region that contains an address, with the regions before and
behind it. -/
def findVmRegion (va : ℕ) : List Region → Option (List Region × Region × List Region)
  | [] => none
  | r :: rs =>
    if r.va ≤ va ∧ va < r.endVa then some ([], r, rs)
    else (findVmRegion va rs).map fun p => (r :: p.1, p.2.1, p.2.2)

/-- The loop of `va_range_is_contiguous`, on the list from the current region on. -/
def contiguousUpTo (cmpRegs : Region → Region → Region → Bool) (r0 : Region) (endVa : ℕ) :
    List Region → Bool
  | [] => false
  | [r] => decide (endVa ≤ r.endVa)
  | r :: rn :: rs =>
    if endVa ≤ r.endVa then true
    else if r.endVa ≠ rn.va then false
    else if !cmpRegs r0 r rn then false
    else contiguousUpTo cmpRegs r0 endVa (rn :: rs)

/-- `va_range_is_contiguous` for a region and the ones behind it. -/
def vaRangeIsContiguous (r0 : Region) (rest : List Region) (va len : ℕ)
    (cmpRegs : Region → Region → Region → Bool) : Bool :=
  if wordSize ≤ va + len then false else contiguousUpTo cmpRegs r0 (va + len) (r0 :: rest)

/-- The two parts of a region cut at an address. -/
def Region.cut (r : Region) (va : ℕ) : Region × Region :=
  let diff := va - r.va
  ({ r with size := diff },
    { r with offset := r.offset + diff, va := va, size := r.size - diff })

/-- `split_vm_region`. -/
def splitVmRegion (env : VmEnv) (r : Region) (va : ℕ) : VmProg (Region × Region) := do
  allocate env
  attemptIf env r.mobj.isPaged
  return r.cut va

/-- The second half of `split_vm_range` on a part of the list: cut the region that contains the
last byte before `endVa`, if there is one and if it ends behind `endVa`. -/
def splitLast (env : VmEnv) (endVa : ℕ) (rs : List Region) : VmProg (Option (List Region)) := do
  match findVmRegion (endVa - 1) rs with
  | none => return none
  | some (pre, r, post) =>
    if endVa ≠ r.endVa then
      let (lo, hi) ← splitVmRegion env r endVa
      return some (pre ++ lo :: hi :: post)
    else return some rs

/-- The first half of `split_vm_range`: cut the region that contains `va`.  The result is the
list before the range and the list from its first region on. -/
def splitFirst (env : VmEnv) (va len : ℕ) (cmpRegs : Region → Region → Region → Bool) :
    VmProg (List Region × List Region) := do
  let s ← get
  match findVmRegion va s.regions with
  | none => throw (.error .badParameters)
  | some (pre, r, post) =>
    failIf (vaRangeIsContiguous r post va len cmpRegs = false) (.error .badParameters)
    if va ≠ r.va then
      let (lo, hi) ← splitVmRegion env r va
      setRegions (pre ++ lo :: hi :: post)
      return (pre ++ [lo], hi :: post)
    else return (pre, r :: post)

/-- `split_vm_range`: the list before the range and the list from its first region on. -/
def splitVmRange (env : VmEnv) (va len : ℕ) (cmpRegs : Region → Region → Region → Bool) :
    VmProg (List Region × List Region) := do
  failIf (¬ (PageAligned va ∧ PageAligned len)) (.error .badParameters)
  failIf (wordSize ≤ va + len) (.error .badParameters)
  let (pre, rest) ← splitFirst env va len cmpRegs
  match ← splitLast env (va + len) pre with
  | some pre =>
    setRegions (pre ++ rest)
    return (pre, rest)
  | none =>
    match ← splitLast env (va + len) rest with
    | some rest =>
      setRegions (pre ++ rest)
      return (pre, rest)
    | none => throw (.error .badParameters)

/-- No comparison of the regions of a range (a null pointer in the source). -/
def cmpNone (_ _ _ : Region) : Bool := true

/-- The loop of `merge_vm_range` at a region, with the list behind it. -/
def mergeFrom (va endVa : ℕ) : Region → List Region → List Region
  | r, [] => [r]
  | r, rn :: rs =>
    if r.endVa < va then r :: mergeFrom va endVa rn rs
    else if endVa < r.va then r :: rn :: rs
    else if r.endVa ≠ rn.va then r :: mergeFrom va endVa rn rs
    else if r.mobj.id ≠ rn.mobj.id ∨ r.flags ≠ rn.flags ∨ r.attr ≠ rn.attr then
      r :: mergeFrom va endVa rn rs
    else if r.offset + r.size ≠ rn.offset then r :: mergeFrom va endVa rn rs
    else mergeFrom va endVa { r with size := r.size + rn.size } rs

/-- `merge_vm_range`. -/
def mergeVmRange (va endVa : ℕ) : List Region → List Region
  | [] => []
  | r :: rs => mergeFrom va endVa r rs

/-! ## Moving a range -/

/-- `cmp_region_for_remap`. -/
def cmpRegionForRemap (r0 r rn : Region) : Bool :=
  r0.flags = r.flags ∧ r0.attr = r.attr ∧ r0.mobj.id = r.mobj.id ∧ rn.offset = r.offset + r.size

/-- The end of `vm_remap` after a failure: the regions go back to their old place, one behind
the other. -/
def restoreMap (env : VmEnv) (paged : Bool) : ℕ → List Region → VmProg Unit
  | _, [] => pure ()
  | nextVa, r :: regs => do
    let s ← get
    match umapAddRegion env { r with va := nextVa } 0 0 0 s.regions with
    | .error _ => throw .panic
    | .ok (_, rs) =>
      setRegions rs
      attemptOrPanic env
      attemptOrPanicIf env paged
      restoreMap env paged (nextVa + r.size) regs

/-- The loop of `vm_remap`, with the regions already added at their new place and those still to
be added.  When adding one fails, all that were added before go back to the old place, except
the last one that was linked in. -/
def remapRegions (env : VmEnv) (paged : Bool) (newVa oldVa len padBegin padEnd : ℕ) :
    List Region → List Region → VmProg (List Region)
  | added, [] => pure added
  | added, r :: regs => do
    let s ← get
    let placed := match added.getLast? with
      | some last => umapAddRegion env { r with va := last.endVa } 0 0 0 s.regions
      | none => umapAddRegion env { r with va := newVa } padBegin
          ((padEnd + len - r.size) % wordSize) 0 s.regions
    match placed with
    | .error e =>
      setRegions (s.regions.diff added.dropLast)
      restoreMap env paged oldVa (added.dropLast ++ r :: regs)
      throw (.error e)
    | .ok (va, rs) =>
      setRegions rs
      let allocPgt ← draw env
      let pager ← drawIf env (allocPgt.isNone && paged)
      match allocPgt <|> pager with
      | some e =>
        setRegions (rs.diff added)
        restoreMap env paged oldVa (added ++ regs)
        throw (.error e)
      | none =>
        remapRegions env paged newVa oldVa len padBegin padEnd (added ++ [{ r with va := va }]) regs

/-- `vm_remap`: the new address of the first region. -/
def vmRemap (env : VmEnv) (newVa oldVa len padBegin padEnd : ℕ) : VmProg ℕ := do
  failIf (len = 0 ∨ ¬ (PageAligned len ∧ PageAligned oldVa)) (.error .badParameters)
  let (pre, rest) ← splitVmRange env oldVa len cmpRegionForRemap
  let paged := (rest.head?.map fun r => r.mobj.isPaged).getD false
  let regs := rest.takeWhile fun r => r.endVa ≤ oldVa + len
  let left := rest.dropWhile fun r => r.endVa ≤ oldVa + len
  setRegions (pre ++ left)
  let added ← remapRegions env paged newVa oldVa len padBegin padEnd [] regs
  return (added.head?.map Region.va).getD 0

/-! ## Protecting and unmapping a range -/

/-- `cmp_region_for_get_flags`: the flags of the current region, not those of the next one, are
compared. -/
def cmpRegionForGetFlags (r0 r _rn : Region) : Bool := r0.flags = r.flags

/-- What `vm_get_flags` and `vm_get_prot` do: `field` of the first region of a range, if the regions
of the range agree. -/
def vmGet (cmpRegs : Region → Region → Region → Bool) (field : Region → BitVec 16) (va len : ℕ) :
    VmProg (BitVec 16) := do
  failIf (len = 0 ∨ ¬ (PageAligned len ∧ PageAligned va)) (.error .badParameters)
  let s ← get
  match findVmRegion va s.regions with
  | none => throw (.error .badParameters)
  | some (_, r, post) =>
    failIf (vaRangeIsContiguous r post va len cmpRegs = false) (.error .badParameters)
    return field r

/-- `vm_get_flags`. -/
def vmGetFlags (va len : ℕ) : VmProg (BitVec 16) := vmGet cmpRegionForGetFlags Region.flags va len

/-- The protection bits of a region. -/
def Region.prot (r : Region) : BitVec 16 := r.attr &&& teeMattrProtMask

/-- `cmp_region_for_get_prot`, which leaves the next region out as well. -/
def cmpRegionForGetProt (r0 r _rn : Region) : Bool := r0.prot = r.prot

/-- `vm_get_prot`. -/
def vmGetProt (va len : ℕ) : VmProg (BitVec 16) := vmGet cmpRegionForGetProt Region.prot va len

/-- The protections of a region replaced. -/
def Region.protect (prot : BitVec 16) (r : Region) : Region :=
  { r with attr := (r.attr &&& ~~~ teeMattrProtMask) ||| prot }

/-- The first loop of `vm_set_prot`. -/
def protectUpTo (endVa : ℕ) (prot : BitVec 16) : List Region → List Region
  | [] => []
  | r :: rs =>
    if endVa < r.endVa then r :: rs else r.protect prot :: protectUpTo endVa prot rs

/-- The second loop of `vm_set_prot`: the pager follows. -/
def syncPager (env : VmEnv) (endVa : ℕ) : List Region → VmProg Unit
  | [] => pure ()
  | r :: rs =>
    if endVa < r.endVa then pure ()
    else do
      attemptOrPanicIf env r.mobj.isPaged
      syncPager env endVa rs

/-- `vm_set_prot`. -/
def vmSetProt (env : VmEnv) (va len : ℕ) (prot : BitVec 32) : VmProg Unit := do
  failIf (prot &&& ~~~ (teeMattrProtMask.setWidth 32) ≠ 0 ∨ len = 0) (.error .badParameters)
  let (pre, rest) ← splitVmRange env va len cmpNone
  let rest := protectUpTo (va + len) (prot.setWidth 16) rest
  setRegions (pre ++ rest)
  syncPager env (va + len) rest
  setRegions (mergeVmRange va (va + len) (pre ++ rest))

/-- The loop of `vm_unmap`, from the first region of the range on. -/
def unmapUpTo (endVa : ℕ) : List Region → List Region
  | [] => []
  | r :: rs => if rs.isEmpty ∨ r.endVa = endVa then rs else unmapUpTo endVa rs

/-- `vm_unmap`. -/
def vmUnmap (env : VmEnv) (va len : ℕ) : VmProg Unit := do
  let l := roundupOverflow 64 len smallPageSize 0
  failIf (l = 0 ∨ ¬ PageAligned va) (.error .badParameters)
  failIf (wordSize ≤ va + l) (.error .badParameters)
  let (pre, rest) ← splitVmRange env va l cmpNone
  setRegions (pre ++ unmapUpTo (va + l) rest)

end Watz.OpTee
