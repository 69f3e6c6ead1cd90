import Watz.OpTee.PageMap

/-!
# Buffers of a trusted application

Before the kernel uses a buffer of an application it asks `core/mm/vm.c` where the buffer lies:
inside memory that is private to the application, across such memory, or in memory that the
application may read or write.  This file models these questions, down to the address arithmetic
of `core/kernel/tee_misc.c`, which wraps around.

The check of access rights samples one address per page, and that is enough because regions consist
of pages.  The test whether a buffer touches private memory looks for flags in the attributes of a
region and never finds any.
-/

namespace Watz.OpTee

open Lib

/-! ## Address ranges -/

/-- `is_valid_conf_and_notnull_size`: `b - 1 + bl < b` in words finds ranges that wrap around. -/
def isValidConfAndNotnullSize (b bl a al : ℕ) : Bool :=
  if (b + (wordSize - 1) + bl) % wordSize < b ∨ (a + (wordSize - 1) + al) % wordSize < a then false
  else if bl = 0 ∨ al = 0 then false
  else true

/-- `core_is_buffer_inside`. -/
def coreIsBufferInside (b bl a al : ℕ) : Bool :=
  if !isValidConfAndNotnullSize b bl a al then false
  else if a ≤ b ∧ (b + (wordSize - 1) + bl) % wordSize ≤ (a + (wordSize - 1) + al) % wordSize then
    true
  else false

/-- `core_is_buffer_intersect`. -/
def coreIsBufferIntersect (b bl a al : ℕ) : Bool :=
  if !isValidConfAndNotnullSize b bl a al then false
  else if (b + bl + (wordSize - 1)) % wordSize < a ∨ (a + al + (wordSize - 1)) % wordSize < b then
    false
  else true

variable {b bl a va : ℕ} {r : Region}

/-- The last address of a range that is neither empty nor wraps around. -/
lemma wrapped_end (hbl : 0 < bl) (hfits : b + bl ≤ wordSize) :
    (b + (wordSize - 1) + bl) % wordSize = b + bl - 1 := by
  have hsum : b + (wordSize - 1) + bl = b + bl - 1 + wordSize := by
    have : 0 < wordSize := by decide
    omega
  rw [hsum, Nat.add_mod_right, Nat.mod_eq_of_lt (by omega)]

lemma isValidConfAndNotnullSize_iff {al : ℕ} (hb : b < wordSize) (hbl : bl < wordSize)
    (ha : a < wordSize) (hal : al < wordSize) :
    isValidConfAndNotnullSize b bl a al = true
      ↔ (0 < bl ∧ b + bl ≤ wordSize) ∧ 0 < al ∧ a + al ≤ wordSize := by
  have hone : ∀ x l, x < wordSize → l < wordSize → 0 < l →
      (¬ (x + (wordSize - 1) + l) % wordSize < x ↔ x + l ≤ wordSize) := by
    intro x l hx hl hpos
    by_cases hfits : x + l ≤ wordSize
    · rw [wrapped_end hpos hfits]
      omega
    · have hsum : x + (wordSize - 1) + l = (x + l - 1 - wordSize) + wordSize + wordSize := by omega
      rw [hsum, Nat.add_mod_right, Nat.add_mod_right, Nat.mod_eq_of_lt (by omega)]
      omega
  rw [isValidConfAndNotnullSize]
  rcases Nat.eq_zero_or_pos bl with rfl | hbl'
  · simp
  rcases Nat.eq_zero_or_pos al with rfl | hal'
  · simp
  have hb' := hone b bl hb hbl hbl'
  have ha' := hone a al ha hal hal'
  rw [if_neg (show ¬ (bl = 0 ∨ al = 0) by omega)]
  split
  · rename_i hwrap
    simp only [Bool.false_eq_true, false_iff]
    rintro ⟨⟨-, hbfits⟩, -, hafits⟩
    exact hwrap.elim (hb'.mpr hbfits) (ha'.mpr hafits)
  · rename_i hwrap
    obtain ⟨hbwrap, hawrap⟩ := not_or.mp hwrap
    exact iff_of_true rfl ⟨⟨hbl', hb'.mp hbwrap⟩, hal', ha'.mp hawrap⟩

lemma coreIsBufferInside_iff {al : ℕ} (hb : b < wordSize) (hbl : bl < wordSize)
    (ha : a < wordSize) (hal : al < wordSize) :
    coreIsBufferInside b bl a al = true
      ↔ 0 < bl ∧ a ≤ b ∧ b + bl ≤ a + al ∧ a + al ≤ wordSize := by
  have hvalid := isValidConfAndNotnullSize_iff hb hbl ha hal
  rw [coreIsBufferInside]
  by_cases h : isValidConfAndNotnullSize b bl a al = true
  · obtain ⟨⟨hbl, hbfits⟩, hal, hafits⟩ := hvalid.mp h
    rw [if_neg (by simp [h]), wrapped_end hbl hbfits, wrapped_end hal hafits]
    simp only [Bool.if_false_right, Bool.and_true, decide_eq_true_eq]
    omega
  · rw [if_pos (by simpa using h)]
    simp only [Bool.false_eq_true, false_iff]
    rintro ⟨hbl, hab, hend, hafits⟩
    exact h (hvalid.mpr ⟨⟨hbl, by omega⟩, by omega, hafits⟩)

/-! ## Private memory -/

/-- `VM_FLAGS_NONPRIV`. -/
def vmFlagsNonpriv : BitVec 16 := vmFlagEphemeral ||| vmFlagPermanent ||| vmFlagShareable

/-- The region has none of the flags of memory that is not the application's own. -/
def Region.Private (r : Region) : Prop := r.flags &&& vmFlagsNonpriv = 0

instance (r : Region) : Decidable r.Private := inferInstanceAs (Decidable (_ = _))

/-- `vm_buf_is_inside_um_private`. -/
def vmBufIsInsideUmPrivate (rs : List Region) (va size : ℕ) : Bool :=
  rs.any fun r => r.flags &&& vmFlagsNonpriv = 0 ∧ coreIsBufferInside va size r.va r.size

/-- `vm_buf_intersects_um_private`, which looks at the attributes where its sibling looks at the
flags. -/
def vmBufIntersectsUmPrivate (rs : List Region) (va size : ℕ) : Bool :=
  rs.any fun r => r.attr &&& vmFlagsNonpriv = 0 ∧ coreIsBufferIntersect va size r.va r.size

/-- The buffer, which may go around the end of the address space, shares a byte with a private
region. -/
def TouchesPrivate (rs : List Region) (va size : ℕ) : Prop :=
  ∃ r ∈ rs, r.Private ∧ ∃ i < size, r.va ≤ (va + i) % wordSize ∧ (va + i) % wordSize < r.endVa

/-- The two tests agree with what they are for and with each other. -/
structure PrivateTests (rs : List Region) (va size : ℕ) : Prop where
  exact : vmBufIntersectsUmPrivate rs va size = true ↔ TouchesPrivate rs va size
  agree : 0 < size → vmBufIsInsideUmPrivate rs va size = true →
    vmBufIntersectsUmPrivate rs va size = true

/-- The attributes have the bit of a valid entry, `TEE_MATTR_VALID_BLOCK`. -/
def ValidBlock (attr : BitVec 16) : Prop := attr.getLsbD 0 = true

/-- Every region lies in the range of user addresses, and its entries are valid. -/
structure Installed (range : VaRange) (rs : List Region) : Prop where
  sorted : Sorted rs
  end_le : ∀ r ∈ rs, r.endVa ≤ range.base + range.size
  valid : ∀ r ∈ rs, ValidBlock r.attr

section

variable {range : VaRange} {rs rs' : List Region}

section

variable (h : Installed range rs)

include h

lemma Installed.umapAddRegion {outcome : ℕ → Option VmError} {reg : Region}
    {padBegin padEnd align : ℕ} (hvalid : ValidBlock reg.attr)
    (hadd : umapAddRegion (range.env outcome) reg padBegin padEnd align rs = .ok (va, rs')) :
    Installed range rs' := by
  obtain ⟨hsorted, hmem⟩ := umapAddRegion_spec hadd h.sorted
  obtain ⟨-, -, -, hins⟩ := checks_of_umapAddRegion hadd
  obtain ⟨before, hbefore, next, hnext, hne, rfl⟩ := exists_gap_of_insertRegion hins
  have hspec := selectVaInRange_spec (lt_max_of_lt_right (by decide)) hne
  have hhigh : next.va ≤ range.base + range.size := by
    rcases List.mem_append.mp hnext with hnext | hnext
    · exact next.va_le_endVa.trans (h.end_le next hnext)
    · rw [List.mem_singleton.mp hnext]
      exact le_rfl
  refine ⟨hsorted, fun x hx => ?_, fun x hx => ?_⟩
  · rcases (hmem x).mp hx with rfl | hx
    · exact hspec.2.trans hhigh
    · exact h.end_le x hx
  · rcases (hmem x).mp hx with rfl | hx
    · exact hvalid
    · exact h.valid x hx

lemma Installed.sublist (hsub : List.Sublist rs' rs) :
    Installed range rs' :=
  ⟨h.sorted.sublist hsub, fun r hr => h.end_le r (hsub.subset hr),
    fun r hr => h.valid r (hsub.subset hr)⟩

lemma Installed.cutAt : Installed range (cutAt va rs) := by
  have hcut : CutOf rs (OpTee.cutAt va rs) := cutOf_cutAt h.sorted
  refine ⟨hcut.sorted, fun r' hr' => ?_, fun r' hr' => ?_⟩
  · obtain ⟨r, hr, hpart⟩ := hcut.part r' hr'
    exact hpart.high.trans (h.end_le r hr)
  · obtain ⟨r, hr, hpart⟩ := hcut.part r' hr'
    rw [hpart.attr]
    exact h.valid r hr

lemma Installed.mergeVmRange (va endVa : ℕ) :
    Installed range (mergeVmRange va endVa rs) := by
  have hmerge : MergeOf rs (OpTee.mergeVmRange va endVa rs) := mergeOf_mergeVmRange h.sorted
  refine ⟨hmerge.sorted, fun r' hr' => ?_, fun r' hr' => ?_⟩
  · obtain ⟨r, hr, hend, -⟩ := hmerge.highest r' hr'
    exact hend ▸ h.end_le r hr
  · obtain ⟨r, hr, -, hattr, -⟩ := hmerge.highest r' hr'
    exact hattr ▸ h.valid r hr

end

lemma validBlock_protect {prot : BitVec 16} (h : ValidBlock r.attr) :
    ValidBlock (r.protect prot).attr := by
  have hmask : (~~~ teeMattrProtMask).getLsbD 0 = true := by decide
  rw [ValidBlock, Region.protect, BitVec.getLsbD_or, BitVec.getLsbD_and, h, hmask, Bool.and_true,
    Bool.true_or]

lemma Installed.protectUpTo {pre rest : List Region} {endVa : ℕ} {prot : BitVec 16}
    (h : Installed range (pre ++ rest)) :
    Installed range (pre ++ protectUpTo endVa prot rest) :=
  ⟨sorted_protectUpTo h.sorted, forall_mem_protectUpTo h.sorted h.end_le fun _ hr => hr,
    forall_mem_protectUpTo h.sorted h.valid fun _ hr => validBlock_protect hr⟩

lemma Installed.movable (range : VaRange) (outcome : ℕ → Option VmError) :
    Movable (range.env outcome) (Installed range) (fun r => ValidBlock r.attr) where
  sorted h := h.sorted
  forall_mem h := h.valid
  cutAt h _ := h.cutAt
  sublist h hsub := h.sublist hsub
  moved h := h
  add h hreg hadd := h.umapAddRegion hreg hadd

lemma validBlock_newAttr (mobj : Mobj) (cattr prot : BitVec 16) :
    ValidBlock (newAttr mobj cattr prot) := by
  have hblock : teeMattrValidBlock.getLsbD 0 = true := by decide
  rw [newAttr, ValidBlock]
  cases mobj.isSecure <;> simp [hblock]

lemma keeps_installed_exec (range : VaRange) (objects : Objects) (outcome : ℕ → Option VmError)
    (call : VmCall) :
    Keeps (fun s : Vm => Installed range s.regions) (call.exec (range.env outcome) objects) := by
  refine (Installed.movable range outcome).keeps_exec Installed.protectUpTo
    (fun va endVa h => h.mergeVmRange va endVa) fun cattr reg hreg => ?_
  cases call with
  | mapPad va len prot flags mobj offs padBegin padEnd align =>
    obtain rfl := Option.some.inj hreg
    exact validBlock_newAttr _ _ _
  | remap | setProt | unmap => cases hreg

end

lemma Installed.lt_wordSize {range : VaRange} {rs : List Region} (h : Installed range rs)
    (hr : r ∈ rs) : r.va < wordSize ∧ r.size < wordSize := by
  have hend := h.end_le r hr
  have hlt := range.end_lt
  simp only [Region.endVa] at hend
  omega

/-- No region counts as private by its attributes. -/
lemma Installed.vmBufIntersectsUmPrivate_eq {range : VaRange} {rs : List Region}
    (h : Installed range rs) (va size : ℕ) : vmBufIntersectsUmPrivate rs va size = false := by
  have hflag : vmFlagsNonpriv.getLsbD 0 = true := by decide
  rw [vmBufIntersectsUmPrivate, List.any_eq_false]
  intro r hr hfound
  have hzero : r.attr &&& vmFlagsNonpriv = 0 := (of_decide_eq_true hfound).1
  have hbit := congrArg (BitVec.getLsbD · 0) hzero
  rw [BitVec.getLsbD_and, h.valid r hr, hflag] at hbit
  exact Bool.true_eq_false_eq_False hbit

lemma Installed.touches_of_inside {range : VaRange} {rs : List Region} (h : Installed range rs)
    {size : ℕ} (hva : va < wordSize) (hsize : size < wordSize)
    (hinside : vmBufIsInsideUmPrivate rs va size = true) : TouchesPrivate rs va size := by
  obtain ⟨r, hr, hfound⟩ := List.any_eq_true.mp hinside
  obtain ⟨hprivate, hbuf⟩ := of_decide_eq_true hfound
  obtain ⟨hrva, hrsize⟩ := h.lt_wordSize hr
  obtain ⟨hpos, hlow, hend, -⟩ := (coreIsBufferInside_iff hva hsize hrva hrsize).mp hbuf
  refine ⟨r, hr, hprivate, 0, hpos, ?_⟩
  rw [Nat.add_zero, Nat.mod_eq_of_lt hva]
  refine ⟨hlow, ?_⟩
  simp only [Region.endVa]
  omega

/-- In every address space that `vm_map_pad` and the other operations build, the tests for private
memory are right about a buffer exactly if the buffer has no byte in private memory:
`vm_buf_intersects_um_private` always answers no. -/
theorem privateTests_iff {range : VaRange} {objects : Objects}
    {calls : List ((ℕ → Option VmError) × VmCall)} {rs : List Region}
    (hrs : finalState (vmStep range objects) (some []) calls = some rs) {va size : ℕ}
    (hva : va < wordSize) (hsize : size < wordSize) :
    PrivateTests rs va size ↔ ¬ TouchesPrivate rs va size := by
  have h : Installed range rs :=
    forall_finalState_vmStep (C := fun _ => True) ⟨List.Pairwise.nil, by simp, by simp⟩
      (fun outcome call _ => keeps_installed_exec range objects outcome call)
      (fun _ _ => trivial) hrs
  have hnever := h.vmBufIntersectsUmPrivate_eq va size
  constructor
  · intro htests htouches
    exact Bool.false_ne_true (hnever.symm.trans (htests.exact.mpr htouches))
  · intro hnone
    refine ⟨?_, fun _ hinside => absurd (h.touches_of_inside hva hsize hinside) hnone⟩
    rw [hnever]
    exact iff_of_false Bool.false_ne_true hnone

/-- A page mapped from an empty address space on, and a buffer that lies elsewhere. -/
theorem privateTests_iff_sample :
    ∃ rs, finalState (vmStep sampleRange sampleObjects) (some []) [sampleMap 1] = some rs
      ∧ rs.length = 1 ∧ (PrivateTests rs 0x50000000 16 ↔ ¬ TouchesPrivate rs 0x50000000 16) := by
  have hlen : (finalState (vmStep sampleRange sampleObjects) (some []) [sampleMap 1]).map
      List.length = some 1 := by decide +kernel
  obtain ⟨rs, hrs, hlen⟩ := Option.map_eq_some_iff.mp hlen
  exact ⟨rs, hrs, hlen, privateTests_iff hrs (by decide) (by decide)⟩

/-- A buffer in the page is inside of private memory but does not intersect it. -/
theorem privateTests_disagree :
    ∃ rs, finalState (vmStep sampleRange sampleObjects) (some []) [sampleMap 1] = some rs
      ∧ vmBufIsInsideUmPrivate rs 0x40000000 16 = true
      ∧ vmBufIntersectsUmPrivate rs 0x40000000 16 = false := by
  have htests : (finalState (vmStep sampleRange sampleObjects) (some []) [sampleMap 1]).map
      (fun rs => (vmBufIsInsideUmPrivate rs 0x40000000 16,
        vmBufIntersectsUmPrivate rs 0x40000000 16)) = some (true, false) := by decide +kernel
  obtain ⟨rs, hrs, htests⟩ := Option.map_eq_some_iff.mp htests
  obtain ⟨hinside, hintersects⟩ := Prod.mk.inj htests
  exact ⟨rs, hrs, hinside, hintersects⟩

/-! ## Access rights -/

def teeMemoryAccessRead : BitVec 32 := 0x00000001#32
def teeMemoryAccessWrite : BitVec 32 := 0x00000002#32
def teeMemoryAccessAnyOwner : BitVec 32 := 0x00000004#32
def teeMemoryAccessNonsecure : BitVec 32 := 0x10000000#32
def teeMemoryAccessSecure : BitVec 32 := 0x20000000#32

/-- What the kernel knows about physical memory, for each memory object: its granule
(`phys_granule`) and the physical address of an offset (`mobj_get_pa`). -/
structure Phys where
  granule : ℕ → ℕ
  mobjGetPa : ℕ → ℕ → ℕ → Except VmError ℕ

/-- The region at which the loop of `tee_mmu_user_va2pa_attr` stops. -/
def userRegion (rs : List Region) (ua : ℕ) : Option Region :=
  rs.find? fun r => coreIsBufferInside ua 1 r.va r.size

/-- `tee_mmu_user_va2pa_attr`, with and without a place for the physical address. -/
def teeMmuUserVa2paAttr (phys : Phys) (rs : List Region) (ua : ℕ) (wantPa : Bool) :
    Except VmError (Option ℕ × BitVec 16) :=
  match userRegion rs ua with
  | none => .error .accessDenied
  | some region =>
    if wantPa then do
      let granule := max (phys.granule region.mobj.id) smallPageSize
      -- `ROUNDDOWN` to, and the bits below, a power of two
      let offset := region.offset + (ua - region.va) / granule * granule
      let p ← phys.mobjGetPa region.mobj.id offset granule
      return (some (p ||| ua % granule), region.attr)
    else return (none, region.attr)

/-- The checks of `vm_check_access_rights` on the attributes of a page. -/
def pageDenied (flags : BitVec 32) (attr : BitVec 16) : Bool :=
  (flags &&& teeMemoryAccessNonsecure ≠ 0 ∧ attr &&& teeMattrSecure ≠ 0)
    ∨ (flags &&& teeMemoryAccessSecure ≠ 0 ∧ attr &&& teeMattrSecure = 0)
    ∨ (flags &&& teeMemoryAccessWrite ≠ 0 ∧ attr &&& teeMattrUw = 0)
    ∨ (flags &&& teeMemoryAccessRead ≠ 0 ∧ attr &&& teeMattrUr = 0)

/-- The loop of `vm_check_access_rights` from an address on, for a number of rounds: `none` if
they do not suffice.  The address wraps around. -/
def checkPages (phys : Phys) (rs : List Region) (flags : BitVec 32) (endAddr : ℕ) :
    ℕ → ℕ → Option (Except VmError Unit)
  | 0, _ => none
  | fuel + 1, a =>
    if a < endAddr then
      match teeMmuUserVa2paAttr phys rs a false with
      | .error e => some (.error e)
      | .ok (_, attr) =>
        if pageDenied flags attr then some (.error .accessDenied)
        else checkPages phys rs flags endAddr fuel ((a + smallPageSize) % wordSize)
    else some (.ok ())

/-- `vm_check_access_rights`, for a number of rounds of its loop. -/
def vmCheckAccessRights (phys : Phys) (rs : List Region) (flags : BitVec 32) (uaddr len : ℕ)
    (fuel : ℕ) : Option (Except VmError Unit) :=
  if wordSize ≤ uaddr + len then some (.error .accessDenied)
  else if flags &&& teeMemoryAccessNonsecure ≠ 0 ∧ flags &&& teeMemoryAccessSecure ≠ 0 then
    some (.error .accessDenied)
  else if flags &&& teeMemoryAccessAnyOwner = 0 ∧ !vmBufIsInsideUmPrivate rs uaddr len then
    some (.error .accessDenied)
  else checkPages phys rs flags (uaddr + len) fuel (uaddr / smallPageSize * smallPageSize)

/-- The rights a region gives. -/
structure Grants (flags : BitVec 32) (r : Region) : Prop where
  read : flags &&& teeMemoryAccessRead ≠ 0 → r.attr &&& teeMattrUr ≠ 0
  write : flags &&& teeMemoryAccessWrite ≠ 0 → r.attr &&& teeMattrUw ≠ 0
  secure : flags &&& teeMemoryAccessSecure ≠ 0 → r.attr &&& teeMattrSecure ≠ 0
  nonsecure : flags &&& teeMemoryAccessNonsecure ≠ 0 → r.attr &&& teeMattrSecure = 0

lemma grants_of_not_pageDenied {flags : BitVec 32} (h : pageDenied flags r.attr = false) :
    Grants flags r := by
  have hnot := of_decide_eq_false h
  constructor
  · exact fun hflag hattr => hnot (.inr (.inr (.inr ⟨hflag, hattr⟩)))
  · exact fun hflag hattr => hnot (.inr (.inr (.inl ⟨hflag, hattr⟩)))
  · exact fun hflag hattr => hnot (.inr (.inl ⟨hflag, hattr⟩))
  · exact fun hflag => not_not.mp fun hattr => hnot (.inl ⟨hflag, hattr⟩)

section

variable {range : VaRange} {rs : List Region}

section

variable (h : WellFormed range rs)

include h

lemma WellFormed.lt_wordSize (hr : r ∈ rs) :
    r.va < wordSize ∧ r.size < wordSize := by
  have hend := (h.regions r hr).end_le
  have hlt := range.end_lt
  simp only [Region.endVa] at hend
  omega

lemma WellFormed.userRegion_spec {ua : ℕ} (hua : ua < wordSize) (hfind : userRegion rs ua = some r) :
    r ∈ rs ∧ r.va ≤ ua ∧ ua < r.endVa := by
  have hr := List.mem_of_find?_eq_some hfind
  have hinside := List.find?_some hfind
  obtain ⟨hrva, hrsize⟩ := h.lt_wordSize hr
  obtain ⟨-, hlow, hend, -⟩ := (coreIsBufferInside_iff hua (by decide) hrva hrsize).mp hinside
  refine ⟨hr, hlow, ?_⟩
  simp only [Region.endVa]
  omega

lemma WellFormed.page_lt_endVa (hr : r ∈ rs) (ha : a < r.endVa)
    (hpage : b / smallPageSize = a / smallPageSize) : b < r.endVa := by
  have hva := (h.regions r hr).va_aligned
  have hsize := (h.regions r hr).size_aligned
  simp only [PageAligned, Region.endVa, smallPageSize] at *
  omega

/-- The loop ends: the last page of the address space is not mapped, and below it the address
grows.  If it succeeds, every page it went through grants the rights. -/
lemma checkPages_spec (phys : Phys) (flags : BitVec 32) (endAddr fuel : ℕ)
    (haligned : PageAligned a) (ha : a < wordSize) (hfuel : wordSize < a + fuel * smallPageSize) :
    ∃ res, checkPages phys rs flags endAddr fuel a = some res
      ∧ (res = .ok () → ∀ b, a ≤ b → b < endAddr →
        ∃ r ∈ rs, (r.va ≤ b ∧ b < r.endVa) ∧ Grants flags r) := by
  induction fuel generalizing a with
  | zero => omega
  | succ fuel ih =>
    rw [checkPages]
    by_cases hlt : a < endAddr
    swap
    · rw [if_neg hlt]
      exact ⟨_, rfl, fun _ b hab hb => absurd (hab.trans_lt hb) hlt⟩
    rw [if_pos hlt, teeMmuUserVa2paAttr]
    cases hfind : userRegion rs a with
    | none => exact ⟨_, rfl, fun hok => nomatch hok⟩
    | some r =>
      obtain ⟨hr, hlow, hhigh⟩ := h.userRegion_spec ha hfind
      show ∃ res, (if pageDenied flags r.attr = true then _ else _) = some res ∧ _
      by_cases hdenied : pageDenied flags r.attr = true
      · rw [if_pos hdenied]
        exact ⟨_, rfl, fun hok => nomatch hok⟩
      rw [if_neg hdenied]
      have hgrants := grants_of_not_pageDenied (by simpa using hdenied)
      -- the region ends at a page boundary below the end of the address space
      have hnext : a + smallPageSize < wordSize := by
        have hend := (h.regions r hr).end_le
        have hrange := range.end_lt
        have hlast := h.page_lt_endVa hr (b := a + (smallPageSize - 1)) hhigh (by
          simp only [PageAligned, smallPageSize] at *
          omega)
        simp only [smallPageSize] at *
        omega
      rw [Nat.mod_eq_of_lt hnext]
      obtain ⟨res, hres, hsound⟩ := ih (a := a + smallPageSize)
        (by simp only [PageAligned, smallPageSize] at *; omega) hnext
        (by rw [Nat.succ_mul] at hfuel; omega)
      refine ⟨res, hres, fun hok b hab hb => ?_⟩
      rcases lt_or_ge b (a + smallPageSize) with hpage | hpage
      · refine ⟨r, hr, ⟨hlow.trans hab, h.page_lt_endVa hr hhigh ?_⟩, hgrants⟩
        simp only [PageAligned, smallPageSize] at *
        omega
      · exact hsound hok b hpage hb

lemma WellFormed.inside_private {size : ℕ} (hfits : va + size < wordSize)
    (hinside : vmBufIsInsideUmPrivate rs va size = true) :
    ∃ r ∈ rs, r.Private ∧ r.va ≤ va ∧ va + size ≤ r.endVa := by
  obtain ⟨r, hr, hfound⟩ := List.any_eq_true.mp hinside
  obtain ⟨hprivate, hbuf⟩ := of_decide_eq_true hfound
  obtain ⟨hrva, hrsize⟩ := h.lt_wordSize hr
  obtain ⟨-, hlow, hend, -⟩ :=
    (coreIsBufferInside_iff (by omega) (by omega) hrva hrsize).mp hbuf
  exact ⟨r, hr, hprivate, hlow, hend⟩

end

end

/-- `vm_check_access_rights` returns after at most one round for each page of the address space.
If it succeeds, every byte of the buffer lies in a region with the requested rights, and unless the
owner does not matter the buffer lies inside one private region. -/
theorem vmCheckAccessRights_sound {range : VaRange} {rs : List Region} (h : WellFormed range rs)
    (phys : Phys) (flags : BitVec 32) (uaddr len : ℕ) {fuel : ℕ} (hfuel : 2 ^ 52 < fuel) :
    ∃ res, vmCheckAccessRights phys rs flags uaddr len fuel = some res
      ∧ (res = .ok () →
        (∀ a, uaddr ≤ a → a < uaddr + len →
          ∃ r ∈ rs, (r.va ≤ a ∧ a < r.endVa) ∧ Grants flags r)
        ∧ (flags &&& teeMemoryAccessAnyOwner = 0 →
          ∃ r ∈ rs, r.Private ∧ r.va ≤ uaddr ∧ uaddr + len ≤ r.endVa)) := by
  rw [vmCheckAccessRights]
  split
  · exact ⟨_, rfl, fun hok => nomatch hok⟩
  rename_i hfits
  split
  · exact ⟨_, rfl, fun hok => nomatch hok⟩
  split
  · exact ⟨_, rfl, fun hok => nomatch hok⟩
  rename_i howner
  have hdown : uaddr / smallPageSize * smallPageSize ≤ uaddr := Nat.div_mul_le_self _ _
  have hrounds : wordSize < uaddr / smallPageSize * smallPageSize + fuel * smallPageSize := by
    simp only [wordSize, smallPageSize] at *
    omega
  obtain ⟨res, hres, hsound⟩ := checkPages_spec h phys flags (uaddr + len) fuel
    (Nat.mul_mod_left _ _) (by omega) hrounds
  refine ⟨res, hres, fun hok => ⟨fun a hlow hhigh => hsound hok a (hdown.trans hlow) hhigh, ?_⟩⟩
  intro hany
  refine h.inside_private (by omega) ?_
  by_contra hout
  exact howner ⟨hany, by simpa using hout⟩

/-- Four objects without a granule, each at the beginning of a gigabyte. -/
def samplePhys : Phys where
  granule _ := 0
  mobjGetPa mobj offset granule :=
    let p := mobj % 4 * 0x40000000 + offset
    .ok (if granule = 0 then p else p / granule * granule)

/-- A read over the border of two pages of one region. -/
theorem vmCheckAccessRights_sound_sample :
    vmCheckAccessRights samplePhys [samplePages] teeMemoryAccessRead 0x40000ff8 16 (2 ^ 52 + 1)
        = some (.ok ())
      ∧ ∃ r ∈ [samplePages], r.Private ∧ r.va ≤ 0x40000ff8 ∧ 0x40000ff8 + 16 ≤ r.endVa := by
  obtain ⟨res, hres, hsound⟩ := vmCheckAccessRights_sound samplePages_wellFormed samplePhys
    teeMemoryAccessRead 0x40000ff8 16 (Nat.lt_succ_self (2 ^ 52))
  have hok : vmCheckAccessRights samplePhys [samplePages] teeMemoryAccessRead 0x40000ff8 16
      (2 ^ 52 + 1) = some (.ok ()) := by decide +kernel
  exact ⟨hok, (hsound (Option.some.inj (hres.symm.trans hok))).2 (by decide)⟩

end Watz.OpTee
