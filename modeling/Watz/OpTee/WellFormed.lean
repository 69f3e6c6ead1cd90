import Watz.OpTee.VmSpec
import Watz.Lib.History

/-!
# Well-formed address spaces

Whatever is asked of `core/mm/vm.c`, the regions of an address space should be ordered and
disjoint, consist of pages, and lie in the range of user addresses and in their memory objects.
Every operation keeps them so, with one exception: `vm_map_pad` does not look at the size of the
region it is asked for, so that a length that rounds to zero gives a region without pages.
-/

namespace Watz.OpTee

open Lib

/-! ## Well-formed lists -/

/-- The range of user addresses (`core_mmu_get_user_va_range`): some first level entries, never
the first one. -/
structure VaRange where
  base : ℕ
  size : ℕ
  base_pos : 0 < base
  base_aligned : PageAligned base
  end_lt : base + size < wordSize

/-- What the functions of the kernel meet in this range of addresses. -/
def VaRange.env (range : VaRange) (outcome : ℕ → Option VmError) : VmEnv where
  vaRangeBase := range.base
  vaRangeSize := range.size
  outcome := outcome

/-- A size rounded up to pages. -/
def pageCeil (n : ℕ) : ℕ := (n + (smallPageSize - 1)) / smallPageSize * smallPageSize

/-- A region of at least one page, within the user addresses and within its memory object. -/
structure Region.WellFormed (range : VaRange) (r : Region) : Prop where
  pos : 0 < r.size
  va_aligned : PageAligned r.va
  size_aligned : PageAligned r.size
  base_le : range.base ≤ r.va
  end_le : r.endVa ≤ range.base + range.size
  in_mobj : r.offset + r.size ≤ pageCeil r.mobj.size

/-- The regions are ordered by strictly increasing address, disjoint and well-formed. -/
structure WellFormed (range : VaRange) (rs : List Region) : Prop where
  increasing : rs.Pairwise fun r r' => r.va < r'.va
  disjoint : Sorted rs
  regions : ∀ r ∈ rs, r.WellFormed range

/-- The order follows from the regions being disjoint and not empty. -/
lemma WellFormed.of_sorted {range : VaRange} {rs : List Region} (hsorted : Sorted rs)
    (h : ∀ r ∈ rs, r.WellFormed range) : WellFormed range rs := by
  refine ⟨?_, hsorted, h⟩
  refine List.Pairwise.imp_of_mem (fun {r r'} hr _ hle => ?_) hsorted
  have hpos := (h r hr).pos
  simp only [Region.endVa] at hle
  omega

/-- The memory objects, by the identity under which the kernel compares them. -/
structure Objects where
  get : ℕ → Mobj
  id_get : ∀ i, (get i).id = i

/-- The regions map existing objects. -/
def Objects.Mapped (objects : Objects) (r : Region) : Prop := objects.get r.mobj.id = r.mobj

lemma Objects.mapped_of_mobj_eq {objects : Objects} {r : Region} {i : ℕ}
    (h : r.mobj = objects.get i) : objects.Mapped r := by
  rw [Objects.Mapped, h, objects.id_get]

/-- A well-formed list of regions that map existing objects. -/
structure Consistent (range : VaRange) (objects : Objects) (rs : List Region) : Prop where
  wellFormed : WellFormed range rs
  mapped : ∀ r ∈ rs, objects.Mapped r

/-- What is known about a region of any size, also of none. -/
structure Region.Placed (range : VaRange) (objects : Objects) (r : Region) : Prop where
  va_aligned : PageAligned r.va
  size_aligned : PageAligned r.size
  base_le : range.base ≤ r.va
  end_le : r.endVa ≤ range.base + range.size
  in_mobj : r.offset + r.size ≤ pageCeil r.mobj.size
  mapped : objects.Mapped r

/-- A list of regions in their places.  It is consistent if all of them have pages. -/
structure Arranged (range : VaRange) (objects : Objects) (rs : List Region) : Prop where
  sorted : Sorted rs
  placed : ∀ r ∈ rs, r.Placed range objects

section

variable {range : VaRange} {objects : Objects} {rs rs' : List Region}

lemma Arranged.consistent (h : Arranged range objects rs) (hpos : ∀ r ∈ rs, 0 < r.size) :
    Consistent range objects rs := by
  refine ⟨.of_sorted h.sorted fun r hr => ?_, fun r hr => (h.placed r hr).mapped⟩
  obtain ⟨hva, hsize, hbase, hend, hmobj, -⟩ := h.placed r hr
  exact ⟨hpos r hr, hva, hsize, hbase, hend, hmobj⟩

lemma Consistent.pos (h : Consistent range objects rs) : ∀ r ∈ rs, 0 < r.size :=
  fun r hr => (h.wellFormed.regions r hr).pos

lemma Consistent.arranged (h : Consistent range objects rs) : Arranged range objects rs := by
  refine ⟨h.wellFormed.disjoint, fun r hr => ?_⟩
  obtain ⟨-, hva, hsize, hbase, hend, hmobj⟩ := h.wellFormed.regions r hr
  exact ⟨hva, hsize, hbase, hend, hmobj, h.mapped r hr⟩

lemma Arranged.sublist (h : Arranged range objects rs) (hsub : List.Sublist rs' rs) :
    Arranged range objects rs' :=
  ⟨h.sorted.sublist hsub, fun r hr => h.placed r (hsub.subset hr)⟩

/-! ## A new region -/

lemma roundup_le_pageCeil (n : ℕ) : roundup n ≤ pageCeil n :=
  Nat.mul_le_mul_right _ (Nat.div_le_div_right (Nat.mod_le _ _))

lemma pageAligned_separation (neighbour reg : Region) :
    PageAligned (separation neighbour reg) := by
  rw [separation]
  split <;> rfl

variable {granul padBegin padEnd va endVa : ℕ} {reg : Region} {pre rest : List Region}
  {prot : BitVec 16}

lemma pageAligned_roundupOverflow {w v : ℕ} (hv : PageAligned v)
    (hgranul : smallPageSize ∣ granul) : PageAligned (roundupOverflow w v granul v) := by
  rw [roundupOverflow]
  split
  · exact hv
  · exact Nat.mod_eq_zero_of_dvd (Dvd.dvd.mul_left hgranul _)

lemma pageAligned_selectVaInRange {prev next : Region} (hprev : PageAligned prev.endVa)
    (hpad : PageAligned padBegin) (hva : PageAligned reg.va) (hgranul : smallPageSize ∣ granul) :
    PageAligned (selectVaInRange prev next reg padBegin padEnd granul) := by
  have hlowest : PageAligned (prev.endVa + padBegin + separation prev reg) := by
    have hsep := pageAligned_separation prev reg
    simp only [PageAligned, smallPageSize] at *
    omega
  have hrounded := pageAligned_roundupOverflow (w := 64) hlowest hgranul
  have hzero : PageAligned 0 := rfl
  simp only [selectVaInRange]
  generalize hbegin : (if reg.va ≠ 0 then reg.va else _) = beginVa
  have hbegin' : PageAligned beginVa := by
    rw [← hbegin]
    split
    · exact hva
    · exact hrounded
  split
  · exact hzero
  split
  · exact hzero
  split
  · exact hzero
  split
  · exact hbegin'
  · exact hzero

lemma exists_gap_of_insertRegion {last prev : Region}
    (h : insertRegion last reg padBegin padEnd granul prev rs = some (va, rs')) :
    ∃ before ∈ prev :: rs, ∃ next ∈ rs ++ [last], va ≠ 0
      ∧ va = selectVaInRange before next reg padBegin padEnd granul := by
  obtain ⟨pre, post, before, next, rfl, -, hbefore, hnext, hgap⟩ := insertRegion_eq_some h
  refine ⟨before, ?_, next, ?_, hgap⟩
  · rcases hbefore with ⟨-, rfl⟩ | ⟨xs, rfl⟩ <;> simp
  · rw [List.append_assoc]
    exact List.mem_append_right _ (List.mem_of_mem_head? hnext)

lemma checks_of_umapAddRegion {env : VmEnv} {align : ℕ}
    (h : umapAddRegion env reg padBegin padEnd align rs = .ok (va, rs')) :
    (PageAligned reg.va ∧ PageAligned reg.size ∧ PageAligned padBegin)
      ∧ reg.offset + reg.size ≤ pageCeil reg.mobj.size
      ∧ smallPageSize ∣ max align smallPageSize
      ∧ insertRegion (boundary reg (env.vaRangeBase + env.vaRangeSize)) reg padBegin padEnd
        (max align smallPageSize) (boundary reg env.vaRangeBase) rs = some (va, rs') := by
  simp only [umapAddRegion] at h
  split at h
  · cases h
  rename_i haligned
  obtain ⟨hva, hsize, hpad, -⟩ := not_not.mp haligned
  split at h
  · cases h
  rename_i hmobj
  split at h
  · cases h
  rename_i hpow
  split at h
  · rename_i hins
    obtain rfl := Except.ok.inj h
    refine ⟨⟨hva, hsize, hpad⟩, ?_, ?_, hins⟩
    · exact (not_lt.mp fun hlt => hmobj (.inr hlt)).trans (roundup_le_pageCeil _)
    · have hpos : max align smallPageSize ≠ 0 := (lt_max_of_lt_right (by decide)).ne'
      obtain ⟨k, hk⟩ := (Nat.and_sub_one_eq_zero_iff_isPowerOfTwo hpos).mp (not_not.mp hpow)
      have hle : 2 ^ 12 ≤ 2 ^ k := hk ▸ le_max_right align smallPageSize
      rw [hk]
      exact pow_dvd_pow 2 ((Nat.pow_le_pow_iff_right (by norm_num)).mp hle)
  · cases h

lemma Arranged.umapAddRegion {outcome : ℕ → Option VmError} {align : ℕ}
    (h : Arranged range objects rs) (hmapped : objects.Mapped reg)
    (hadd : umapAddRegion (range.env outcome) reg padBegin padEnd align rs = .ok (va, rs')) :
    Arranged range objects rs' := by
  obtain ⟨⟨hva, hsize, hpad⟩, hmobj, hgranul, hins⟩ := checks_of_umapAddRegion hadd
  obtain ⟨hsorted, hmem⟩ := umapAddRegion_spec hadd h.sorted
  obtain ⟨before, hbefore, next, hnext, hne, rfl⟩ := exists_gap_of_insertRegion hins
  have hspec := selectVaInRange_spec (lt_max_of_lt_right (by decide)) hne
  have hlow : range.base ≤ before.endVa ∧ PageAligned before.endVa := by
    rcases List.mem_cons.mp hbefore with rfl | hbefore
    · exact ⟨le_rfl, range.base_aligned⟩
    · obtain ⟨hva, hsize, hbase, -⟩ := h.placed before hbefore
      refine ⟨hbase.trans before.va_le_endVa, ?_⟩
      simp only [PageAligned, Region.endVa, smallPageSize] at *
      omega
  have hhigh : next.va ≤ range.base + range.size := by
    rcases List.mem_append.mp hnext with hnext | hnext
    · exact next.va_le_endVa.trans (h.placed next hnext).end_le
    · rw [List.mem_singleton.mp hnext]
      exact le_rfl
  refine ⟨hsorted, fun x hx => ?_⟩
  rcases (hmem x).mp hx with rfl | hx
  · exact ⟨pageAligned_selectVaInRange hlow.2 hpad hva hgranul, hsize, hlow.1.trans hspec.1,
      hspec.2.trans hhigh, hmobj, hmapped⟩
  · exact h.placed x hx

/-! ## The operations -/

lemma Arranged.cutAt (h : Arranged range objects rs) (hva : PageAligned va) :
    Arranged range objects (cutAt va rs) := by
  refine ⟨(cutOf_cutAt h.sorted).sorted, forall_mem_cutAt h.placed fun r hr hlow hhigh => ?_⟩
  obtain ⟨haligned, hsize, hbase, hend, hmobj, hmapped⟩ := hr
  have hoff := Nat.sub_add_cancel hlow.le
  simp only [PageAligned, smallPageSize, Region.endVa] at haligned hsize hva hend hhigh
  refine ⟨⟨?_, ?_, ?_, ?_, ?_, hmapped⟩, ⟨?_, ?_, ?_, ?_, ?_, hmapped⟩⟩ <;>
    simp only [Region.cut, Region.endVa, PageAligned, smallPageSize] <;> omega

lemma Arranged.movable (range : VaRange) (objects : Objects) (outcome : ℕ → Option VmError) :
    Movable (range.env outcome) (Arranged range objects) objects.Mapped where
  sorted h := h.sorted
  forall_mem h := fun r hr => (h.placed r hr).mapped
  cutAt h hva := h.cutAt hva
  sublist h hsub := h.sublist hsub
  moved h := h
  add h hreg hadd := h.umapAddRegion hreg hadd

lemma Arranged.mergeVmRange (h : Arranged range objects rs) (va endVa : ℕ) :
    Arranged range objects (mergeVmRange va endVa rs) := by
  refine ⟨(mergeOf_mergeVmRange h.sorted).sorted, ?_⟩
  cases rs with
  | nil => exact h.placed
  | cons r rs =>
    refine forall_mem_mergeFrom (fun r rn hr hrn hend hid hoffset => ?_) h.placed
    obtain ⟨haligned, hsize, hbase, -, -, hmapped⟩ := hr
    obtain ⟨-, hsize', -, hend', hmobj, hmapped'⟩ := hrn
    have hsame : r.mobj = rn.mobj := by rw [← hmapped, ← hmapped', hid]
    rw [← hsame] at hmobj
    refine ⟨haligned, ?_, hbase, ?_, ?_, hmapped⟩ <;>
      simp only [Region.endVa, PageAligned, smallPageSize] at * <;> omega

lemma forall_mem_protectUpTo {P : Region → Prop} (hsorted : Sorted (pre ++ rest))
    (h : ∀ r ∈ pre ++ rest, P r) (hprotect : ∀ r, P r → P (r.protect prot)) :
    ∀ r ∈ pre ++ protectUpTo endVa prot rest, P r := by
  obtain ⟨hpre, hrest⟩ := List.forall_mem_append.mp h
  refine List.forall_mem_append.mpr ⟨hpre, fun x hx => ?_⟩
  rcases mem_protectUpTo (sorted_append.mp hsorted).2.1 hx with ⟨r, hr, -, rfl⟩ | ⟨hx, -⟩
  · exact hprotect r (hrest r hr)
  · exact hrest x hx

lemma sorted_protectUpTo (h : Sorted (pre ++ rest)) :
    Sorted (pre ++ protectUpTo endVa prot rest) := by
  refine sorted_congr ?_ h
  rw [List.map_append, List.map_append, map_protectUpTo]

lemma Arranged.protectUpTo (h : Arranged range objects (pre ++ rest)) :
    Arranged range objects (pre ++ protectUpTo endVa prot rest) := by
  refine ⟨sorted_protectUpTo h.sorted, forall_mem_protectUpTo h.sorted h.placed fun r hr => ?_⟩
  exact ⟨hr.va_aligned, hr.size_aligned, hr.base_le, hr.end_le, hr.in_mobj, hr.mapped⟩

lemma Consistent.movable (range : VaRange) (objects : Objects) (outcome : ℕ → Option VmError) :
    Movable (range.env outcome) (Consistent range objects)
      (fun r => 0 < r.size ∧ objects.Mapped r) where
  sorted h := h.wellFormed.disjoint
  forall_mem h := fun r hr => ⟨h.pos r hr, h.mapped r hr⟩
  cutAt h hva := by
    refine (h.arranged.cutAt hva).consistent fun r' hr' => ?_
    obtain ⟨r, hr, hpart⟩ := (cutOf_cutAt h.wellFormed.disjoint).part r' hr'
    exact hpart.pos (h.pos r hr)
  sublist h hsub := (h.arranged.sublist hsub).consistent fun r hr => h.pos r (hsub.subset hr)
  moved h := h
  add h hreg hadd := by
    refine (h.arranged.umapAddRegion hreg.2 hadd).consistent fun x hx => ?_
    rcases ((umapAddRegion_spec hadd h.wellFormed.disjoint).2 x).mp hx with rfl | hx
    · exact hreg.1
    · exact h.pos x hx

lemma Consistent.mergeVmRange (h : Consistent range objects rs) (va endVa : ℕ) :
    Consistent range objects (mergeVmRange va endVa rs) := by
  refine (h.arranged.mergeVmRange va endVa).consistent fun r' hr' => ?_
  obtain ⟨r, hr, -, hsize, -⟩ := (mergeOf_mergeVmRange h.wellFormed.disjoint).lowest r' hr'
  exact (h.pos r hr).trans_le hsize

lemma Consistent.protectUpTo (h : Consistent range objects (pre ++ rest)) :
    Consistent range objects (pre ++ protectUpTo endVa prot rest) :=
  h.arranged.protectUpTo.consistent
    (forall_mem_protectUpTo h.wellFormed.disjoint h.pos fun _ hr => hr)

end

/-! ## Runs -/

/-- A call of one of the operations that change an address space. -/
inductive VmCall where
  | mapPad (va len : ℕ) (prot : BitVec 32) (flags : BitVec 16) (mobj offs padBegin padEnd align : ℕ)
  | remap (newVa oldVa len padBegin padEnd : ℕ)
  | setProt (va len : ℕ) (prot : BitVec 32)
  | unmap (va len : ℕ)

def VmCall.exec (env : VmEnv) (objects : Objects) : VmCall → VmProg Unit
  | .mapPad va len prot flags mobj offs padBegin padEnd align =>
    discard (vmMapPad env va len prot flags (objects.get mobj) offs padBegin padEnd align)
  | .remap newVa oldVa len padBegin padEnd =>
    discard (vmRemap env newVa oldVa len padBegin padEnd)
  | .setProt va len prot => vmSetProt env va len prot
  | .unmap va len => vmUnmap env va len

/-- The kernel executes one call, with what its allocators and the pager answer. -/
def vmStep (range : VaRange) (objects : Objects) : Option (List Region) →
    (ℕ → Option VmError) × VmCall → Except VmStop Unit × Option (List Region)
  | none, _ => (.error .panic, none)
  | some rs, (outcome, call) =>
    match call.exec (range.env outcome) objects ⟨rs, 0⟩ with
    | .ok _ t => (.ok (), some t.regions)
    | .error .panic _ => (.error .panic, none)
    | .error (.error e) t => (.error (.error e), some t.regions)

/-- The length of a new mapping, rounded up to pages in 64 bits, is not zero. -/
def VmCall.HasPages : VmCall → Prop
  | .mapPad _ len _ _ _ _ _ _ _ => roundup len ≠ 0
  | _ => True

/-- The region that a call asks for, with the cache attributes of its object. -/
def VmCall.newRegion (objects : Objects) (cattr : BitVec 16) : VmCall → Option Region
  | .mapPad va len prot flags mobj offs _ _ _ =>
    some { mobj := objects.get mobj, offset := offs, va := va, size := roundup len,
           attr := newAttr (objects.get mobj) cattr (prot.setWidth 16), flags := flags }
  | _ => none

variable {I : List Region → Prop}

/-- An invariant is kept by every call if the regions can be moved, merged and protected under it,
and if a new region is one that could have been moved. -/
lemma Movable.keeps_exec {P : Region → Prop} {env : VmEnv} {objects : Objects}
    (h : Movable env I P)
    (hprotect : ∀ {pre rest endVa prot}, I (pre ++ rest) → I (pre ++ protectUpTo endVa prot rest))
    (hmerge : ∀ {rs} va endVa, I rs → I (mergeVmRange va endVa rs)) {call : VmCall}
    (hnew : ∀ cattr reg, call.newRegion objects cattr = some reg → P reg) :
    Keeps (fun s : Vm => I s.regions) (call.exec env objects) := by
  cases call with
  | mapPad va len prot flags mobj offs padBegin padEnd align =>
    refine Keeps.bind (fun s hs => ?_) fun _ => Keeps.pure _
    refine (vmMapPad_adds env va len prot flags (objects.get mobj) offs padBegin padEnd
      align).conseq (fun _ => id) ?_ (fun t ht => ht ▸ hs) s rfl
    rintro va' t ⟨cattr, hadd⟩
    exact h.add hs (hnew cattr _ rfl) hadd
  | remap newVa oldVa len padBegin padEnd =>
    exact Keeps.bind (keeps_vmRemap h _ _ _ _ _) fun _ => Keeps.pure _
  | setProt va len prot => exact h.keeps_vmSetProt hprotect hmerge va len prot
  | unmap va len => exact h.keeps_vmUnmap va len

lemma keeps_arranged_exec (range : VaRange) (objects : Objects) (outcome : ℕ → Option VmError)
    (call : VmCall) :
    Keeps (fun s : Vm => Arranged range objects s.regions)
      (call.exec (range.env outcome) objects) := by
  refine (Arranged.movable range objects outcome).keeps_exec Arranged.protectUpTo
    (fun va endVa h => h.mergeVmRange va endVa) fun cattr reg hreg => ?_
  cases call with
  | mapPad va len prot flags mobj offs padBegin padEnd align =>
    obtain rfl := Option.some.inj hreg
    exact Objects.mapped_of_mobj_eq rfl
  | remap | setProt | unmap => cases hreg

lemma keeps_consistent_exec (range : VaRange) (objects : Objects) (outcome : ℕ → Option VmError)
    {call : VmCall} (hcall : call.HasPages) :
    Keeps (fun s : Vm => Consistent range objects s.regions)
      (call.exec (range.env outcome) objects) := by
  refine (Consistent.movable range objects outcome).keeps_exec Consistent.protectUpTo
    (fun va endVa h => h.mergeVmRange va endVa) fun cattr reg hreg => ?_
  cases call with
  | mapPad va len prot flags mobj offs padBegin padEnd align =>
    obtain rfl := Option.some.inj hreg
    exact ⟨Nat.pos_of_ne_zero hcall, Objects.mapped_of_mobj_eq rfl⟩
  | remap | setProt | unmap => cases hreg

lemma forall_vmStep {range : VaRange} {objects : Objects} {s : Option (List Region)}
    {i : (ℕ → Option VmError) × VmCall}
    (hexec : Keeps (fun s : Vm => I s.regions) (i.2.exec (range.env i.1) objects))
    (hs : ∀ rs, s = some rs → I rs) :
    ∀ rs, (vmStep range objects s i).2 = some rs → I rs := by
  intro rs' hrs'
  obtain ⟨outcome, call⟩ := i
  cases s with
  | none => cases hrs'
  | some rs =>
    obtain ⟨hok, herr⟩ := hexec ⟨rs, 0⟩ (hs rs rfl)
    rw [vmStep] at hrs'
    split at hrs'
    · rename_i hexec
      exact Option.some.inj hrs' ▸ hok _ _ hexec
    · cases hrs'
    · rename_i hexec
      exact Option.some.inj hrs' ▸ herr _ _ hexec

lemma forall_finalState_vmStep {C : VmCall → Prop} {range : VaRange} {objects : Objects}
    (hnil : I [])
    (hexec : ∀ outcome call, C call →
      Keeps (fun s : Vm => I s.regions) (call.exec (range.env outcome) objects))
    {calls : List ((ℕ → Option VmError) × VmCall)} (hcalls : ∀ i ∈ calls, C i.2)
    {rs : List Region} (hrs : finalState (vmStep range objects) (some []) calls = some rs) : I rs :=
  invariant_finalState (I := fun s => ∀ rs, s = some rs → I rs) (C := fun _ i => C i.2)
    (fun _ _ hs hi => forall_vmStep (hexec _ _ hi) hs)
    (fun _ heq => Option.some.inj heq ▸ hnil)
    (fun _ he => hcalls _ (input_mem_of_mem_history he)) rs hrs

/-- From an empty address space on, every sequence of calls leaves a well-formed list of regions,
whichever arguments they have and whichever allocations fail, as long as no mapping is asked for
whose length rounds to zero. -/
theorem addressSpace_wellFormed {range : VaRange} {objects : Objects}
    {calls : List ((ℕ → Option VmError) × VmCall)} (hcalls : ∀ i ∈ calls, i.2.HasPages)
    {rs : List Region} (hrs : finalState (vmStep range objects) (some []) calls = some rs) :
    WellFormed range rs := by
  exact (forall_finalState_vmStep (I := Consistent range objects)
    (Arranged.consistent ⟨List.Pairwise.nil, by simp⟩ (by simp))
    (fun outcome _ hcall => keeps_consistent_exec range objects outcome hcall) hcalls
    hrs).wellFormed

/-- One gigabyte of user addresses, from the second first level entry on. -/
def sampleRange : VaRange where
  base := 0x40000000
  size := 0x40000000
  base_pos := by decide
  base_aligned := by decide
  end_lt := by decide

/-- Objects of two pages. -/
def sampleObjects : Objects where
  get i := { id := i, size := 8192, isPaged := false, isSecure := true, cattr := some 1 }
  id_get _ := rfl

/-- A mapping of readable memory, the kernel choosing its place, when nothing fails. -/
def sampleMap (len : ℕ) : (ℕ → Option VmError) × VmCall :=
  (fun _ => none, .mapPad 0 len (teeMattrUr.setWidth 32) 0 0 0 0 0 0)

/-- Two mappings, the second of which is given back in part. -/
def sampleCalls : List ((ℕ → Option VmError) × VmCall) :=
  [sampleMap 1, sampleMap 8192, (fun _ => none, .unmap 0x40001000 4096)]

/-- Three calls that leave two regions. -/
theorem addressSpace_wellFormed_sample :
    ∃ rs, finalState (vmStep sampleRange sampleObjects) (some []) sampleCalls = some rs
      ∧ rs.length = 2 ∧ WellFormed sampleRange rs := by
  have hlen : (finalState (vmStep sampleRange sampleObjects) (some []) sampleCalls).map List.length
      = some 2 := by decide +kernel
  obtain ⟨rs, hrs, hlen⟩ := Option.map_eq_some_iff.mp hlen
  refine ⟨rs, hrs, hlen, addressSpace_wellFormed (fun i hi => ?_) hrs⟩
  simp only [sampleCalls, List.mem_cons, List.not_mem_nil, or_false] at hi
  rcases hi with rfl | rfl | rfl
  · exact (by decide : roundup 1 ≠ 0)
  · exact (by decide : roundup 8192 ≠ 0)
  · trivial

/-- A mapping of no bytes succeeds, and its region has no pages. -/
theorem addressSpace_emptyRegion :
    ∃ rs, finalState (vmStep sampleRange sampleObjects) (some []) [sampleMap 0] = some rs
      ∧ ¬ WellFormed sampleRange rs := by
  have hempty : ((finalState (vmStep sampleRange sampleObjects) (some []) [sampleMap 0]).any
      fun rs => rs.any fun r => r.size = 0) = true := by decide +kernel
  obtain ⟨rs, hrs, r, hr, hsize⟩ := exists_region hempty
  exact ⟨rs, hrs, fun h => (h.regions r hr).pos.ne' hsize⟩

end Watz.OpTee
