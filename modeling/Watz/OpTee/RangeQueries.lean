import Watz.OpTee.PageMap

/-!
# What a query about a range says

`vm_get_flags`, `vm_get_prot` and `vm_remap` look at a range of addresses that may go through
many regions, and `va_range_is_contiguous` compares these regions for them.  It stops at the region
that holds the end of the range, before the comparison of that region: the answer speaks for all
regions but the last one.
-/

namespace Watz.OpTee

open Lib

/-! ## Regions of a range -/

/-- The region has an address in the range. -/
def Region.Overlaps (r : Region) (va endVa : ℕ) : Prop := r.va < endVa ∧ va < r.endVa

instance (r : Region) (va endVa : ℕ) : Decidable (r.Overlaps va endVa) :=
  inferInstanceAs (Decidable (_ ∧ _))

/-- The region that holds the end of a range does not differ from the one before it, if that one
is in the range as well. -/
def LastAgrees {α : Type} (key : Region → α) (va endVa : ℕ) (rs : List Region) : Prop :=
  ∀ r ∈ rs, ∀ rn ∈ rs, r.endVa = rn.va → va < rn.va → rn.Contains (endVa - 1) → key rn = key r

/-- A range that passed the check of `va_range_is_contiguous`: its first region, and the list
from there on. -/
structure Checked (cmpRegs : Region → Region → Region → Bool) (va endVa : ℕ) (rs : List Region)
    (r₀ : Region) (post : List Region) : Prop where
  suffix : ∃ pre, rs = pre ++ r₀ :: post
  low : r₀.va ≤ va
  high : va < r₀.endVa
  contiguous : contiguousUpTo cmpRegs r₀ endVa (r₀ :: post) = true

variable {r : Region} {α : Type} {key : Region → α}

section

variable {cmpRegs : Region → Region → Region → Bool} {r₀ : Region} {endVa : ℕ} {rs : List Region}

/-- In a list of regions with pages two of them do not begin at the same address. -/
lemma Sorted.eq_of_va_eq (hsorted : Sorted (r :: rs)) (hpos : 0 < r.size) {x : Region}
    (hx : x ∈ r :: rs) (hva : x.va = r.va) : x = r := by
  rcases List.mem_cons.mp hx with rfl | hx
  · rfl
  · have hle := (sorted_cons.mp hsorted).1 x hx
    simp only [Region.endVa] at hle
    omega

lemma exists_before_of_contiguousUpTo (hsorted : Sorted rs)
    (h : contiguousUpTo cmpRegs r₀ endVa rs = true) :
    ∀ x ∈ rs.tail, x.va < endVa → ∃ r ∈ rs, r.endVa = x.va := by
  revert hsorted
  refine contiguousUpTo_induction (fun r rs hend hsorted x hx hlt => ?_)
    (fun r rn rs hva _ ih hsorted x hx hlt => ?_) h
  · -- everything behind the end of the range begins behind it
    have hle := (sorted_cons.mp hsorted).1 x hx
    omega
  · rcases List.mem_cons.mp hx with rfl | hx
    · exact ⟨r, by simp, hva⟩
    · obtain ⟨y, hy, hyend⟩ := ih (sorted_cons.mp hsorted).2 x hx hlt
      exact ⟨y, List.mem_cons_of_mem _ hy, hyend⟩

lemma cmp_of_touching (hsorted : Sorted rs) (hpos : ∀ r ∈ rs, 0 < r.size)
    (h : contiguousUpTo cmpRegs r₀ endVa rs = true) :
    ∀ r ∈ rs, ∀ rn ∈ rs, r.endVa = rn.va → rn.va < endVa → cmpRegs r₀ r rn = true := by
  revert hsorted hpos
  refine contiguousUpTo_induction (fun r rs hend hsorted hpos x hx y _ hxy hlt => ?_)
    (fun r rn rs hva hcmp ih hsorted hpos x hx y hy hxy hlt => ?_) h
  · have hle := hsorted.le_endVa hend x hx
    omega
  · obtain ⟨hr, htail⟩ := sorted_cons.mp hsorted
    obtain ⟨hrpos, htailpos⟩ := List.forall_mem_cons.mp hpos
    have hy' : y ∈ rn :: rs := by
      rcases List.mem_cons.mp hy with rfl | hy
      · -- nothing ends where the first region begins
        have hle := hsorted.le_va le_rfl x hx
        have hxpos := hpos x hx
        simp only [Region.endVa] at hxy
        omega
      · exact hy
    rcases List.mem_cons.mp hx with rfl | hx
    · obtain rfl : y = rn :=
        htail.eq_of_va_eq (htailpos rn (by simp)) hy' (hxy.symm.trans hva)
      exact hcmp
    · exact ih htail htailpos x hx y hy' hxy hlt

lemma exists_contains_of_contiguousUpTo
    (hkey : ∀ r rn, r.endVa = rn.va → cmpRegs r₀ r rn = true → key rn = key r)
    (h : contiguousUpTo cmpRegs r₀ endVa rs = true) : ∀ r a, rs.head? = some r → r.va ≤ a →
      a < endVa → ∃ x ∈ rs, x.Contains a ∧ key x = key r := by
  refine contiguousUpTo_induction (fun r rs hend => ?_) (fun r rn rs hva hcmp ih => ?_) h
  · rintro _ a ⟨⟩ hlow hhigh
    exact ⟨r, by simp, ⟨hlow, by omega⟩, rfl⟩
  · rintro _ a ⟨⟩ hlow hhigh
    rcases lt_or_ge a r.endVa with ha | ha
    · exact ⟨r, by simp, ⟨hlow, ha⟩, rfl⟩
    -- the address is behind this region
    obtain ⟨x, hx, hcontains, heq⟩ := ih rn a rfl (by omega) hhigh
    exact ⟨x, List.mem_cons_of_mem _ hx, hcontains, heq.trans (hkey r rn hva hcmp)⟩

end

/-! ## What the check finds out -/

section

variable {range : VaRange} {cmpRegs : Region → Region → Region → Bool} {va endVa : ℕ}
  {rs post : List Region} {r₀ : Region}

section Checked

variable (h : Checked cmpRegs va endVa rs r₀ post)

include h

lemma Checked.overlaps (hlt : va < endVa) :
    r₀.Overlaps va endVa := ⟨h.low.trans_lt hlt, h.high⟩

lemma Checked.mem : r₀ ∈ rs := by
  obtain ⟨pre, rfl⟩ := h.suffix
  simp

/-- The regions of the range are in the list from the first one on. -/
lemma Checked.mem_of_overlaps (hsorted : Sorted rs) (hr : r ∈ rs) (hover : va < r.endVa) :
    r ∈ r₀ :: post := by
  obtain ⟨pre, rfl⟩ := h.suffix
  rcases List.mem_append.mp hr with hpre | hpost
  · have hle := hsorted.endVa_le r hpre
    have := h.low
    omega
  · exact hpost

lemma Checked.exists_contains (key : Region → α)
    (hkey : ∀ r rn, r.endVa = rn.va → cmpRegs r₀ r rn = true → key rn = key r) {a : ℕ}
    (hlow : va ≤ a) (hhigh : a < endVa) : ∃ x ∈ rs, x.Contains a ∧ key x = key r₀ := by
  obtain ⟨x, hx, hcontains⟩ :=
    exists_contains_of_contiguousUpTo hkey h.contiguous r₀ a rfl (h.low.trans hlow) hhigh
  obtain ⟨pre, rfl⟩ := h.suffix
  exact ⟨x, List.mem_append_right _ hx, hcontains⟩

/-- The regions of a checked range agree with the first one, if the comparison finds that, and if
the last of them agrees with the one before it. -/
lemma Checked.agree (hwf : WellFormed range rs)
    (hkey : ∀ r rn, cmpRegs r₀ r rn = true → key r = key r₀) (hlast : LastAgrees key va endVa rs) :
    ∀ r ∈ rs, r.Overlaps va endVa → key r = key r₀ := by
  obtain ⟨pre, rfl⟩ := h.suffix
  have hsorted := (sorted_append.mp hwf.disjoint).2.1
  have hpos : ∀ r ∈ r₀ :: post, 0 < r.size :=
    fun r hr => (hwf.regions r (List.mem_append_right _ hr)).pos
  -- the regions that end inside the range were compared
  have hinner : ∀ r ∈ r₀ :: post, r.endVa < endVa → key r = key r₀ := by
    intro r hr hend
    obtain ⟨rn, hcmp⟩ := cmp_of_contiguousUpTo hsorted h.contiguous r hr hend
    exact hkey r rn hcmp
  intro r hr hover
  have hr' := h.mem_of_overlaps hwf.disjoint hr hover.2
  rcases lt_or_ge r.endVa endVa with hend | hend
  · exact hinner r hr' hend
  rcases List.mem_cons.mp hr' with rfl | hpost
  · rfl
  -- the last region has one before it, to which it is compared by assumption
  obtain ⟨x, hx, hxend⟩ :=
    exists_before_of_contiguousUpTo hsorted h.contiguous r hpost hover.1
  have hva : va < r.va :=
    h.high.trans_le ((sorted_cons.mp hsorted).1 r hpost)
  have hcontains : r.Contains (endVa - 1) := by
    have := hover.1
    exact ⟨by omega, by omega⟩
  rw [hlast x (List.mem_append_right _ hx) r hr hxend hva hcontains]
  exact hinner x hx (hxend ▸ hover.1)

end Checked

lemma lastAgrees_of_forall {k : α} (hwf : WellFormed range rs)
    (h : ∀ r ∈ rs, r.Overlaps va endVa → key r = k) (hlt : va < endVa) :
    LastAgrees key va endVa rs := by
  intro r hr rn hrn hend hva hcontains
  have hpos := (hwf.regions r hr).pos
  have hlow := hcontains.1
  have hhigh := hcontains.2
  have hover : r.Overlaps va endVa := by
    simp only [Region.Overlaps, Region.endVa] at *
    omega
  rw [h r hr hover, h rn hrn ⟨by omega, by omega⟩]

lemma checked_of_vaRangeIsContiguous {len : ℕ} {pre : List Region}
    (hfind : findVmRegion va rs = some (pre, r₀, post))
    (hcont : vaRangeIsContiguous r₀ post va len cmpRegs = true) :
    Checked cmpRegs va (va + len) rs r₀ post := by
  obtain ⟨rfl, hlow, hhigh⟩ := findVmRegion_spec hfind
  refine ⟨⟨pre, rfl⟩, hlow, hhigh, ?_⟩
  rw [vaRangeIsContiguous] at hcont
  split at hcont
  · exact absurd hcont Bool.false_ne_true
  · exact hcont

end

/-! ## The queries -/

section

variable {s t : Vm} {va len : ℕ}

lemma checked_of_vmGet {cmpRegs : Region → Region → Region → Bool} {field : Region → BitVec 16}
    {x : BitVec 16} (h : vmGet cmpRegs field va len s = .ok x t) :
    t = s ∧ ¬ (len = 0 ∨ ¬ (PageAligned len ∧ PageAligned va)) ∧ ∃ r₀ post,
      Checked cmpRegs va (va + len) s.regions r₀ post ∧ field r₀ = x := by
  rw [vmGet, failIf_bind_eq_ok, get_bind_eq_ok] at h
  obtain ⟨hcheck, h⟩ := h
  cases hfind : findVmRegion va s.regions with
  | none =>
    rw [hfind] at h
    cases h
  | some found =>
    obtain ⟨pre, r₀, post⟩ := found
    rw [hfind] at h
    obtain ⟨hcont, h⟩ := failIf_bind_eq_ok.mp h
    obtain ⟨rfl, rfl⟩ := pure_eq_ok.mp h
    exact ⟨rfl, hcheck, r₀, post, checked_of_vaRangeIsContiguous hfind (by simpa using hcont), rfl⟩

lemma checked_of_splitVmRange {env : VmEnv} {cmpRegs : Region → Region → Region → Bool}
    {p : List Region × List Region} (h : splitVmRange env va len cmpRegs s = .ok p t) :
    ∃ r₀ post, Checked cmpRegs va (va + len) s.regions r₀ post := by
  rw [splitVmRange, failIf_bind_eq_ok, failIf_bind_eq_ok] at h
  obtain ⟨-, -, h⟩ := h
  obtain ⟨q, u, hfirst, -⟩ := bind_eq_ok.mp h
  rw [splitFirst, get_bind_eq_ok] at hfirst
  cases hfind : findVmRegion va s.regions with
  | none =>
    rw [hfind] at hfirst
    cases hfirst
  | some found =>
    obtain ⟨pre, r₀, post⟩ := found
    rw [hfind] at hfirst
    obtain ⟨hcont, -⟩ := failIf_bind_eq_ok.mp hfirst
    exact ⟨r₀, post, checked_of_vaRangeIsContiguous hfind (by simpa using hcont)⟩

end

/-- What `vm_remap` needs of the regions it moves: the object they map, flags and attributes. -/
def Region.essentials (r : Region) : ℕ × BitVec 16 × BitVec 16 := (r.mobj.id, r.flags, r.attr)

/-- The regions of a range map one object with the same flags and attributes, and neighbours
continue each other. -/
structure Uniform (va endVa : ℕ) (rs : List Region) : Prop where
  same : ∀ r ∈ rs, ∀ r' ∈ rs, r.Overlaps va endVa → r'.Overlaps va endVa →
    r.essentials = r'.essentials
  offsets : ∀ r ∈ rs, ∀ rn ∈ rs, r.Overlaps va endVa → rn.Overlaps va endVa → r.endVa = rn.va →
    rn.offset = r.offset + r.size

lemma Checked.offsets {range : VaRange} {va endVa : ℕ} {rs post : List Region} {r₀ : Region}
    (h : Checked cmpRegionForRemap va endVa rs r₀ post) (hwf : WellFormed range rs) :
    ∀ r ∈ rs, ∀ rn ∈ rs, r.Overlaps va endVa → rn.Overlaps va endVa → r.endVa = rn.va →
      rn.offset = r.offset + r.size := by
  intro r hr rn hrn hover hover' hend
  have hr' := h.mem_of_overlaps hwf.disjoint hr hover.2
  have hrn' := h.mem_of_overlaps hwf.disjoint hrn hover'.2
  obtain ⟨pre, rfl⟩ := h.suffix
  have hcmp := cmp_of_touching (sorted_append.mp hwf.disjoint).2.1
    (fun x hx => (hwf.regions x (List.mem_append_right _ hx)).pos) h.contiguous r hr' rn hrn' hend
    hover'.1
  exact (of_decide_eq_true hcmp).2.2.2

/-- Let the address space be well-formed and the range not empty.  If `vm_get_flags` or
`vm_get_prot` succeeds, its answer is right for all regions of the range exactly if the last one
agrees with the one before it, and `vm_remap` gets past `split_vm_range` with regions that belong
together exactly if the last one belongs to the one before it. -/
theorem rangeQueries_iff {range : VaRange} {s : Vm} (h : WellFormed range s.regions) {va len : ℕ}
    (hlen : 0 < len) :
    (∀ flags t, vmGetFlags va len s = .ok flags t →
        ((∀ r ∈ s.regions, r.Overlaps va (va + len) → r.flags = flags)
          ↔ LastAgrees Region.flags va (va + len) s.regions))
      ∧ (∀ prot t, vmGetProt va len s = .ok prot t →
        ((∀ r ∈ s.regions, r.Overlaps va (va + len) → r.prot = prot)
          ↔ LastAgrees Region.prot va (va + len) s.regions))
      ∧ ∀ env p t, splitVmRange env va len cmpRegionForRemap s = .ok p t →
        (Uniform va (va + len) s.regions
          ↔ LastAgrees Region.essentials va (va + len) s.regions) := by
  have hlt : va < va + len := by omega
  refine ⟨fun flags t hget => ?_, fun prot t hget => ?_, fun env p t hsplit => ?_⟩
  · obtain ⟨-, -, r₀, post, hchecked, rfl⟩ := checked_of_vmGet hget
    refine ⟨fun hall => lastAgrees_of_forall h hall hlt, ?_⟩
    exact hchecked.agree h fun r rn hcmp => (of_decide_eq_true hcmp).symm
  · obtain ⟨-, -, r₀, post, hchecked, rfl⟩ := checked_of_vmGet hget
    refine ⟨fun hall => lastAgrees_of_forall h hall hlt, ?_⟩
    exact hchecked.agree h fun r rn hcmp => (of_decide_eq_true hcmp).symm
  · obtain ⟨r₀, post, hchecked⟩ := checked_of_splitVmRange hsplit
    constructor
    · intro huniform
      refine lastAgrees_of_forall (k := r₀.essentials) h (fun r hr hover => ?_) hlt
      exact huniform.same r hr r₀ hchecked.mem hover (hchecked.overlaps hlt)
    · intro hlast
      have hagree := hchecked.agree h (fun r rn hcmp => by
        obtain ⟨hflags, hattr, hmobj, -⟩ := of_decide_eq_true hcmp
        show (_, _, _) = _
        rw [← hflags, ← hattr, ← hmobj]
        rfl) hlast
      refine ⟨fun r hr r' hr' hover hover' => ?_, hchecked.offsets h⟩
      rw [hagree r hr hover, hagree r' hr' hover']

/-- The two pages of `samplePages`, as two regions. -/
def splitPages : List Region := [(samplePages.cut 0x40001000).1, (samplePages.cut 0x40001000).2]

lemma splitPages_wellFormed : WellFormed sampleRange splitPages := by
  refine .of_sorted (by simp [Sorted, splitPages, Region.cut, Region.endVa, samplePages]) ?_
  intro r hr
  rcases List.mem_pair.mp hr with rfl | rfl <;> constructor <;> decide

/-- Two pages that were cut from one region have its flags. -/
theorem rangeQueries_iff_sample :
    ∃ t, vmGetFlags 0x40000000 8192 ⟨splitPages, 0⟩ = .ok 0 t
      ∧ ∀ r ∈ splitPages, r.Overlaps 0x40000000 0x40002000 → r.flags = 0 := by
  refine ⟨⟨splitPages, 0⟩, rfl, ?_⟩
  have hlen : 0 < 8192 := by decide
  refine ((rangeQueries_iff (s := ⟨splitPages, 0⟩) splitPages_wellFormed hlen).1 0 _
    rfl).mpr ?_
  -- both regions have the flags of the one they were cut from
  intro r hr rn hrn _ _ _
  rcases List.mem_pair.mp hr with rfl | rfl <;> rcases List.mem_pair.mp hrn with rfl | rfl <;> rfl

/-- The first page of `samplePages`. -/
def firstPage : Region := { samplePages with size := 4096 }

/-- A page behind it, of another object and with other protections and flags. -/
def otherPage : Region where
  mobj := sampleObjects.get 1
  offset := 4096
  va := 0x40001000
  size := 4096
  attr := teeMattrUrw
  flags := vmFlagReadonly

/-- All three queries accept the two pages and answer for the first one only. -/
theorem rangeQueries_overlook_last :
    WellFormed sampleRange [firstPage, otherPage]
      ∧ (∃ t, vmGetFlags 0x40000000 8192 ⟨[firstPage, otherPage], 0⟩ = .ok 0 t)
      ∧ (∃ t, vmGetProt 0x40000000 8192 ⟨[firstPage, otherPage], 0⟩ = .ok teeMattrUr t)
      ∧ (∃ p t, splitVmRange (sampleRange.env fun _ => none) 0x40000000 8192 cmpRegionForRemap
        ⟨[firstPage, otherPage], 0⟩ = .ok p t)
      ∧ firstPage.Overlaps 0x40000000 0x40002000 ∧ otherPage.Overlaps 0x40000000 0x40002000
      ∧ otherPage.flags ≠ 0 ∧ otherPage.prot ≠ teeMattrUr
      ∧ firstPage.essentials ≠ otherPage.essentials := by
  refine ⟨?_, ⟨_, rfl⟩, ⟨_, rfl⟩, ⟨_, _, rfl⟩, ?_⟩
  · refine .of_sorted (by simp [Sorted, firstPage, otherPage, Region.endVa, samplePages]) ?_
    intro r hr
    rcases List.mem_pair.mp hr with rfl | rfl <;> constructor <;> decide
  · refine ⟨?_, ?_, ?_, ?_, ?_⟩ <;> decide

end Watz.OpTee
