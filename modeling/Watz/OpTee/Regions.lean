import Watz.OpTee.Vm

/-!
# Ordered regions

The regions of an address space are ordered and do not overlap, and every operation keeps them
so.  This file proves it for the operations on lists, and says where the regions of the new list
come from: splitting leaves parts of old regions, merging and moving leave their attributes, and
changing protections touches the regions of the range and no others.
-/

namespace Watz.OpTee

open Lib

/-- The regions are ordered by address and do not overlap. -/
def Sorted (rs : List Region) : Prop := rs.Pairwise fun r r' => r.endVa ≤ r'.va

lemma Region.va_le_endVa (r : Region) : r.va ≤ r.endVa := Nat.le_add_right _ _

lemma sorted_cons {r : Region} {rs : List Region} :
    Sorted (r :: rs) ↔ (∀ x ∈ rs, r.endVa ≤ x.va) ∧ Sorted rs := List.pairwise_cons

lemma sorted_append {rs rs' : List Region} :
    Sorted (rs ++ rs') ↔ Sorted rs ∧ Sorted rs' ∧ ∀ r ∈ rs, ∀ r' ∈ rs', r.endVa ≤ r'.va :=
  List.pairwise_append

lemma Sorted.sublist {rs rs' : List Region} (h : Sorted rs) (hsub : List.Sublist rs' rs) :
    Sorted rs' := List.Pairwise.sublist hsub h

lemma Sorted.le_va {r : Region} {rs : List Region} (h : Sorted (r :: rs)) {lo : ℕ}
    (hlo : lo ≤ r.va) : ∀ x ∈ r :: rs, lo ≤ x.va := by
  intro x hx
  rcases List.mem_cons.mp hx with rfl | hx
  · exact hlo
  · have hle := (sorted_cons.mp h).1 x hx
    have := r.va_le_endVa
    omega

lemma Sorted.endVa_le {r : Region} {pre post : List Region} (h : Sorted (pre ++ r :: post)) :
    ∀ x ∈ pre, x.endVa ≤ r.va := fun x hx => (sorted_append.mp h).2.2 x hx r (by simp)

/-! ## A new region -/

lemma le_roundupOverflow {w v size : ℕ} (hsize : 0 < size) : v ≤ roundupOverflow w v size v := by
  rw [roundupOverflow]
  split
  · exact le_refl v
  · have hdiv := Nat.div_add_mod (v + (size - 1)) size
    have hmod := Nat.mod_lt (v + (size - 1)) hsize
    rw [Nat.mul_comm] at hdiv
    omega

lemma selectVaInRange_spec {prev next reg : Region} {padBegin padEnd granul : ℕ}
    (hgranul : 0 < granul) (h : selectVaInRange prev next reg padBegin padEnd granul ≠ 0) :
    prev.endVa ≤ selectVaInRange prev next reg padBegin padEnd granul
      ∧ selectVaInRange prev next reg padBegin padEnd granul + reg.size ≤ next.va := by
  revert h
  simp only [selectVaInRange]
  have hlow := le_roundupOverflow (w := 64) (v := prev.endVa + padBegin + separation prev reg)
    hgranul
  generalize hbegin : (if reg.va ≠ 0 then reg.va else _) = beginVa
  have hhigh := le_roundupOverflow (w := 64)
    (v := beginVa + reg.size + padEnd + separation next reg) hgranul
  split
  · exact fun h => absurd rfl h
  split
  · exact fun h => absurd rfl h
  split
  · exact fun h => absurd rfl h
  split
  · intro _
    constructor
    · rw [← hbegin]
      split <;> omega
    · omega
  · exact fun h => absurd rfl h

section Insert

variable {last reg prev : Region} {padBegin padEnd granul va : ℕ} {rs rs' : List Region}

/-- A region is put into a gap of the list that takes it. -/
lemma insertRegion_eq_some
    (h : insertRegion last reg padBegin padEnd granul prev rs = some (va, rs')) :
    ∃ pre post before next, rs = pre ++ post ∧ rs' = pre ++ { reg with va := va } :: post
      ∧ (pre = [] ∧ before = prev ∨ ∃ xs, pre = xs ++ [before])
      ∧ (post ++ [last]).head? = some next
      ∧ va ≠ 0 ∧ va = selectVaInRange before next reg padBegin padEnd granul := by
  induction rs generalizing prev rs' with
  | nil =>
    simp only [insertRegion, Option.ite_none_right_eq_some, Option.some.injEq,
      Prod.mk.injEq] at h
    obtain ⟨hne, rfl, rfl⟩ := h
    exact ⟨[], [], prev, last, rfl, rfl, .inl ⟨rfl, rfl⟩, rfl, hne, rfl⟩
  | cons r rs ih =>
    simp only [insertRegion] at h
    split at h
    · rename_i hne
      obtain ⟨rfl, rfl⟩ := Prod.mk.inj (Option.some.inj h)
      exact ⟨[], r :: rs, prev, r, rfl, rfl, .inl ⟨rfl, rfl⟩, rfl, hne, rfl⟩
    · obtain ⟨⟨va', rs''⟩, hins, heq⟩ := Option.map_eq_some_iff.mp h
      obtain ⟨rfl, rfl⟩ := Prod.mk.inj heq
      obtain ⟨pre, post, before, next, rfl, hrs, hbefore, hgap⟩ := ih hins
      refine ⟨r :: pre, post, before, next, rfl, congrArg (r :: ·) hrs, .inr ?_, hgap⟩
      rcases hbefore with ⟨rfl, rfl⟩ | ⟨xs, rfl⟩
      · exact ⟨[], rfl⟩
      · exact ⟨r :: xs, rfl⟩

lemma sorted_of_insertRegion (hgranul : 0 < granul)
    (h : insertRegion last reg padBegin padEnd granul prev rs = some (va, rs'))
    (hsorted : Sorted rs) : Sorted rs' := by
  obtain ⟨pre, post, before, next, rfl, rfl, hbefore, hnext, hne, rfl⟩ := insertRegion_eq_some h
  obtain ⟨hlow, hhigh⟩ := selectVaInRange_spec hgranul hne
  obtain ⟨hpre, hpost, hcross⟩ := sorted_append.mp hsorted
  refine sorted_append.mpr ⟨hpre, sorted_cons.mpr ⟨fun x hx => ?_, hpost⟩, fun x hx y hy => ?_⟩
  · cases post with
    | nil => simp at hx
    | cons r post =>
      obtain rfl := Option.some.inj hnext
      exact hpost.le_va hhigh x hx
  · rcases List.mem_cons.mp hy with rfl | hy
    · rcases hbefore with ⟨rfl, -⟩ | ⟨xs, rfl⟩
      · simp at hx
      · rcases List.mem_append.mp hx with hx | hx
        · exact (hpre.endVa_le x hx).trans (before.va_le_endVa.trans hlow)
        · exact List.mem_singleton.mp hx ▸ hlow
    · exact hcross x hx y hy

end Insert

lemma umapAddRegion_spec {env : VmEnv} {reg : Region} {padBegin padEnd align va : ℕ}
    {rs rs' : List Region}
    (h : umapAddRegion env reg padBegin padEnd align rs = .ok (va, rs')) (hsorted : Sorted rs) :
    Sorted rs' ∧ ∀ x, x ∈ rs' ↔ x = { reg with va := va } ∨ x ∈ rs := by
  simp only [umapAddRegion] at h
  have hgranul : 0 < max align smallPageSize := lt_max_of_lt_right (by decide)
  repeat (split at h; · cases h)
  split at h
  · rename_i hins
    obtain rfl := Except.ok.inj h
    refine ⟨sorted_of_insertRegion hgranul hins hsorted, fun x => ?_⟩
    obtain ⟨pre, post, -, -, rfl, rfl, -⟩ := insertRegion_eq_some hins
    simp only [List.mem_append, List.mem_cons, or_left_comm]
  · cases h

/-! ## Parts of regions -/

/-- A region inside another one, with its attributes. -/
structure Region.Part (r' r : Region) : Prop where
  low : r.va ≤ r'.va
  high : r'.endVa ≤ r.endVa
  attr : r'.attr = r.attr
  flags : r'.flags = r.flags
  pos : 0 < r.size → 0 < r'.size

lemma Region.Part.refl (r : Region) : r.Part r := ⟨le_refl _, le_refl _, rfl, rfl, id⟩

lemma Region.Part.trans {r'' r' r : Region} (h' : r''.Part r') (h : r'.Part r) : r''.Part r :=
  ⟨h.low.trans h'.low, h'.high.trans h.high, h'.attr.trans h.attr, h'.flags.trans h.flags,
    fun hpos => h'.pos (h.pos hpos)⟩

/-- An ordered list of parts of the regions of a list. -/
structure CutOf (rs rs' : List Region) : Prop where
  sorted : Sorted rs'
  part : ∀ r' ∈ rs', ∃ r ∈ rs, r'.Part r

lemma CutOf.refl {rs : List Region} (h : Sorted rs) : CutOf rs rs :=
  ⟨h, fun r hr => ⟨r, hr, .refl r⟩⟩

lemma CutOf.trans {rs rs' rs'' : List Region} (h : CutOf rs rs') (h' : CutOf rs' rs'') :
    CutOf rs rs'' := by
  refine ⟨h'.sorted, fun r'' hr'' => ?_⟩
  obtain ⟨r', hr', hpart'⟩ := h'.part r'' hr''
  obtain ⟨r, hr, hpart⟩ := h.part r' hr'
  exact ⟨r, hr, hpart'.trans hpart⟩

section Cut

variable {r : Region} {va : ℕ} {pre post : List Region}

lemma Region.cut_fst_part (hlow : r.va < va) (hhigh : va < r.endVa) : (r.cut va).1.Part r := by
  simp only [Region.endVa] at hhigh
  constructor <;> simp only [Region.cut, Region.endVa] <;> omega

lemma Region.cut_snd_part (hlow : r.va < va) (hhigh : va < r.endVa) : (r.cut va).2.Part r := by
  simp only [Region.endVa] at hhigh
  constructor <;> simp only [Region.cut, Region.endVa] <;> omega

lemma Region.cut_fst_endVa (hlow : r.va < va) : (r.cut va).1.endVa = va := by
  simp only [Region.cut, Region.endVa]
  omega

@[simp] lemma Region.cut_snd_va : (r.cut va).2.va = va := rfl

lemma cutOf_cut (h : Sorted (pre ++ r :: post)) (hlow : r.va < va) (hhigh : va < r.endVa) :
    CutOf (pre ++ r :: post) (pre ++ (r.cut va).1 :: (r.cut va).2 :: post) := by
  obtain ⟨hpre, hrest, hcross⟩ := sorted_append.mp h
  obtain ⟨hr, hpost⟩ := sorted_cons.mp hrest
  have hfst := Region.cut_fst_part hlow hhigh
  have hsnd := Region.cut_snd_part hlow hhigh
  have hend := Region.cut_fst_endVa hlow
  constructor
  · refine sorted_append.mpr ⟨hpre, sorted_cons.mpr ⟨?_, sorted_cons.mpr ⟨?_, hpost⟩⟩, ?_⟩
    · intro x hx
      rcases List.mem_cons.mp hx with rfl | hx
      · exact hend.le
      · exact hfst.high.trans (hr x hx)
    · exact fun x hx => hsnd.high.trans (hr x hx)
    · intro x hx y hy
      have hxr := hcross x hx r (by simp)
      rcases List.mem_cons.mp hy with rfl | hy
      · exact hxr.trans hfst.low
      · rcases List.mem_cons.mp hy with rfl | hy
        · exact hxr.trans hsnd.low
        · exact hcross x hx y (by simp [hy])
  · intro x hx
    rcases List.mem_append.mp hx with hx | hx
    · exact ⟨x, by simp [hx], .refl x⟩
    · rcases List.mem_cons.mp hx with rfl | hx
      · exact ⟨r, by simp, hfst⟩
      · rcases List.mem_cons.mp hx with rfl | hx
        · exact ⟨r, by simp, hsnd⟩
        · exact ⟨x, by simp [hx], .refl x⟩

end Cut

lemma findVmRegion_spec {va : ℕ} {rs pre post : List Region} {r : Region}
    (h : findVmRegion va rs = some (pre, r, post)) :
    rs = pre ++ r :: post ∧ r.va ≤ va ∧ va < r.endVa := by
  induction rs generalizing pre with
  | nil => simp [findVmRegion] at h
  | cons x rs ih =>
    rw [findVmRegion] at h
    split at h
    · rename_i hx
      obtain ⟨rfl, rfl, rfl⟩ : [] = pre ∧ x = r ∧ rs = post := by simpa using h
      exact ⟨rfl, hx⟩
    · obtain ⟨⟨pre', r', post'⟩, hfind, heq⟩ := Option.map_eq_some_iff.mp h
      obtain ⟨rfl, rfl, rfl⟩ : x :: pre' = pre ∧ r' = r ∧ post' = post := by simpa using heq
      obtain ⟨rfl, hr⟩ := ih hfind
      exact ⟨rfl, hr⟩

/-! ## Cutting at an address -/

/-- The list with the region cut in two whose inside has the address, if there is one. -/
def cutAt (va : ℕ) : List Region → List Region
  | [] => []
  | r :: rs =>
    if r.va < va ∧ va < r.endVa then (r.cut va).1 :: (r.cut va).2 :: rs else r :: cutAt va rs

/-- The address is inside no region. -/
def Uncut (va : ℕ) (rs : List Region) : Prop := ∀ r ∈ rs, r.endVa ≤ va ∨ va ≤ r.va

section CutAt

variable {va : ℕ} {rs pre post : List Region} {r : Region}

lemma cutAt_of_uncut (h : Uncut va rs) : cutAt va rs = rs := by
  induction rs with
  | nil => rfl
  | cons r rs ih =>
    have hr := h r (by simp)
    rw [cutAt, if_neg (by omega), ih fun x hx => h x (by simp [hx])]

lemma cutAt_append_of_uncut (h : Uncut va pre) : cutAt va (pre ++ rs) = pre ++ cutAt va rs := by
  induction pre with
  | nil => rfl
  | cons r pre ih =>
    have hr := h r (by simp)
    rw [List.cons_append, cutAt, if_neg (by omega), ih fun x hx => h x (by simp [hx]),
      List.cons_append]

lemma cutAt_append_cons (h : Uncut va pre) (hlow : r.va < va) (hhigh : va < r.endVa) :
    cutAt va (pre ++ r :: post) = pre ++ (r.cut va).1 :: (r.cut va).2 :: post := by
  rw [cutAt_append_of_uncut h, cutAt, if_pos ⟨hlow, hhigh⟩]

lemma uncut_or_exists (va : ℕ) (rs : List Region) :
    Uncut va rs ∨ ∃ pre r post, rs = pre ++ r :: post ∧ Uncut va pre ∧ r.va < va
      ∧ va < r.endVa := by
  induction rs with
  | nil => exact .inl (by simp [Uncut])
  | cons r rs ih =>
    by_cases hr : r.va < va ∧ va < r.endVa
    · exact .inr ⟨[], r, rs, rfl, by simp [Uncut], hr⟩
    have hr' : r.endVa ≤ va ∨ va ≤ r.va := by omega
    rcases ih with huncut | ⟨pre, x, post, rfl, hpre, hx⟩
    · exact .inl (List.forall_mem_cons.mpr ⟨hr', huncut⟩)
    · exact .inr ⟨r :: pre, x, post, rfl, List.forall_mem_cons.mpr ⟨hr', hpre⟩, hx⟩

lemma cutOf_cutAt (h : Sorted rs) : CutOf rs (cutAt va rs) := by
  rcases uncut_or_exists va rs with huncut | ⟨pre, r, post, rfl, hpre, hlow, hhigh⟩
  · rw [cutAt_of_uncut huncut]
    exact .refl h
  · rw [cutAt_append_cons hpre hlow hhigh]
    exact cutOf_cut h hlow hhigh

lemma uncut_cutAt (h : Sorted rs) : Uncut va (cutAt va rs) := by
  rcases uncut_or_exists va rs with huncut | ⟨pre, r, post, rfl, hpre, hlow, hhigh⟩
  · rwa [cutAt_of_uncut huncut]
  · rw [cutAt_append_cons hpre hlow hhigh]
    obtain ⟨hr, -⟩ := sorted_cons.mp (sorted_append.mp h).2.1
    refine List.forall_mem_append.mpr ⟨hpre, List.forall_mem_cons.mpr
      ⟨.inl (Region.cut_fst_endVa hlow).le, List.forall_mem_cons.mpr ⟨.inr le_rfl, ?_⟩⟩⟩
    intro x hx
    exact .inr (hhigh.le.trans (hr x hx))

lemma forall_mem_cutAt {P : Region → Prop} (h : ∀ r ∈ rs, P r)
    (hcut : ∀ r, P r → r.va < va → va < r.endVa → P (r.cut va).1 ∧ P (r.cut va).2) :
    ∀ r ∈ cutAt va rs, P r := by
  rcases uncut_or_exists va rs with huncut | ⟨pre, r, post, rfl, hpre, hlow, hhigh⟩
  · rwa [cutAt_of_uncut huncut]
  · rw [cutAt_append_cons hpre hlow hhigh]
    obtain ⟨hpre', hrest⟩ := List.forall_mem_append.mp h
    obtain ⟨hr, hpost⟩ := List.forall_mem_cons.mp hrest
    obtain ⟨hfst, hsnd⟩ := hcut r hr hlow hhigh
    exact List.forall_mem_append.mpr ⟨hpre', List.forall_mem_cons.mpr
      ⟨hfst, List.forall_mem_cons.mpr ⟨hsnd, hpost⟩⟩⟩

lemma cutAt_of_findVmRegion (hsorted : Sorted rs)
    (h : findVmRegion va rs = some (pre, r, post)) :
    cutAt va rs = if va ≠ r.va then pre ++ (r.cut va).1 :: (r.cut va).2 :: post else rs := by
  obtain ⟨rfl, hlow, hhigh⟩ := findVmRegion_spec h
  have hpre : Uncut va pre := fun x hx => .inl ((hsorted.endVa_le x hx).trans hlow)
  split
  · exact cutAt_append_cons hpre (by omega) hhigh
  · refine cutAt_of_uncut (List.forall_mem_append.mpr ⟨hpre, List.forall_mem_cons.mpr
      ⟨.inr (by omega), fun x hx => .inr ?_⟩⟩)
    have := (sorted_cons.mp (sorted_append.mp hsorted).2.1).1 x hx
    omega

end CutAt

variable {endVa : ℕ} {prot : BitVec 16}

section Contiguous

variable {cmpRegs : Region → Region → Region → Bool} {r0 : Region} {rs : List Region}

/-- Induction over a contiguous range: the last region that is looked at ends behind it, and each
region before that one touches the next one and compares well to it. -/
@[elab_as_elim]
lemma contiguousUpTo_induction {motive : List Region → Prop}
    (last : ∀ r rs, endVa ≤ r.endVa → motive (r :: rs))
    (next : ∀ r rn rs, r.endVa = rn.va → cmpRegs r0 r rn = true → motive (rn :: rs) →
      motive (r :: rn :: rs)) (h : contiguousUpTo cmpRegs r0 endVa rs = true) : motive rs := by
  induction rs using contiguousUpTo.induct cmpRegs r0 endVa with
  | case1 => exact absurd h Bool.false_ne_true
  | case2 r => exact last r [] (of_decide_eq_true h)
  | case3 r rn rs hend => exact last r _ hend
  | case4 r rn rs hend hva => simp [contiguousUpTo, hend, hva] at h
  | case5 r rn rs hend hva hcmp =>
    rw [contiguousUpTo, if_neg hend, if_neg hva, if_pos hcmp] at h
    exact absurd h Bool.false_ne_true
  | case6 r rn rs hend hva hcmp ih =>
    rw [contiguousUpTo, if_neg hend, if_neg hva, if_neg hcmp] at h
    exact next r rn rs (not_not.mp hva) (by simpa using hcmp) (ih h)

/-- Behind a region that ends behind a range no region ends inside of it. -/
lemma Sorted.le_endVa {r : Region} (hsorted : Sorted (r :: rs)) (hend : endVa ≤ r.endVa) :
    ∀ x ∈ r :: rs, endVa ≤ x.endVa := by
  intro x hx
  rcases List.mem_cons.mp hx with rfl | hx
  · exact hend
  · exact hend.trans (((sorted_cons.mp hsorted).1 x hx).trans x.va_le_endVa)

lemma cmp_of_contiguousUpTo (hsorted : Sorted rs) (h : contiguousUpTo cmpRegs r0 endVa rs = true) :
    ∀ r ∈ rs, r.endVa < endVa → ∃ rn, cmpRegs r0 r rn = true := by
  revert hsorted
  refine contiguousUpTo_induction (fun r rs hend hsorted x hx hlt => ?_)
    (fun r rn rs _ hcmp ih hsorted x hx hlt => ?_) h
  · have hle := hsorted.le_endVa hend x hx
    omega
  · rcases List.mem_cons.mp hx with rfl | hx
    · exact ⟨rn, hcmp⟩
    · exact ih (sorted_cons.mp hsorted).2 x hx hlt

end Contiguous

/-! ## Merging -/

/-- Every region of the second list is made of regions of the first one: it is as large as one
of them, and lies where regions with its attributes lie. -/
structure MergeOf (rs rs' : List Region) : Prop where
  sorted : Sorted rs'
  lowest : ∀ r' ∈ rs', ∃ r ∈ rs, r.va = r'.va ∧ r.size ≤ r'.size ∧ r.attr = r'.attr
    ∧ r.flags = r'.flags
  highest : ∀ r' ∈ rs', ∃ r ∈ rs, r.endVa = r'.endVa ∧ r.attr = r'.attr ∧ r.flags = r'.flags

lemma MergeOf.refl {rs : List Region} (h : Sorted rs) : MergeOf rs rs :=
  ⟨h, fun r hr => ⟨r, hr, rfl, le_refl _, rfl, rfl⟩, fun r hr => ⟨r, hr, rfl, rfl, rfl⟩⟩

lemma MergeOf.cons {r : Region} {rs rs' : List Region} (h : MergeOf rs rs')
    (hsorted : Sorted (r :: rs)) : MergeOf (r :: rs) (r :: rs') := by
  obtain ⟨hr, -⟩ := sorted_cons.mp hsorted
  refine ⟨sorted_cons.mpr ⟨fun x hx => ?_, h.sorted⟩, fun x hx => ?_, fun x hx => ?_⟩
  · obtain ⟨y, hy, hva, -⟩ := h.lowest x hx
    exact hva ▸ hr y hy
  · rcases List.mem_cons.mp hx with rfl | hx
    · exact ⟨x, by simp, rfl, le_refl _, rfl, rfl⟩
    · obtain ⟨y, hy, hspec⟩ := h.lowest x hx
      exact ⟨y, by simp [hy], hspec⟩
  · rcases List.mem_cons.mp hx with rfl | hx
    · exact ⟨x, by simp, rfl, rfl, rfl⟩
    · obtain ⟨y, hy, hspec⟩ := h.highest x hx
      exact ⟨y, by simp [hy], hspec⟩

lemma MergeOf.join {r rn : Region} {rs rs' : List Region}
    (h : MergeOf ({ r with size := r.size + rn.size } :: rs) rs') (hend : r.endVa = rn.va)
    (hattr : r.attr = rn.attr) (hflags : r.flags = rn.flags) :
    MergeOf (r :: rn :: rs) rs' := by
  refine ⟨h.sorted, fun x hx => ?_, fun x hx => ?_⟩
  · obtain ⟨y, hy, hva, hsize, hspec⟩ := h.lowest x hx
    rcases List.mem_cons.mp hy with rfl | hy
    · exact ⟨r, by simp, hva, (Nat.le_add_right _ _).trans hsize, hspec⟩
    · exact ⟨y, by simp [hy], hva, hsize, hspec⟩
  · obtain ⟨y, hy, hyend, hyattr, hyflags⟩ := h.highest x hx
    rcases List.mem_cons.mp hy with rfl | hy
    · refine ⟨rn, by simp, ?_, hattr.symm.trans hyattr, hflags.symm.trans hyflags⟩
      simp only [Region.endVa] at hend hyend ⊢
      omega
    · exact ⟨y, by simp [hy], hyend, hyattr, hyflags⟩

lemma mergeOf_mergeFrom {va : ℕ} {r : Region} {rs : List Region} (h : Sorted (r :: rs)) :
    MergeOf (r :: rs) (mergeFrom va endVa r rs) := by
  induction rs generalizing r with
  | nil => exact .refl h
  | cons rn rs ih =>
    have htail := (ih (sorted_cons.mp h).2).cons h
    rw [mergeFrom]
    split
    · exact htail
    split
    · exact .refl h
    split
    · exact htail
    split
    · exact htail
    split
    · exact htail
    rename_i hend hsame _
    simp only [ne_eq, not_or, not_not] at hend hsame
    refine (ih ?_).join hend hsame.2.2 hsame.2.1
    -- the joined region ends where its second part ended
    obtain ⟨-, hrest⟩ := sorted_cons.mp h
    obtain ⟨hrn, hrs⟩ := sorted_cons.mp hrest
    refine sorted_cons.mpr ⟨fun x hx => ?_, hrs⟩
    have hx := hrn x hx
    simp only [Region.endVa] at hend hx ⊢
    omega

lemma forall_mem_mergeFrom {P : Region → Prop} {va : ℕ}
    (hjoin : ∀ r rn, P r → P rn → r.endVa = rn.va → r.mobj.id = rn.mobj.id →
      r.offset + r.size = rn.offset → P { r with size := r.size + rn.size }) {r : Region}
    {rs : List Region} (h : ∀ x ∈ r :: rs, P x) :
    ∀ x ∈ mergeFrom va endVa r rs, P x := by
  induction rs generalizing r with
  | nil => exact h
  | cons rn rs ih =>
    obtain ⟨hr, hrest⟩ := List.forall_mem_cons.mp h
    obtain ⟨hrn, hrs⟩ := List.forall_mem_cons.mp hrest
    have htail : ∀ x ∈ r :: mergeFrom va endVa rn rs, P x :=
      List.forall_mem_cons.mpr ⟨hr, ih hrest⟩
    rw [mergeFrom]
    split
    · exact htail
    split
    · exact h
    split
    · exact htail
    split
    · exact htail
    split
    · exact htail
    rename_i hend hsame hoffset
    simp only [ne_eq, not_or, not_not] at hend hsame hoffset
    exact ih (List.forall_mem_cons.mpr ⟨hjoin r rn hr hrn hend hsame.1 hoffset, hrs⟩)

lemma mergeOf_mergeVmRange {va : ℕ} {rs : List Region} (h : Sorted rs) :
    MergeOf rs (mergeVmRange va endVa rs) := by
  cases rs with
  | nil => exact .refl h
  | cons r rs => exact mergeOf_mergeFrom h

/-! ## Protections -/

@[simp] lemma Region.protect_va (prot : BitVec 16) (r : Region) : (r.protect prot).va = r.va := rfl

@[simp] lemma Region.protect_size (prot : BitVec 16) (r : Region) :
    (r.protect prot).size = r.size := rfl

@[simp] lemma Region.protect_endVa (prot : BitVec 16) (r : Region) :
    (r.protect prot).endVa = r.endVa := rfl

@[simp] lemma Region.readOnly_protect {r : Region} :
    (r.protect prot).ReadOnly ↔ r.ReadOnly := Iff.rfl

lemma Region.writeable_protect {r : Region} :
    (r.protect prot).Writeable ↔ prot &&& writeMask ≠ 0 := by
  have hmask : ~~~ teeMattrProtMask &&& writeMask = 0 := by decide
  have hattr : ((r.attr &&& ~~~ teeMattrProtMask) ||| prot) &&& writeMask = prot &&& writeMask := by
    rw [BitVec.and_comm, BitVec.and_or_distrib_left, BitVec.and_comm writeMask,
      BitVec.and_assoc, hmask, BitVec.and_comm writeMask prot]
    simp
  rw [Region.Writeable, Region.protect, hattr]

/-- The regions after a change of protections up to an address: those that end there or before
are changed, the others are not. -/
lemma mem_protectUpTo {rs : List Region} (hsorted : Sorted rs) {x : Region}
    (hx : x ∈ protectUpTo endVa prot rs) :
    (∃ r ∈ rs, r.endVa ≤ endVa ∧ x = r.protect prot)
      ∨ x ∈ rs ∧ (endVa < x.endVa ∨ endVa < x.va) := by
  induction rs with
  | nil => simp [protectUpTo] at hx
  | cons r rs ih =>
    obtain ⟨hr, hrs⟩ := sorted_cons.mp hsorted
    rw [protectUpTo] at hx
    split at hx
    · rename_i hend
      refine .inr ⟨hx, ?_⟩
      rcases List.mem_cons.mp hx with rfl | hx
      · exact .inl hend
      · exact .inr (hend.trans_le (hr x hx))
    · rename_i hend
      rcases List.mem_cons.mp hx with rfl | hx
      · exact .inl ⟨r, by simp, by omega, rfl⟩
      · rcases ih hrs hx with ⟨y, hy, hspec⟩ | ⟨hy, hspec⟩
        · exact .inl ⟨y, by simp [hy], hspec⟩
        · exact .inr ⟨by simp [hy], hspec⟩

lemma map_protectUpTo (rs : List Region) :
    (protectUpTo endVa prot rs).map (fun r => (r.va, r.size))
      = rs.map fun r => (r.va, r.size) := by
  induction rs with
  | nil => rfl
  | cons r rs ih =>
    rw [protectUpTo]
    split
    · rfl
    · simp [ih]

lemma sorted_congr {rs rs' : List Region}
    (h : rs'.map (fun r => (r.va, r.size)) = rs.map fun r => (r.va, r.size)) (hs : Sorted rs) :
    Sorted rs' := by
  have hmap : ∀ l : List Region,
      Sorted l ↔ (l.map fun r => (r.va, r.size)).Pairwise fun p q => p.1 + p.2 ≤ q.1 := by
    intro l
    rw [List.pairwise_map]
    rfl
  rw [hmap] at hs ⊢
  rwa [h]

/-! ## Unmapping -/

lemma unmapUpTo_sublist (endVa : ℕ) (rs : List Region) :
    List.Sublist (unmapUpTo endVa rs) rs := by
  induction rs with
  | nil => exact List.Sublist.refl _
  | cons r rs ih =>
    rw [unmapUpTo]
    split
    · exact List.sublist_cons_self r rs
    · exact ih.trans (List.sublist_cons_self r rs)

lemma le_va_of_mem_unmapUpTo {rs : List Region} (hsorted : Sorted rs) :
    ∀ x ∈ unmapUpTo endVa rs, endVa ≤ x.va := by
  induction rs with
  | nil => simp [unmapUpTo]
  | cons r rs ih =>
    obtain ⟨hr, hrs⟩ := sorted_cons.mp hsorted
    rw [unmapUpTo]
    split
    · rename_i hstop
      intro x hx
      rcases hstop with hempty | hend
      · simp [List.isEmpty_iff.mp hempty] at hx
      · exact hend ▸ hr x hx
    · exact ih hrs

end Watz.OpTee
