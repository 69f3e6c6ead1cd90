import Watz.Ems.Heap
import Watz.Lib.SearchTree

/-!
# Lists and tree of free chunks

What the allocator knows about free chunks, without the memory it is in: a list of addresses for
every small size, and a search tree of the large chunks.  A free chunk is given by its address and
its size.  Adding and unlinking a chunk keep lists and tree in accordance with the multiset of free
chunks, and the search finds one of the smallest size that is sufficient.
-/

namespace Watz.Ems

open Lib SearchTree

/-! ## Small and large chunks -/

/-- The free chunks of the list with the given index. -/
def bin (i : ℕ) (S : Multiset (ℕ × ℕ)) : Multiset ℕ :=
  (S.filter fun c => c.2 = 8 * i ∧ c.2 < hmuFcNormalMaxSize).map Prod.fst

/-- The free chunks of the tree. -/
def large (S : Multiset (ℕ × ℕ)) : Multiset (ℕ × ℕ) := S.filter fun c => hmuFcNormalMaxSize ≤ c.2

section

variable {S : Multiset (ℕ × ℕ)} {c : ℕ × ℕ} {a i sz : ℕ}

lemma mem_bin : a ∈ bin i S ↔ (a, 8 * i) ∈ S ∧ 8 * i < hmuFcNormalMaxSize := by
  simp only [bin, Multiset.mem_map, Multiset.mem_filter, Prod.exists, exists_and_right,
    exists_eq_right]
  constructor
  · rintro ⟨x, hx, rfl, hlt⟩
    exact ⟨hx, hlt⟩
  · rintro ⟨hx, hlt⟩
    exact ⟨8 * i, hx, rfl, hlt⟩

lemma mem_large : c ∈ large S ↔ c ∈ S ∧ hmuFcNormalMaxSize ≤ c.2 := Multiset.mem_filter

lemma large_cons_of_large (h : hmuFcNormalMaxSize ≤ c.2) : large (c ::ₘ S) = c ::ₘ large S :=
  Multiset.filter_cons_of_pos _ h

lemma large_cons_of_small (h : c.2 < hmuFcNormalMaxSize) : large (c ::ₘ S) = large S :=
  Multiset.filter_cons_of_neg _ (not_le.mpr h)

lemma bin_cons_of_pos (h : c.2 = 8 * i ∧ c.2 < hmuFcNormalMaxSize) :
    bin i (c ::ₘ S) = c.1 ::ₘ bin i S := by
  rw [bin, Multiset.filter_cons_of_pos, Multiset.map_cons, bin]
  exact h

lemma bin_cons_of_neg (h : ¬ (c.2 = 8 * i ∧ c.2 < hmuFcNormalMaxSize)) :
    bin i (c ::ₘ S) = bin i S := by
  rw [bin, Multiset.filter_cons_of_neg, bin]
  exact h

end

/-! ## Adding and unlinking -/

/-- The lists of the small free chunks, and the tree of the large ones. -/
structure FreeLists where
  lists : ℕ → List ℕ
  tree : BinaryTree (ℕ × ℕ)

namespace FreeLists

/-- A chunk becomes the head of its list, or a leaf of the tree. -/
def add (F : FreeLists) (c : ℕ × ℕ) : FreeLists :=
  if c.2 < hmuFcNormalMaxSize then
    { F with lists := Function.update F.lists (c.2 / 8) (c.1 :: F.lists (c.2 / 8)) }
  else { F with tree := insert Prod.snd c F.tree }

/-- A chunk is taken from its list or from the tree. -/
def unlink (F : FreeLists) (c : ℕ × ℕ) : FreeLists :=
  if c.2 < hmuFcNormalMaxSize then
    { F with lists := Function.update F.lists (c.2 / 8) ((F.lists (c.2 / 8)).erase c.1) }
  else { F with tree := remove c F.tree }

/-- Lists and tree hold certain chunks. -/
structure Holds (F : FreeLists) (S : Multiset (ℕ × ℕ)) : Prop where
  lists : ∀ i, (F.lists i : Multiset ℕ) = bin i S
  tree : elems F.tree = large S
  ordered : Ordered Prod.snd F.tree

variable {F : FreeLists} {S : Multiset (ℕ × ℕ)} {c : ℕ × ℕ} {i : ℕ}

lemma add_small (h : 8 * i < hmuFcNormalMaxSize) (a : ℕ) :
    F.add (a, 8 * i) = { F with lists := Function.update F.lists i (a :: F.lists i) } := by
  rw [add, if_pos h]
  simp only [Nat.mul_div_cancel_left i (by norm_num : 0 < 8)]

lemma add_large (h : hmuFcNormalMaxSize ≤ c.2) :
    F.add c = { F with tree := insert Prod.snd c F.tree } := if_neg (not_lt.mpr h)

lemma unlink_small (h : 8 * i < hmuFcNormalMaxSize) (a : ℕ) :
    F.unlink (a, 8 * i) = { F with lists := Function.update F.lists i ((F.lists i).erase a) } := by
  rw [unlink, if_pos h]
  simp only [Nat.mul_div_cancel_left i (by norm_num : 0 < 8)]

lemma unlink_large (h : hmuFcNormalMaxSize ≤ c.2) : F.unlink c = { F with tree := remove c F.tree } :=
  if_neg (not_lt.mpr h)

namespace Holds

lemma add (hF : F.Holds S) (hc : c.2 % 8 = 0) : (F.add c).Holds (c ::ₘ S) := by
  by_cases hlt : c.2 < hmuFcNormalMaxSize
  · obtain ⟨a, sz⟩ := c
    obtain ⟨i, rfl⟩ : 8 ∣ sz := Nat.dvd_of_mod_eq_zero hc
    rw [add_small hlt]
    refine ⟨fun k => ?_, by rw [large_cons_of_small hlt, hF.tree], hF.ordered⟩
    dsimp only
    rcases eq_or_ne k i with rfl | hk
    · rw [Function.update_self, bin_cons_of_pos ⟨rfl, hlt⟩, ← hF.lists, Multiset.cons_coe]
    · rw [Function.update_of_ne hk, bin_cons_of_neg fun hsz => hk (by omega), hF.lists]
  · rw [add_large (not_lt.mp hlt)]
    refine ⟨fun k => ?_, ?_, hF.ordered.insert⟩
    · rw [bin_cons_of_neg fun hsz => hlt hsz.2]
      exact hF.lists k
    · rw [elems_insert, hF.tree, large_cons_of_large (not_lt.mp hlt)]

lemma unlink (hF : F.Holds (c ::ₘ S)) (hc : c.2 % 8 = 0) (hnodup : (c ::ₘ S).Nodup) :
    (F.unlink c).Holds S := by
  by_cases hlt : c.2 < hmuFcNormalMaxSize
  · obtain ⟨a, sz⟩ := c
    obtain ⟨i, rfl⟩ : 8 ∣ sz := Nat.dvd_of_mod_eq_zero hc
    rw [unlink_small hlt]
    refine ⟨fun k => ?_, by rw [← large_cons_of_small hlt, ← hF.tree], hF.ordered⟩
    dsimp only
    rcases eq_or_ne k i with rfl | hk
    · rw [Function.update_self, ← Multiset.coe_erase, hF.lists, bin_cons_of_pos ⟨rfl, hlt⟩,
        Multiset.erase_cons_head]
    · rw [Function.update_of_ne hk, hF.lists, bin_cons_of_neg fun hsz => hk (by omega)]
  · have hlarge := large_cons_of_large (S := S) (not_lt.mp hlt)
    have hmem : c ∈ elems F.tree := by
      rw [hF.tree, hlarge]
      exact Multiset.mem_cons_self _ _
    have hnodup' : (elems F.tree).Nodup := by
      rw [hF.tree]
      exact hnodup.filter _
    rw [unlink_large (not_lt.mp hlt)]
    refine ⟨fun k => ?_, ?_, hF.ordered.remove hnodup' hmem⟩
    · rw [← bin_cons_of_neg fun hsz => hlt hsz.2]
      exact hF.lists k
    · have := elems_remove hnodup' hmem
      rw [hF.tree, hlarge] at this
      exact (Multiset.cons_inj_right c).mp this

end Holds

/-! ## The search -/

/-- The head of the first list from an index on that is not empty. -/
def firstList (F : FreeLists) : ℕ → ℕ → Option (ℕ × ℕ)
  | 0, _ => none
  | k + 1, i =>
    match F.lists i with
    | a :: _ => some (a, 8 * i)
    | [] => F.firstList k (i + 1)

/-- The last chunk on the way down the tree that is large enough. -/
def searchTree (F : FreeLists) (size : ℕ) : Option (ℕ × ℕ) :=
  let c := firstAtLeast Prod.snd size (0, 0) F.tree
  if c.1 = 0 then none else some c

/-- The free chunk for a request. -/
def find (F : FreeLists) (size : ℕ) : Option (ℕ × ℕ) :=
  if size < hmuFcNormalMaxSize then
    match F.firstList (32 - size / 8) (size / 8) with
    | some c => some c
    | none => F.searchTree size
  else F.searchTree size

/-- Nothing is large enough, or a chunk of the smallest size that is sufficient is found. -/
def BestFit (S : Multiset (ℕ × ℕ)) (size : ℕ) (found : Option (ℕ × ℕ)) : Prop :=
  found = none ∧ (∀ c ∈ S, c.2 < size)
    ∨ ∃ c ∈ S, found = some c ∧ size ≤ c.2 ∧ ∀ d ∈ S, size ≤ d.2 → c.2 ≤ d.2

lemma firstList_spec (F : FreeLists) (k i : ℕ) :
    F.firstList k i = none ∧ (∀ j, i ≤ j → j < i + k → F.lists j = [])
      ∨ ∃ j a l, F.firstList k i = some (a, 8 * j) ∧ F.lists j = a :: l ∧ i ≤ j ∧ j < i + k
        ∧ ∀ j', i ≤ j' → j' < j → F.lists j' = [] := by
  induction k generalizing i with
  | zero => exact .inl ⟨rfl, fun j h1 h2 => by omega⟩
  | succ k ih =>
    rw [firstList]
    cases hl : F.lists i with
    | cons a l => exact .inr ⟨i, a, l, rfl, hl, le_rfl, by omega, fun j' h1 h2 => by omega⟩
    | nil =>
      -- the list is empty, and the search goes on with the next one
      have hext : ∀ m, (∀ j, i + 1 ≤ j → j < m → F.lists j = []) →
          ∀ j, i ≤ j → j < m → F.lists j = [] := by
        intro m hm j h1 h2
        rcases h1.eq_or_lt with rfl | h1
        · exact hl
        · exact hm j h1 h2
      rcases ih (i + 1) with ⟨hnone, hempty⟩ | ⟨j, a, l, hsome, hj, h1, h2, hempty⟩
      · exact .inl ⟨hnone, hext _ fun j h1 h2 => hempty j h1 (by omega)⟩
      · exact .inr ⟨j, a, l, hsome, hj, by omega, by omega, hext _ hempty⟩

lemma searchTree_spec (hF : F.Holds S) (haddr : ∀ c ∈ S, c.1 ≠ 0) (size : ℕ) :
    BestFit (large S) size (F.searchTree size) := by
  rw [BestFit, searchTree, ← hF.tree]
  rcases hF.ordered.firstAtLeast_spec (d := (0, 0)) (k := size) with
    ⟨heq, hnone⟩ | ⟨hmem, hle, hmin⟩
  · exact .inl ⟨by rw [heq]; rfl, hnone⟩
  · refine .inr ⟨_, hmem, ?_, hle, hmin⟩
    exact if_neg (haddr _ (mem_large.mp (hF.tree ▸ hmem)).1)

/-- The search is complete, and it finds a chunk of the smallest sufficient size. -/
lemma find_bestFit (hF : F.Holds S) (haddr : ∀ c ∈ S, c.1 ≠ 0) (hmod : ∀ c ∈ S, c.2 % 8 = 0)
    {size : ℕ} (hsize : size % 8 = 0) : BestFit S size (F.find size) := by
  have htree := searchTree_spec hF haddr size
  -- if no small chunk is large enough, the tree is searched
  have hlarge : (∀ c ∈ S, c.2 < hmuFcNormalMaxSize → c.2 < size) →
      BestFit S size (F.searchTree size) := by
    intro hsmall
    have hsplit : ∀ d ∈ S, size ≤ d.2 → d ∈ large S := fun d hd hle =>
      mem_large.mpr ⟨hd, not_lt.mp fun hlt => absurd (hsmall d hd hlt) (not_lt.mpr hle)⟩
    rcases htree with ⟨hnone, hall⟩ | ⟨c, hc, hsome, hle, hmin⟩
    · refine .inl ⟨hnone, fun d hd => not_le.mp fun hle => ?_⟩
      exact absurd (hall d (hsplit d hd hle)) (not_lt.mpr hle)
    · exact .inr ⟨c, (mem_large.mp hc).1, hsome, hle, fun d hd hdle => hmin d (hsplit d hd hdle) hdle⟩
  rw [find]
  split
  swap
  · exact hlarge fun c _ hlt => by omega
  rename_i hlt
  have hempty : ∀ j, F.lists j = [] → ∀ d ∈ S, d.2 = 8 * j → ¬ d.2 < hmuFcNormalMaxSize := by
    rintro j hj ⟨x, sx⟩ hd rfl hlt
    have hx : x ∈ bin j S := mem_bin.mpr ⟨hd, hlt⟩
    rw [← hF.lists, hj] at hx
    exact List.not_mem_nil (Multiset.mem_coe.mp hx)
  rcases F.firstList_spec (32 - size / 8) (size / 8) with
    ⟨hnone, hall⟩ | ⟨j, a, l, hsome, hj, h1, h2, hall⟩
  · rw [hnone]
    refine hlarge fun c hc hsmall => ?_
    have h1 := hmod c hc
    by_contra hge
    refine hempty (c.2 / 8) (hall _ (by omega) ?_) c hc (by omega) hsmall
    rw [hmuFcNormalMaxSize] at hsmall hlt
    omega
  · rw [hsome]
    have ha : a ∈ bin j S := by
      rw [← hF.lists, hj]
      exact Multiset.mem_coe.mpr List.mem_cons_self
    obtain ⟨hmem, hsmall⟩ := mem_bin.mp ha
    refine .inr ⟨(a, 8 * j), hmem, rfl, by dsimp only; omega, fun d hd hle => ?_⟩
    have h3 := hmod d hd
    by_contra hlt'
    refine hempty (d.2 / 8) (hall _ (by omega) ?_) d hd (by omega) ?_ <;> dsimp only at hlt' <;> omega

end FreeLists

end Watz.Ems
