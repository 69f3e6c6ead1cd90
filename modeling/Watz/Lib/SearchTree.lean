import Mathlib

/-!
# Search trees

Binary trees with their elements ordered by a key: the elements on the left of a node have at most
its key, and those on the right have a larger one.  An element is inserted as a leaf.  A node with
two children is removed by putting the last element of its left side in its place.  The search for
the smallest element with at least a given key goes down one path.
-/

namespace Watz.Lib.SearchTree

open Multiset (add_cons cons_add cons_swap mem_add mem_cons mem_cons_of_mem mem_cons_self nodup_add
  nodup_cons)

variable {α β : Type} [LinearOrder β] {key : α → β} {t l r : BinaryTree α} {x d : α} {k : β}

/-- The elements of a tree. -/
def elems : BinaryTree α → Multiset α
  | .nil => 0
  | .node a l r => a ::ₘ (elems l + elems r)

@[simp] lemma elems_nil : elems (.nil : BinaryTree α) = 0 := rfl

@[simp] lemma elems_node (a : α) (l r : BinaryTree α) :
    elems (.node a l r) = a ::ₘ (elems l + elems r) := rfl

/-- Smaller or equal keys are on the left of a node, and larger ones on the right. -/
def Ordered (key : α → β) : BinaryTree α → Prop
  | .nil => True
  | .node a l r => (∀ b ∈ elems l, key b ≤ key a) ∧ (∀ b ∈ elems r, key a < key b)
      ∧ Ordered key l ∧ Ordered key r

/-! ## Inserting an element -/

/-- The tree with an element as a new leaf; it goes to the left of an equal key. -/
def insert (key : α → β) (x : α) : BinaryTree α → BinaryTree α
  | .nil => .node x .nil .nil
  | .node a l r => if key a < key x then .node a l (insert key x r) else .node a (insert key x l) r

lemma elems_insert : elems (insert key x t) = x ::ₘ elems t := by
  induction t with
  | nil => rfl
  | node a l r ihl ihr =>
    rw [insert]
    split
    · rw [elems_node, ihr, elems_node, add_cons, cons_swap]
    · rw [elems_node, ihl, elems_node, cons_add, cons_swap]

lemma Ordered.insert (h : Ordered key t) : Ordered key (insert key x t) := by
  induction t with
  | nil => exact ⟨by simp, by simp, trivial, trivial⟩
  | node a l r ihl ihr =>
    obtain ⟨hleft, hright, hl, hr⟩ := h
    rw [SearchTree.insert]
    split
    · rename_i hlt
      refine ⟨hleft, fun b hb => ?_, hl, ihr hr⟩
      rw [elems_insert] at hb
      rcases mem_cons.mp hb with rfl | hb
      · exact hlt
      · exact hright b hb
    · rename_i hle
      refine ⟨fun b hb => ?_, hright, ihl hl, hr⟩
      rw [elems_insert] at hb
      rcases mem_cons.mp hb with rfl | hb
      · exact not_lt.mp hle
      · exact hleft b hb

/-! ## The last element -/

/-- The last element of a tree, or the given one if there is none. -/
def last (d : α) : BinaryTree α → α
  | .nil => d
  | .node a _ r => last a r

/-- The tree without its last element. -/
def eraseLast : BinaryTree α → BinaryTree α
  | .nil => .nil
  | .node _ l .nil => l
  | .node a l (.node b rl rr) => .node a l (eraseLast (.node b rl rr))

lemma last_cons_eraseLast (a : α) (l r : BinaryTree α) :
    last a r ::ₘ elems (eraseLast (.node a l r)) = elems (.node a l r) := by
  induction r generalizing a l with
  | nil => rw [last, eraseLast, elems_node, elems_nil, add_zero]
  | node b rl rr _ ih =>
    rw [eraseLast, elems_node, last, cons_swap, ← add_cons, ih b rl]
    rfl

lemma last_mem (a : α) (l r : BinaryTree α) : last a r ∈ elems (.node a l r) := by
  rw [← last_cons_eraseLast]
  exact mem_cons_self _ _

lemma elems_eraseLast_le : elems (eraseLast t) ≤ elems t := by
  cases t with
  | nil => exact le_rfl
  | node a l r =>
    rw [← last_cons_eraseLast]
    exact Multiset.le_cons_self _ _

lemma Ordered.eraseLast (h : Ordered key t) : Ordered key (eraseLast t) := by
  induction t with
  | nil => trivial
  | node a l r _ ihr =>
    obtain ⟨hleft, hright, hl, hr⟩ := h
    cases r with
    | nil => exact hl
    | node b rl rr =>
      exact ⟨hleft, fun c hc => hright c (Multiset.mem_of_le elems_eraseLast_le hc), hl, ihr hr⟩

lemma Ordered.le_last {a b : α} (h : Ordered key (.node a l r)) (hb : b ∈ elems (.node a l r)) :
    key b ≤ key (last a r) := by
  induction r generalizing a b l with
  | nil =>
    rw [elems_node, elems_nil, add_zero] at hb
    rcases mem_cons.mp hb with rfl | hb
    · exact le_rfl
    · exact h.1 b hb
  | node c rl rr _ ih =>
    obtain ⟨hleft, hright, -, hr⟩ := h
    have hac : key a < key c := hright c (mem_cons_self _ _)
    have hlast : key c ≤ key (last c rr) := ih hr (mem_cons_self _ _)
    rcases mem_cons.mp hb with rfl | hb
    · exact hac.le.trans hlast
    rcases mem_add.mp hb with hb | hb
    · exact (hleft b hb).trans (hac.le.trans hlast)
    · exact ih hr hb

/-! ## Removing a node -/

/-- The two sides of a node that has been removed. -/
def join : BinaryTree α → BinaryTree α → BinaryTree α
  | .nil, r => r
  | .node a ll lr, .nil => .node a ll lr
  | .node a ll lr, .node b rl rr => .node (last a lr) (eraseLast (.node a ll lr)) (.node b rl rr)

@[simp] lemma join_nil_left (r : BinaryTree α) : join .nil r = r := rfl

@[simp] lemma join_nil_right (l : BinaryTree α) : join l .nil = l := by cases l <;> rfl

lemma elems_join (l r : BinaryTree α) : elems (join l r) = elems l + elems r := by
  cases l with
  | nil => rw [join_nil_left, elems_nil, zero_add]
  | node a ll lr =>
    cases r with
    | nil => rw [join_nil_right, elems_nil, add_zero]
    | node b rl rr => rw [join, elems_node, ← cons_add, last_cons_eraseLast]

lemma Ordered.join {a : α} (h : Ordered key (.node a l r)) : Ordered key (join l r) := by
  obtain ⟨hleft, hright, hl, hr⟩ := h
  cases l with
  | nil => exact hr
  | node b ll lr =>
    cases r with
    | nil => exact hl
    | node c rl rr =>
      refine ⟨fun x hx => ?_, fun x hx => ?_, hl.eraseLast, hr⟩
      · exact hl.le_last (Multiset.mem_of_le elems_eraseLast_le hx)
      · exact (hleft _ (last_mem b ll lr)).trans_lt (hright x hx)

section

variable [DecidableEq α]

/-- The tree with something else in the place of an element; it may depend on the two sides. -/
def modifyAt (x : α) (f : BinaryTree α → BinaryTree α → BinaryTree α) :
    BinaryTree α → BinaryTree α
  | .nil => .nil
  | .node a l r => if a = x then f l r else .node a (modifyAt x f l) (modifyAt x f r)

variable {f : BinaryTree α → BinaryTree α → BinaryTree α}

lemma modifyAt_self (x : α) (l r : BinaryTree α) : modifyAt x f (.node x l r) = f l r := if_pos rfl

lemma modifyAt_of_notMem (hx : x ∉ elems t) : modifyAt x f t = t := by
  induction t with
  | nil => rfl
  | node a l r ihl ihr =>
    rw [elems_node, mem_cons, mem_add, not_or, not_or] at hx
    rw [modifyAt, if_neg (Ne.symm hx.1), ihl hx.2.1, ihr hx.2.2]

lemma modifyAt_left {a : α} (hnodup : (elems (.node a l r)).Nodup) (hx : x ∈ elems l) :
    modifyAt x f (.node a l r) = .node a (modifyAt x f l) r := by
  obtain ⟨ha, hlr⟩ := nodup_cons.mp hnodup
  have hxa : a ≠ x := fun heq => ha (mem_add.mpr (.inl (heq ▸ hx)))
  have hxr : x ∉ elems r := Multiset.disjoint_left.mp (nodup_add.mp hlr).2.2 hx
  rw [modifyAt, if_neg hxa, modifyAt_of_notMem hxr]

lemma modifyAt_right {a : α} (hnodup : (elems (.node a l r)).Nodup) (hx : x ∈ elems r) :
    modifyAt x f (.node a l r) = .node a l (modifyAt x f r) := by
  obtain ⟨ha, hlr⟩ := nodup_cons.mp hnodup
  have hxa : a ≠ x := fun heq => ha (mem_add.mpr (.inr (heq ▸ hx)))
  have hxl : x ∉ elems l := Multiset.disjoint_right.mp (nodup_add.mp hlr).2.2 hx
  rw [modifyAt, if_neg hxa, modifyAt_of_notMem hxl]

/-- The tree without an element. -/
def remove (x : α) (t : BinaryTree α) : BinaryTree α := modifyAt x join t

/-- The last element has nothing on its right, so that its left side moves up. -/
lemma remove_last {a : α} (hnodup : (elems (.node a l r)).Nodup) :
    remove (last a r) (.node a l r) = eraseLast (.node a l r) := by
  induction r generalizing a l with
  | nil => rw [remove, last, modifyAt_self, join_nil_right, eraseLast]
  | node b rl rr _ ih =>
    have hright : (elems (.node b rl rr)).Nodup :=
      (nodup_add.mp (nodup_cons.mp hnodup).2).2.1
    rw [remove, last, modifyAt_right hnodup (last_mem b rl rr), eraseLast]
    exact congrArg (BinaryTree.node a l) (ih hright)

lemma elems_remove (hnodup : (elems t).Nodup) (hx : x ∈ elems t) :
    x ::ₘ elems (remove x t) = elems t := by
  induction t with
  | nil => exact absurd hx (Multiset.notMem_zero x)
  | node a l r ihl ihr =>
    obtain ⟨hl, hr, -⟩ := nodup_add.mp (nodup_cons.mp hnodup).2
    rcases mem_cons.mp hx with rfl | hx
    · rw [remove, modifyAt_self, elems_join, elems_node]
    rcases mem_add.mp hx with hx | hx
    · have hrest : x ::ₘ elems (modifyAt x join l) = elems l := ihl hl hx
      rw [remove, modifyAt_left hnodup hx, elems_node, cons_swap, ← cons_add,
        hrest, elems_node]
    · have hrest : x ::ₘ elems (modifyAt x join r) = elems r := ihr hr hx
      rw [remove, modifyAt_right hnodup hx, elems_node, cons_swap, ← add_cons,
        hrest, elems_node]

lemma Ordered.remove (h : Ordered key t) (hnodup : (elems t).Nodup) (hx : x ∈ elems t) :
    Ordered key (remove x t) := by
  induction t with
  | nil => exact absurd hx (Multiset.notMem_zero x)
  | node a l r ihl ihr =>
    obtain ⟨hl, hr, -⟩ := nodup_add.mp (nodup_cons.mp hnodup).2
    obtain ⟨hleft, hright, hol, hor⟩ := id h
    rcases mem_cons.mp hx with rfl | hx
    · rw [SearchTree.remove, modifyAt_self]
      exact h.join
    rcases mem_add.mp hx with hx | hx
    · rw [SearchTree.remove, modifyAt_left hnodup hx]
      refine ⟨fun b hb => hleft b ?_, hright, ihl hol hl hx, hor⟩
      rw [← elems_remove hl hx]
      exact mem_cons_of_mem hb
    · rw [SearchTree.remove, modifyAt_right hnodup hx]
      refine ⟨hleft, fun b hb => hright b ?_, hol, ihr hor hr hx⟩
      rw [← elems_remove hr hx]
      exact mem_cons_of_mem hb

end

/-! ## The smallest element that is large enough -/

/-- The last node with at least the given key on the way down, or the given element. -/
def firstAtLeast (key : α → β) (k : β) (d : α) : BinaryTree α → α
  | .nil => d
  | .node a l r => if key a < k then firstAtLeast key k d r else firstAtLeast key k a l

lemma Ordered.firstAtLeast_spec (h : Ordered key t) :
    firstAtLeast key k d t = d ∧ (∀ b ∈ elems t, key b < k) ∨
      firstAtLeast key k d t ∈ elems t ∧ k ≤ key (firstAtLeast key k d t)
        ∧ ∀ b ∈ elems t, k ≤ key b → key (firstAtLeast key k d t) ≤ key b := by
  induction t generalizing d with
  | nil => exact .inl ⟨rfl, by simp⟩
  | node a l r ihl ihr =>
    obtain ⟨hleft, hright, hl, hr⟩ := h
    rw [firstAtLeast]
    split
    · -- the node and its left side are too small
      rename_i hlt
      have hsmall : ∀ b ∈ elems l, key b < k := fun b hb => (hleft b hb).trans_lt hlt
      rcases ihr (d := d) hr with ⟨heq, hnone⟩ | ⟨hmem, hk, hmin⟩
      · refine .inl ⟨heq, fun b hb => ?_⟩
        rcases mem_cons.mp hb with rfl | hb
        · exact hlt
        · exact (mem_add.mp hb).elim (hsmall b) (hnone b)
      · refine .inr ⟨?_, hk, fun b hb hkb => ?_⟩
        · exact mem_cons_of_mem (mem_add.mpr (.inr hmem))
        · rcases mem_cons.mp hb with rfl | hb
          · exact absurd hlt (not_lt.mpr hkb)
          · exact (mem_add.mp hb).elim (fun hb => absurd (hsmall b hb) (not_lt.mpr hkb))
              fun hb => hmin b hb hkb
    · -- the node is large enough, and its right side is larger
      rename_i hge
      have hka : k ≤ key a := not_lt.mp hge
      rcases ihl (d := a) hl with ⟨heq, hnone⟩ | ⟨hmem, hk, hmin⟩
      · rw [heq]
        refine .inr ⟨mem_cons_self _ _, hka, fun b hb hkb => ?_⟩
        rcases mem_cons.mp hb with rfl | hb
        · exact le_rfl
        · exact (mem_add.mp hb).elim (fun hb => absurd (hnone b hb) (not_lt.mpr hkb))
            fun hb => (hright b hb).le
      · refine .inr ⟨?_, hk, fun b hb hkb => ?_⟩
        · exact mem_cons_of_mem (mem_add.mpr (.inl hmem))
        · have hle : key (firstAtLeast key k a l) ≤ key a := hleft _ hmem
          rcases mem_cons.mp hb with rfl | hb
          · exact hle
          · exact (mem_add.mp hb).elim (fun hb => hmin b hb hkb)
              fun hb => hle.trans (hright b hb).le

/-! ## Trees of other elements -/

section Map

variable {γ : Type} {key' : γ → β} (f : α → γ)

lemma elems_map (t : BinaryTree α) : elems (t.map f) = (elems t).map f := by
  induction t with
  | nil => rfl
  | node a l r ihl ihr =>
    rw [BinaryTree.map, elems_node, elems_node, ihl, ihr, Multiset.map_cons, Multiset.map_add]

variable {f}

lemma map_insert (hkey : ∀ a ∈ elems t, key' (f a) = key a) (hx : key' (f x) = key x) :
    (insert key x t).map f = insert key' (f x) (t.map f) := by
  induction t with
  | nil => rfl
  | node a l r ihl ihr =>
    have ha : key' (f a) = key a := hkey a (mem_cons_self _ _)
    have hl := ihl fun b hb => hkey b (by simp [hb])
    have hr := ihr fun b hb => hkey b (by simp [hb])
    rw [SearchTree.insert, BinaryTree.map, SearchTree.insert, ha, hx]
    split
    · rw [BinaryTree.map, hr]
    · rw [BinaryTree.map, hl]

lemma last_map (d : α) (t : BinaryTree α) : last (f d) (t.map f) = f (last d t) := by
  induction t generalizing d with
  | nil => rfl
  | node a l r _ ihr => exact ihr a

lemma eraseLast_map (t : BinaryTree α) : eraseLast (t.map f) = (eraseLast t).map f := by
  induction t with
  | nil => rfl
  | node a l r _ ihr =>
    cases r with
    | nil => rfl
    | node b rl rr => exact congrArg (BinaryTree.node (f a) (l.map f)) ihr

lemma join_map (l r : BinaryTree α) : join (l.map f) (r.map f) = (join l r).map f := by
  cases l with
  | nil => rfl
  | node a ll lr =>
    cases r with
    | nil => rfl
    | node b rl rr =>
      have hlast := eraseLast_map (f := f) (.node a ll lr)
      rw [BinaryTree.map] at hlast
      rw [join, BinaryTree.map, BinaryTree.map, BinaryTree.map, join, last_map, hlast, BinaryTree.map]

lemma map_remove [DecidableEq α] [DecidableEq γ] (hx : ∀ a ∈ elems t, f a = f x → a = x) :
    (remove x t).map f = remove (f x) (t.map f) := by
  induction t with
  | nil => rfl
  | node a l r ihl ihr =>
    have hl := ihl fun b hb => hx b (by simp [hb])
    have hr := ihr fun b hb => hx b (by simp [hb])
    rw [remove, modifyAt, BinaryTree.map, remove, modifyAt]
    by_cases hax : a = x
    · rw [if_pos hax, if_pos (congrArg f hax), join_map]
    · rw [if_neg hax, if_neg fun heq => hax (hx a (mem_cons_self _ _) heq), BinaryTree.map]
      exact congrArg₂ (BinaryTree.node (f a)) hl hr

lemma map_firstAtLeast (hkey : ∀ a ∈ elems t, key' (f a) = key a) :
    firstAtLeast key' k (f d) (t.map f) = f (firstAtLeast key k d t) := by
  induction t generalizing d with
  | nil => rfl
  | node a l r ihl ihr =>
    have ha : key' (f a) = key a := hkey a (mem_cons_self _ _)
    rw [BinaryTree.map, firstAtLeast, firstAtLeast, ha]
    split
    · exact ihr fun b hb => hkey b (by simp [hb])
    · exact ihl fun b hb => hkey b (by simp [hb])

end Map

end Watz.Lib.SearchTree
