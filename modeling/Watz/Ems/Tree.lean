import Watz.Lib.SearchTree
import Watz.Ems.Heap

/-!
# The tree of large free chunks

The nodes of the tree are in the free chunks, linked by pointers to their children and to their
parent, and the tree hangs on the right of a root node outside of the heap.  Here a tree in the
memory is compared with a tree as a data type, and the functions on the tree with the functions on
search trees: removing, inserting and finding a node.  They change the links of nodes only, and
the pointer to the tree.
-/

namespace Watz.Ems

open Lib SearchTree
open Mem (SameOutside load_lt load_store_of_disjoint load_store_self range sameOutside_store store
  store_of_lt)
open Multiset (card_add card_cons card_le_card cons_add cons_le_cons cons_swap le_add_left
  le_add_right le_cons_self mem_add mem_cons mem_cons_of_mem mem_cons_self mem_of_le notMem_zero
  singleton_add singleton_le)

/-! ## Trees in memory -/

/-- The pointer to a tree. -/
def treePtr : BinaryTree ℕ → ℕ
  | .nil => 0
  | .node a _ _ => a

/-- A tree with the given parent is in the memory, and the given pointer leads to it. -/
def TreeRep (m : Mem) : ℕ → ℕ → BinaryTree ℕ → Prop
  | p, _, .nil => p = 0
  | p, par, .node a l r =>
    p = a ∧ a ≠ 0 ∧ m.load (a + 24) 8 = par ∧ TreeRep m (m.load (a + 8) 8) a l
      ∧ TreeRep m (m.load (a + 16) 8) a r

/-- The links of nodes at some addresses. -/
def links (A : Multiset ℕ) : Set ℕ := {i | ∃ a ∈ A, a + 8 ≤ i ∧ i < a + 32}

/-- Nodes at different addresses do not overlap. -/
structure Spread (A : Multiset ℕ) : Prop where
  nodup : A.Nodup
  apart : ∀ a ∈ A, ∀ b ∈ A, a ≠ b → a + 32 ≤ b ∨ b + 32 ≤ a

section

variable {m m' : Mem} {t : BinaryTree ℕ} {A B : Multiset ℕ} {p par slot a b : ℕ}

lemma Spread.of_le (h : Spread A) (hle : B ≤ A) : Spread B :=
  ⟨Multiset.nodup_of_le hle h.nodup, fun a ha b hb =>
    h.apart a (mem_of_le hle ha) b (mem_of_le hle hb)⟩

lemma Spread.apart_cons (h : Spread (a ::ₘ A)) (hb : b ∈ A) : a + 32 ≤ b ∨ b + 32 ≤ a := by
  refine h.apart a (mem_cons_self a A) b (mem_cons_of_mem hb) ?_
  rintro rfl
  exact (Multiset.nodup_cons.mp h.nodup).1 hb

lemma Spread.cons_of_mem (h : Spread (B + A)) (ha : a ∈ B) : Spread (a ::ₘ A) := by
  refine h.of_le ?_
  rw [← singleton_add]
  exact add_le_add_left (singleton_le.mpr ha) A

lemma links_mono (h : B ≤ A) : links B ⊆ links A := by
  rintro i ⟨a, ha, hi⟩
  exact ⟨a, mem_of_le h ha, hi⟩

lemma treeRep_ptr (h : TreeRep m p par t) : p = treePtr t := by
  cases t with
  | nil => exact h
  | node a l r => exact h.1

lemma ptr_mem_addrs (h : treePtr t ≠ 0) : treePtr t ∈ elems t := by
  cases t with
  | nil => exact absurd rfl h
  | node a l r => exact mem_cons_self _ _

section

variable (h : TreeRep m p par t)

include h

lemma TreeRep.ne_zero (ha : a ∈ elems t) : a ≠ 0 := by
  induction t generalizing p par with
  | nil => exact absurd ha (notMem_zero a)
  | node b l r ihl ihr =>
    obtain ⟨-, hb, -, hl, hr⟩ := h
    rcases mem_cons.mp ha with rfl | ha
    · exact hb
    · exact (mem_add.mp ha).elim (ihl hl) (ihr hr)

lemma TreeRep.lt (hp : p < 256 ^ 8) (ha : a ∈ elems t) : a < 256 ^ 8 := by
  induction t generalizing p par with
  | nil => exact absurd ha (notMem_zero a)
  | node b l r ihl ihr =>
    obtain ⟨hb, -, -, hl, hr⟩ := h
    rcases mem_cons.mp ha with rfl | ha
    · exact hb ▸ hp
    · exact (mem_add.mp ha).elim (ihl hl load_lt) (ihr hr load_lt)

lemma TreeRep.eq_nil (hp : p = 0) : t = .nil := by
  cases t with
  | nil => rfl
  | node a l r => exact absurd (h.1.symm.trans hp) h.2.1

lemma TreeRep.congr (hm : ∀ a ∈ elems t, ∀ i, a + 8 ≤ i → i < a + 32 → m' i = m i) :
    TreeRep m' p par t := by
  induction t generalizing p par with
  | nil => exact h
  | node a l r ihl ihr =>
    obtain ⟨hp, ha, hpar, hl, hr⟩ := h
    have hself : ∀ i, a + 8 ≤ i → i < a + 32 → m' i = m i := hm a (mem_cons_self _ _)
    have hload : ∀ off, 8 ≤ off → off + 8 ≤ 32 → m'.load (a + off) 8 = m.load (a + off) 8 :=
      fun off h1 h2 => Mem.load_congr fun i hi hlt => hself i (by omega) (by omega)
    refine ⟨hp, ha, (hload 24 (by omega) (by omega)).trans hpar, ?_, ?_⟩
    · rw [hload 8 (by omega) (by omega)]
      exact ihl hl fun b hb => hm b (mem_cons_of_mem (mem_add.mpr (.inl hb)))
    · rw [hload 16 (by omega) (by omega)]
      exact ihr hr fun b hb => hm b (mem_cons_of_mem (mem_add.mpr (.inr hb)))

end

lemma Spread.outside {i : ℕ} (h : Spread (a ::ₘ A)) (hi : i ∈ links A) : i < a ∨ a + 32 ≤ i := by
  obtain ⟨b, hb, hi⟩ := hi
  have := h.apart_cons hb
  omega

lemma TreeRep.of_links (h : TreeRep m p par t) (hm : SameOutside (links A) m m')
    (hspread : Spread (elems t + A)) : TreeRep m' p par t := by
  refine h.congr fun a ha i hlo hhi => hm i fun hi => ?_
  have := (hspread.cons_of_mem ha).outside hi
  omega

lemma load_of_links {off k : ℕ} (hm : SameOutside (links A) m m') (hspread : Spread (a ::ₘ A))
    (hoff : off + k ≤ 32) : m'.load (a + off) k = m.load (a + off) k := by
  refine hm.load fun i hi => ?_
  have := hspread.outside hi
  omega

lemma TreeRep.of_sameOutside (h : TreeRep m p par t)
    (hm : SameOutside (range slot 8 ∪ links A) m m') (hspread : Spread (elems t + A))
    (hslot : ∀ a ∈ elems t, slot + 8 ≤ a + 8 ∨ a + 32 ≤ slot) : TreeRep m' p par t := by
  refine h.congr fun a ha i hlo hhi => hm i ?_
  rintro (hi | hi)
  · obtain ⟨h1, h2⟩ : slot ≤ i ∧ i < slot + 8 := hi
    have := hslot a ha
    omega
  · have := (hspread.cons_of_mem ha).outside hi
    omega

lemma load_of_sameOutside {off : ℕ} (hm : SameOutside (range slot 8 ∪ links A) m m')
    (hspread : Spread (a ::ₘ A)) (hoff : off + 8 ≤ 32)
    (hslot : slot + 8 ≤ a + off ∨ a + off + 8 ≤ slot) :
    m'.load (a + off) 8 = m.load (a + off) 8 := by
  refine hm.load ?_
  rintro i (hi | hi)
  · obtain ⟨h1, h2⟩ : slot ≤ i ∧ i < slot + 8 := hi
    omega
  · have := hspread.outside hi
    omega

/-- What stays as it is when one side of a node is changed: the parent, the other words of the
node, and the other side. -/
structure SideFrame (m m' : Mem) (par a off : ℕ) (B : Multiset ℕ) : Prop where
  par : ∀ o, o + 8 ≤ 32 → m'.load (par + o) 8 = m.load (par + o) 8
  node : ∀ o, o + 8 ≤ off ∨ off + 8 ≤ o → o + 8 ≤ 32 → m'.load (a + o) 8 = m.load (a + o) 8
  other : ∀ x t, elems t = B → TreeRep m x a t → TreeRep m' x a t

lemma sideFrame {off : ℕ} (hspread : Spread (par ::ₘ a ::ₘ (A + B))) (hoff : off + 8 ≤ 32)
    (hm : SameOutside (range (a + off) 8 ∪ links A) m m') : SideFrame m m' par a off B := by
  have hle : a ::ₘ (A + B) ≤ par ::ₘ a ::ₘ (A + B) := le_cons_self _ _
  have hA : A ≤ A + B := le_add_right _ _
  have hnode : Spread (a ::ₘ A) := hspread.of_le ((cons_le_cons a hA).trans hle)
  have hpar : Spread (par ::ₘ A) :=
    hspread.of_le (cons_le_cons par (hA.trans (le_cons_self _ _)))
  have hapart := hspread.apart_cons (mem_cons_self a (A + B))
  refine ⟨fun o ho => load_of_sameOutside hm hpar ho (by omega),
    fun o hor ho => load_of_sameOutside hm hnode ho (by omega), fun x t ht hrep => ?_⟩
  subst ht
  refine hrep.of_sameOutside hm ?_ fun b hb => ?_
  · rw [add_comm]
    exact hspread.of_le ((le_cons_self _ _).trans hle)
  · have := (hspread.of_le hle).apart_cons (mem_add.mpr (.inr hb))
    omega

lemma TreeRep.replaceLeft {l l' r : BinaryTree ℕ} (hrep : TreeRep m (m.load slot 8) par (.node a l r))
    (hslot : slot = par + 16 ∨ slot = par + 8) (hspread : Spread (par ::ₘ a ::ₘ (A + elems r)))
    (hm : SameOutside (range (a + 8) 8 ∪ links A) m m')
    (hl' : TreeRep m' (m'.load (a + 8) 8) a l') :
    TreeRep m' (m'.load slot 8) par (.node a l' r) := by
  obtain ⟨hptr, ha, hpar, -, hr⟩ := hrep
  have hframe : SideFrame m m' par a 8 (elems r) := sideFrame hspread (by omega) hm
  refine ⟨?_, ha, ?_, hl', ?_⟩
  · rcases hslot with rfl | rfl
    · rw [hframe.par 16 (by omega), hptr]
    · rw [hframe.par 8 (by omega), hptr]
  · rw [hframe.node 24 (by omega) (by omega), hpar]
  · rw [hframe.node 16 (by omega) (by omega)]
    exact hframe.other _ r rfl hr

lemma TreeRep.replaceRight {l r r' : BinaryTree ℕ} (hrep : TreeRep m (m.load slot 8) par (.node a l r))
    (hslot : slot = par + 16 ∨ slot = par + 8) (hspread : Spread (par ::ₘ a ::ₘ (A + elems l)))
    (hm : SameOutside (range (a + 16) 8 ∪ links A) m m')
    (hr' : TreeRep m' (m'.load (a + 16) 8) a r') :
    TreeRep m' (m'.load slot 8) par (.node a l r') := by
  obtain ⟨hptr, ha, hpar, hl, -⟩ := hrep
  have hframe : SideFrame m m' par a 16 (elems l) := sideFrame hspread (by omega) hm
  refine ⟨?_, ha, ?_, ?_, hr'⟩
  · rcases hslot with rfl | rfl
    · rw [hframe.par 16 (by omega), hptr]
    · rw [hframe.par 8 (by omega), hptr]
  · rw [hframe.node 24 (by omega) (by omega), hpar]
  · rw [hframe.node 8 (by omega) (by omega)]
    exact hframe.other _ l rfl hl

/-! ## The place of a node -/

/-- The node `p` of a tree, with its slot, its parent and its children: a memory with another tree
in this place has another tree as a whole. -/
structure Position (m : Mem) (slot par : ℕ) (t : BinaryTree ℕ) (p slot' par' : ℕ)
    (l r : BinaryTree ℕ) : Prop where
  rep : TreeRep m (m.load slot' 8) par' (.node p l r)
  slot_eq : slot' = par' + 16 ∨ slot' = par' + 8 ∧ m.load (par' + 16) 8 ≠ p
  origin : slot' = slot ∧ par' = par ∨ par' ∈ elems t
  le : elems (.node p l r) ≤ elems t
  cons_le : par' ::ₘ elems (.node p l r) ≤ par ::ₘ elems t
  plug : ∀ m' f, SameOutside (range slot' 8 ∪ links (elems (.node p l r))) m m' →
    TreeRep m' (m'.load slot' 8) par' (f l r) → TreeRep m' (m'.load slot 8) par (modifyAt p f t)

/-- What may be changed in the place of a node is in the slot and the links of the tree. -/
lemma Position.subset {l r : BinaryTree ℕ} {slot' par' : ℕ} (h : Position m slot par t p slot' par' l r) :
    range slot' 8 ∪ links (elems (.node p l r)) ⊆ range slot 8 ∪ links (elems t) := by
  refine Set.union_subset ?_ ((links_mono h.le).trans Set.subset_union_right)
  rcases h.origin with ⟨rfl, -⟩ | hpar
  · exact Set.subset_union_left
  · rintro i ⟨h1, h2⟩
    refine .inr ⟨par', hpar, ?_⟩
    rcases h.slot_eq with rfl | ⟨rfl, -⟩ <;> omega

lemma Position.left {l r pl pr : BinaryTree ℕ} {slot' par' : ℕ}
    (hrep : TreeRep m (m.load slot 8) par (.node a l r)) (hslot : slot = par + 16 ∨ slot = par + 8)
    (hspread : Spread (par ::ₘ elems (.node a l r)))
    (h : Position m (a + 8) a l p slot' par' pl pr) :
    Position m slot par (.node a l r) p slot' par' pl pr := by
  have hp : p ∈ elems l := mem_of_le h.le (mem_cons_self _ _)
  have hle : a ::ₘ elems l ≤ elems (.node a l r) :=
    cons_le_cons a (le_add_right _ _)
  have hcons : par' ::ₘ elems (.node p pl pr) ≤ elems (.node a l r) := h.cons_le.trans hle
  refine ⟨h.rep, h.slot_eq, .inr ?_, ?_, hcons.trans (le_cons_self _ _), ?_⟩
  · exact mem_of_le hcons (mem_cons_self _ _)
  · exact (le_cons_self _ _).trans hcons
  · intro m' f hm hf
    rw [modifyAt_left (hspread.of_le (le_cons_self _ _)).nodup hp]
    exact hrep.replaceLeft hslot hspread (hm.mono h.subset) (h.plug m' f hm hf)

lemma Position.right {l r pl pr : BinaryTree ℕ} {slot' par' : ℕ}
    (hrep : TreeRep m (m.load slot 8) par (.node a l r)) (hslot : slot = par + 16 ∨ slot = par + 8)
    (hspread : Spread (par ::ₘ elems (.node a l r)))
    (h : Position m (a + 16) a r p slot' par' pl pr) :
    Position m slot par (.node a l r) p slot' par' pl pr := by
  have hp : p ∈ elems r := mem_of_le h.le (mem_cons_self _ _)
  have hle : a ::ₘ elems r ≤ elems (.node a l r) :=
    cons_le_cons a (le_add_left _ _)
  have hcons : par' ::ₘ elems (.node p pl pr) ≤ elems (.node a l r) := h.cons_le.trans hle
  have hspread' : Spread (par ::ₘ a ::ₘ (elems r + elems l)) := by
    rwa [add_comm (elems r)]
  refine ⟨h.rep, h.slot_eq, .inr ?_, ?_, hcons.trans (le_cons_self _ _), ?_⟩
  · exact mem_of_le hcons (mem_cons_self _ _)
  · exact (le_cons_self _ _).trans hcons
  · intro m' f hm hf
    rw [modifyAt_right (hspread.of_le (le_cons_self _ _)).nodup hp]
    exact hrep.replaceRight hslot hspread' (hm.mono h.subset) (h.plug m' f hm hf)

lemma right_notMem {l r : BinaryTree ℕ} (hl : TreeRep m p a l) (hr : TreeRep m (m.load (a + 16) 8) a r)
    (hspread : Spread (a ::ₘ (elems l + elems r))) : m.load (a + 16) 8 ∉ elems l := by
  intro hmem
  have h0 := hl.ne_zero hmem
  rw [treeRep_ptr hr] at h0 hmem
  exact Multiset.disjoint_left.mp
    (Multiset.nodup_add.mp (Multiset.nodup_cons.mp hspread.nodup).2).2.2 hmem (ptr_mem_addrs h0)

lemma exists_position (hrep : TreeRep m (m.load slot 8) par t)
    (hslot : slot = par + 16 ∨ slot = par + 8 ∧ m.load (par + 16) 8 ∉ elems t)
    (hspread : Spread (par ::ₘ elems t)) (hp : p ∈ elems t) :
    ∃ slot' par' l r, Position m slot par t p slot' par' l r := by
  induction t generalizing slot par with
  | nil => exact absurd hp (notMem_zero p)
  | node a l r ihl ihr =>
    have hslot' : slot = par + 16 ∨ slot = par + 8 := hslot.imp_right And.left
    obtain ⟨hptr, ha, hpar, hl, hr⟩ := id hrep
    have hbelow : Spread (a ::ₘ (elems l + elems r)) := hspread.of_le (le_cons_self _ _)
    rcases mem_cons.mp hp with rfl | hp'
    · -- the root of the tree
      have hslot0 : slot = par + 16 ∨ slot = par + 8 ∧ m.load (par + 16) 8 ≠ p :=
        hslot.imp_right fun hs => ⟨hs.1, fun heq => hs.2 (heq ▸ hp)⟩
      refine ⟨slot, par, l, r, hrep, hslot0, .inl ⟨rfl, rfl⟩, le_rfl, le_rfl, fun m' f _ hf => ?_⟩
      rwa [modifyAt_self]
    rcases mem_add.mp hp' with hpl | hpr
    · have hne : m.load (a + 16) 8 ∉ elems l := right_notMem hl hr hbelow
      obtain ⟨slot', par', pl, pr, hpos⟩ := ihl hl (.inr ⟨rfl, hne⟩)
        (hbelow.of_le (cons_le_cons a (le_add_right _ _))) hpl
      exact ⟨slot', par', pl, pr, hpos.left hrep hslot' hspread⟩
    · obtain ⟨slot', par', pl, pr, hpos⟩ := ihr hr (.inl rfl)
        (hbelow.of_le (cons_le_cons a (le_add_left _ _))) hpr
      exact ⟨slot', par', pl, pr, hpos.right hrep hslot' hspread⟩

end

/-! ## Removing a node -/

section

variable {h : GcHeap} {t l r : BinaryTree ℕ} {p par slot slot' par' n : ℕ}

lemma checkInHeap_of_inHeap {a : ℕ} (ha : h.InHeap a) : checkInHeap a h = .ok () h := by
  rw [checkInHeap, run_get_bind, if_pos ha]
  rfl

lemma treeSlot_eq (hpos : Position h.mem slot par t p slot' par' l r) (hp : h.InHeap p)
    (hroot : ¬ h.InHeap h.rootAddr) (hpar0 : par' ≠ 0) (hpar : par' = h.rootAddr ∨ h.InHeap par') :
    treeSlot p h = .ok slot' h := by
  obtain ⟨hptr, -, hparent, -, -⟩ := hpos.rep
  have hparent : h.parent p = par' := hparent
  have hgood : ¬ (h.parent p = 0 ∨ p = h.rootAddr ∨ ¬ h.InHeap p
      ∨ (h.parent p ≠ h.rootAddr ∧ ¬ h.InHeap (h.parent p))) := by
    rw [hparent]
    rintro (h0 | hr | hin | ⟨hne, hin⟩)
    · exact hpar0 h0
    · exact hroot (hr ▸ hp)
    · exact hin hp
    · exact hpar.elim hne hin
  rw [treeSlot, run_get_bind, if_neg hgood, hparent]
  rcases hpos.slot_eq with rfl | ⟨rfl, hne⟩
  · rw [if_pos (show p = h.right par' from hptr.symm)]
    rfl
  · rw [if_neg (show p ≠ h.right par' from fun heq => hne heq.symm),
      if_pos (show p = h.left par' from hptr.symm)]
    rfl

lemma sameOutside_clearLinks (h : GcHeap) (p : ℕ) :
    SameOutside (links {p}) h.mem (h.clearLinks p).mem := by
  intro i hi
  have hlt : i < p + 8 ∨ p + 32 ≤ i := by
    by_contra hcon
    exact hi ⟨p, Multiset.mem_singleton_self p, by omega⟩
  change store (store (store h.mem (p + 24) 8 0) (p + 16) 8 0) (p + 8) 8 0 i = h.mem i
  rw [store_of_lt (by omega), store_of_lt (by omega), store_of_lt (by omega)]

lemma load_clearLinks {a k : ℕ} (ha : a + k ≤ p + 8 ∨ p + 32 ≤ a) :
    (h.clearLinks p).mem.load a k = h.mem.load a k := by
  refine (sameOutside_clearLinks h p).load ?_
  rintro i ⟨b, hb, hi⟩
  rw [Multiset.mem_singleton.mp hb] at hi
  omega

lemma TreeRep.reparent {m : Mem} {a q : ℕ} (hrep : TreeRep m a p (.node a l r))
    (hspread : Spread (elems (.node a l r))) (hq : q < 256 ^ 8) :
    TreeRep (m.store (a + 24) 8 q) a q (.node a l r) := by
  obtain ⟨-, ha, -, hl, hr⟩ := hrep
  have hside : ∀ x s, elems s ≤ elems l + elems r → TreeRep m x a s →
      TreeRep (m.store (a + 24) 8 q) x a s := by
    intro x s hs hrep
    refine hrep.congr fun b hb i hlo hhi => store_of_lt ?_
    have := hspread.apart_cons (mem_of_le hs hb)
    omega
  refine ⟨rfl, ha, load_store_self hq, ?_, ?_⟩
  · rw [load_store_of_disjoint (by omega)]
    exact hside _ l (le_add_right _ _) hl
  · rw [load_store_of_disjoint (by omega)]
    exact hside _ r (le_add_left _ _) hr

lemma moveUp_spec {c : BinaryTree ℕ} (hpos : Position h.mem slot par t p slot' par' l r)
    (hspread : Spread (par ::ₘ elems t)) (hin : ∀ a ∈ elems t, h.InHeap a)
    (hc : TreeRep h.mem (treePtr c) p c) (hle : p ::ₘ elems c ≤ elems (.node p l r))
    (hlt : treePtr c < 256 ^ 8) :
    ∃ m', moveUp slot' p (treePtr c) h = .ok () { h with mem := m' }
      ∧ SameOutside (range slot' 8 ∪ links (elems (.node p l r))) h.mem m'
      ∧ TreeRep m' (m'.load slot' 8) par' c := by
  obtain ⟨hptr, hp0, hparent, -, -⟩ := hpos.rep
  have hspread' : Spread (par' ::ₘ p ::ₘ elems c) :=
    hspread.of_le ((cons_le_cons par' hle).trans hpos.cons_le)
  have hbelow : Spread (p ::ₘ elems c) := hspread'.of_le (le_cons_self _ _)
  have hpp : par' + 32 ≤ p ∨ p + 32 ≤ par' := hspread'.apart_cons (mem_cons_self _ _)
  have hslot : par' + 8 ≤ slot' ∧ slot' + 8 ≤ par' + 32 := by
    rcases hpos.slot_eq with rfl | ⟨rfl, -⟩ <;> omega
  have hsub : links (p ::ₘ elems c) ⊆ range slot' 8 ∪ links (elems (.node p l r)) :=
    (links_mono hle).trans Set.subset_union_right
  have hplinks : links {p} ⊆ range slot' 8 ∪ links (elems (.node p l r)) :=
    (links_mono (singleton_le.mpr (mem_cons_self _ _))).trans hsub
  have hfirst : SameOutside (range slot' 8 ∪ links (elems (.node p l r))) h.mem
      (h.setPtr slot' (treePtr c)).mem := sameOutside_store.mono Set.subset_union_left
  rw [moveUp, run_modify_bind]
  cases c with
  | nil =>
    refine ⟨((h.setPtr slot' 0).clearLinks p).mem, rfl, ?_, ?_⟩
    · exact hfirst.trans ((sameOutside_clearLinks _ p).mono hplinks)
    · rw [load_clearLinks (by omega)]
      exact load_store_self hlt
  | node a cl cr =>
    have hmem : a ∈ elems (.node a cl cr) := mem_cons_self _ _
    have hpa := hbelow.apart_cons hmem
    have hpar'a := hspread'.apart_cons (mem_cons_of_mem hmem)
    have hparent' : (h.setPtr slot' a).parent p = par' :=
      (load_store_of_disjoint (by omega)).trans hparent
    have hain : (h.setPtr slot' a).InHeap a :=
      hin a (mem_of_le hpos.le (mem_of_le hle (mem_cons_of_mem hmem)))
    rw [treePtr, if_neg hc.2.1, bind_of_ok (checkInHeap_of_inHeap hain), run_modify_bind,
      run_modify, hparent']
    refine ⟨(((h.setPtr slot' a).setPtr (a + 24) par').clearLinks p).mem, rfl, ?_, ?_⟩
    · refine (hfirst.trans ?_).trans ((sameOutside_clearLinks _ p).mono hplinks)
      refine sameOutside_store.mono (Set.Subset.trans ?_ hsub)
      rintro i ⟨h1, h2⟩
      exact ⟨a, mem_cons_of_mem hmem, by omega, by omega⟩
    · rw [load_clearLinks (by omega)]
      have hload : ((h.setPtr slot' a).setPtr (a + 24) par').mem.load slot' 8 = a :=
        (load_store_of_disjoint (by omega)).trans (load_store_self hlt)
      rw [hload]
      have h1 : TreeRep (h.setPtr slot' a).mem a p (.node a cl cr) := by
        refine hc.congr fun b hb i hlo hhi => store_of_lt ?_
        have := hspread'.apart_cons (mem_cons_of_mem hb)
        omega
      have h2 : TreeRep ((h.setPtr slot' a).setPtr (a + 24) par').mem a par' (.node a cl cr) :=
        h1.reparent (hbelow.of_le (le_cons_self _ _)) (hparent ▸ load_lt)
      refine h2.congr fun b hb i hlo hhi => sameOutside_clearLinks _ p i ?_
      rintro ⟨b', hb', hi⟩
      rw [Multiset.mem_singleton.mp hb'] at hi
      have := hbelow.apart_cons hb
      omega

/-- A tree hangs on a slot of its parent. -/
structure Hangs (h : GcHeap) (slot par : ℕ) (t : BinaryTree ℕ) : Prop where
  rep : TreeRep h.mem (h.mem.load slot 8) par t
  slot_eq : slot = par + 16 ∨ slot = par + 8 ∧ h.mem.load (par + 16) 8 ∉ elems t
  spread : Spread (par ::ₘ elems t)
  inHeap : ∀ a ∈ elems t, h.InHeap a
  root : ¬ h.InHeap h.rootAddr
  par_ne : par ≠ 0
  par_ok : par = h.rootAddr ∨ h.InHeap par

/-- A program takes a node out of a tree, and changes nothing but its slot and its links. -/
abbrev Removes (h : GcHeap) (slot par p : ℕ) (t : BinaryTree ℕ) (prog : EmsM Unit) : Prop :=
  ∃ m', prog h = .ok () { h with mem := m' } ∧ SameOutside (range slot 8 ∪ links (elems t)) h.mem m'
    ∧ TreeRep m' (m'.load slot 8) par (remove p t)

lemma Hangs.treeSlot_eq (ht : Hangs h slot par t)
    (hpos : Position h.mem slot par t p slot' par' l r) : treeSlot p h = .ok slot' h := by
  have hp : h.InHeap p := ht.inHeap p (mem_of_le hpos.le (mem_cons_self _ _))
  rcases hpos.origin with ⟨-, rfl⟩ | hmem
  · exact Ems.treeSlot_eq hpos hp ht.root ht.par_ne ht.par_ok
  · exact Ems.treeSlot_eq hpos hp ht.root (ht.rep.ne_zero hmem) (.inr (ht.inHeap par' hmem))

lemma Hangs.moveUp_spec {c : BinaryTree ℕ} (ht : Hangs h slot par t)
    (hpos : Position h.mem slot par t p slot' par' l r) (hc : TreeRep h.mem (treePtr c) p c)
    (hchild : join l r = c) (hlt : treePtr c < 256 ^ 8) :
    Removes h slot par p t (moveUp slot' p (treePtr c)) := by
  have helems : p ::ₘ elems c = elems (.node p l r) := by rw [← hchild, elems_join, elems_node]
  obtain ⟨m', hrun, hsame, hrep⟩ :=
    Ems.moveUp_spec hpos ht.spread ht.inHeap hc helems.le hlt
  exact ⟨m', hrun, hsame.mono hpos.subset, hpos.plug m' join hsame (hchild ▸ hrep)⟩

lemma removeTreeNode_single (ht : Hangs h slot par t) (hp : p ∈ elems t)
    (hchild : h.left p = 0 ∨ h.right p = 0) :
    Removes h slot par p t (removeTreeNode (n + 1) p) := by
  obtain ⟨slot', par', l, r, hpos⟩ := exists_position ht.rep ht.slot_eq ht.spread hp
  obtain ⟨-, -, -, hl, hr⟩ := hpos.rep
  have hlptr : h.left p = treePtr l := treeRep_ptr hl
  have hrptr : h.right p = treePtr r := treeRep_ptr hr
  rw [Removes, removeTreeNode, bind_of_ok (ht.treeSlot_eq hpos), run_get_bind]
  by_cases hl0 : h.left p = 0
  · have hlnil : l = .nil := hl.eq_nil hl0
    rw [if_pos hl0, hrptr]
    exact ht.moveUp_spec hpos (hrptr ▸ hr) (by rw [hlnil, join_nil_left]) (hrptr ▸ load_lt)
  · have hr0 : h.right p = 0 := hchild.resolve_left hl0
    have hrnil : r = .nil := hr.eq_nil hr0
    rw [if_neg hl0, if_pos hr0, hlptr]
    exact ht.moveUp_spec hpos (hlptr ▸ hl) (by rw [hrnil, join_nil_right]) (hlptr ▸ load_lt)

lemma predecessor_spec {a : ℕ} (hrep : TreeRep h.mem p par (.node a l r))
    (hin : ∀ b ∈ elems (.node a l r), h.InHeap b) (hn : (elems (.node a l r)).card ≤ n) :
    predecessor n p h = .ok (last a r) h ∧ h.right (last a r) = 0 := by
  induction r generalizing n p par a l with
  | nil =>
    obtain ⟨rfl, -, -, -, hr⟩ := hrep
    obtain ⟨n, rfl⟩ : ∃ k, n = k + 1 := Nat.exists_eq_add_of_le' (hn.trans' (by simp))
    have hr0 : h.right p = 0 := hr
    rw [predecessor, bind_of_ok (checkInHeap_of_inHeap (hin p (mem_cons_self _ _))),
      run_get_bind, if_pos hr0]
    exact ⟨rfl, hr0⟩
  | node b rl rr _ ih =>
    obtain ⟨rfl, -, -, -, hr⟩ := hrep
    obtain ⟨n, rfl⟩ : ∃ k, n = k + 1 := Nat.exists_eq_add_of_le' (hn.trans' (by simp))
    have hright : h.right p = b := hr.1
    have hcard : (elems (.node b rl rr)).card ≤ n := by
      rw [elems_node p, card_cons, card_add] at hn
      omega
    rw [predecessor, bind_of_ok (checkInHeap_of_inHeap (hin p (mem_cons_self _ _))),
      run_get_bind, hright, if_neg hr.2.1, last]
    exact ih (hr.1 ▸ hr)
      (fun c hc => hin c (mem_cons_of_mem (mem_add.mpr (.inr hc)))) hcard

lemma adopt_spec {q field : ℕ} {s : BinaryTree ℕ} (hrep : TreeRep h.mem (h.mem.load field 8) p s)
    (hin : ∀ a ∈ elems s, h.InHeap a) (hspread : Spread (q ::ₘ elems s))
    (hfield : q ≤ field ∧ field + 8 ≤ q + 32) (hq : q < 256 ^ 8) :
    ∃ m', adopt q field h = .ok () { h with mem := m' }
      ∧ SameOutside (links (elems s)) h.mem m' ∧ TreeRep m' (m'.load field 8) q s := by
  rw [adopt, run_get_bind]
  cases s with
  | nil =>
    have h0 : h.ptr field = 0 := hrep
    rw [if_pos h0]
    exact ⟨h.mem, rfl, SameOutside.refl _ _, h0⟩
  | node a l r =>
    have ha : h.ptr field = a := hrep.1
    have hmem : a ∈ elems (.node a l r) := mem_cons_self _ _
    have hqa := hspread.apart_cons hmem
    rw [ha, if_neg hrep.2.1, bind_of_ok (checkInHeap_of_inHeap (hin a hmem)), run_modify, ha]
    refine ⟨(h.setPtr (a + 24) q).mem, rfl, sameOutside_store.mono ?_, ?_⟩
    · rintro i ⟨h1, h2⟩
      exact ⟨a, hmem, by omega, by omega⟩
    · have hload : (h.setPtr (a + 24) q).mem.load field 8 = a :=
        (load_store_of_disjoint (by omega)).trans ha
      rw [hload]
      exact (hrep.1 ▸ hrep : TreeRep h.mem a p (.node a l r)).reparent
        (hspread.of_le (le_cons_self _ _)) hq

/-- A node takes the place of another one. -/
def GcHeap.takePlace (h : GcHeap) (slot q par l r : ℕ) : GcHeap :=
  (((h.setPtr slot q).setPtr (q + 24) par).setPtr (q + 8) l).setPtr (q + 16) r

lemma sameOutside_takePlace (h : GcHeap) (slot q par x y : ℕ) :
    SameOutside (range slot 8 ∪ links {q}) h.mem (h.takePlace slot q par x y).mem := by
  intro i hi
  have h1 : i < slot ∨ slot + 8 ≤ i := by
    by_contra hcon
    exact hi (.inl ⟨by omega, by omega⟩)
  have h2 : i < q + 8 ∨ q + 32 ≤ i := by
    by_contra hcon
    exact hi (.inr ⟨q, Multiset.mem_singleton_self q, by omega⟩)
  change store (store (store (store h.mem slot 8 q) (q + 24) 8 par) (q + 8) 8 x)
    (q + 16) 8 y i = h.mem i
  rw [store_of_lt (by omega), store_of_lt (by omega), store_of_lt (by omega),
    store_of_lt h1]

lemma load_takePlace (h : GcHeap) (slot q par x y : ℕ) (hq : q < 256 ^ 8) (hpar : par < 256 ^ 8)
    (hx : x < 256 ^ 8) (hy : y < 256 ^ 8) (hslot : slot + 8 ≤ q ∨ q + 32 ≤ slot) :
    (h.takePlace slot q par x y).mem.load slot 8 = q
      ∧ (h.takePlace slot q par x y).mem.load (q + 24) 8 = par
      ∧ (h.takePlace slot q par x y).mem.load (q + 8) 8 = x
      ∧ (h.takePlace slot q par x y).mem.load (q + 16) 8 = y := by
  refine ⟨?_, ?_, ?_, load_store_self hy⟩
  · exact (load_store_of_disjoint (by omega)).trans ((load_store_of_disjoint (by omega)).trans
      ((load_store_of_disjoint (by omega)).trans (load_store_self hq)))
  · exact (load_store_of_disjoint (by omega)).trans ((load_store_of_disjoint (by omega)).trans
      (load_store_self hpar))
  · exact (load_store_of_disjoint (by omega)).trans (load_store_self hx)

/-- The slot is apart from the two nodes, and these from each other, so that the stores do not
disturb what is read of the node that is replaced. -/
lemma replaceNode_eq {q : ℕ} (hslot : slot' + 8 ≤ p ∨ p + 32 ≤ slot')
    (hpq : p + 32 ≤ q ∨ q + 32 ≤ p) :
    replaceNode slot' p q h = (adopt q (q + 8) >>= fun _ => adopt q (q + 16) >>= fun _ =>
      modify fun h' : GcHeap => h'.clearLinks p)
        (h.takePlace slot' q (h.parent p) (h.left p) (h.right p)) := by
  have hpar : (h.setPtr slot' q).parent p = h.parent p := load_store_of_disjoint (by omega)
  have hleft : ((h.setPtr slot' q).setPtr (q + 24) (h.parent p)).left p = h.left p :=
    (load_store_of_disjoint (by omega)).trans (load_store_of_disjoint (by omega))
  have hright : (((h.setPtr slot' q).setPtr (q + 24) (h.parent p)).setPtr (q + 8) (h.left p)).right p
      = h.right p :=
    (load_store_of_disjoint (by omega)).trans
      ((load_store_of_disjoint (by omega)).trans (load_store_of_disjoint (by omega)))
  rw [replaceNode, run_modify_bind, run_modify_bind, hpar, run_modify_bind, hleft,
    run_modify_bind, hright, GcHeap.takePlace]

lemma adoptBoth_spec {q : ℕ} (hslot : par' ≤ slot' ∧ slot' + 8 ≤ par' + 32)
    (hspread : Spread (par' ::ₘ q ::ₘ p ::ₘ (elems l + elems r))) (hq0 : q ≠ 0)
    (hin : ∀ a ∈ elems l + elems r, h.InHeap a) (hptr : h.mem.load slot' 8 = q)
    (hparent : h.mem.load (q + 24) 8 = par') (hl : TreeRep h.mem (h.mem.load (q + 8) 8) p l)
    (hr : TreeRep h.mem (h.mem.load (q + 16) 8) p r) :
    ∃ m', (adopt q (q + 8) >>= fun _ => adopt q (q + 16) >>= fun _ =>
        modify fun h' : GcHeap => h'.clearLinks p) h = .ok () { h with mem := m' }
      ∧ SameOutside (links (p ::ₘ (elems l + elems r))) h.mem m'
      ∧ TreeRep m' (m'.load slot' 8) par' (.node q l r) := by
  have hq : q < 256 ^ 8 := hptr ▸ load_lt
  have hbelow : Spread (q ::ₘ p ::ₘ (elems l + elems r)) :=
    hspread.of_le (le_cons_self _ _)
  have hqlr : Spread (q ::ₘ (elems l + elems r)) :=
    hbelow.of_le (cons_le_cons q (le_cons_self _ _))
  have hlle : elems l ≤ elems l + elems r := le_add_right _ _
  have hrle : elems r ≤ elems l + elems r := le_add_left _ _
  have hql : Spread (q ::ₘ elems l) := hqlr.of_le (cons_le_cons q hlle)
  have hqr : Spread (q ::ₘ elems r) := hqlr.of_le (cons_le_cons q hrle)
  have hlr : Spread (elems l + elems r) := hqlr.of_le (le_cons_self _ _)
  obtain ⟨m₁, hrun1, hsame1, hl1⟩ := adopt_spec hl
    (fun a ha => hin a (mem_of_le hlle ha)) hql ⟨by omega, by omega⟩ hq
  have hr1 : TreeRep m₁ (m₁.load (q + 16) 8) p r := by
    rw [load_of_links hsame1 hql (by omega)]
    exact hr.of_links hsame1 (add_comm (elems l) (elems r) ▸ hlr)
  obtain ⟨m₂, hrun2, hsame2, hr2⟩ := adopt_spec (h := { h with mem := m₁ }) hr1
    (fun a ha => hin a (mem_of_le hrle ha)) hqr ⟨by omega, by omega⟩ hq
  have hl2 : TreeRep m₂ (m₂.load (q + 8) 8) q l := by
    rw [load_of_links hsame2 hqr (by omega)]
    exact hl1.of_links hsame2 hlr
  -- clearing the links of `p`
  have hsame3 := sameOutside_clearLinks { h with mem := m₂ } p
  have hqp : Spread (q ::ₘ {p}) := hbelow.of_le
    (cons_le_cons q (singleton_le.mpr (mem_cons_self _ _)))
  have hplr : Spread (elems l + elems r + {p}) := by
    rw [add_comm, singleton_add]
    exact hbelow.of_le (le_cons_self _ _)
  have hall : SameOutside (links (p ::ₘ (elems l + elems r))) h.mem
      (GcHeap.clearLinks { h with mem := m₂ } p).mem := by
    refine ((hsame1.mono (links_mono ?_)).trans (hsame2.mono (links_mono ?_))).trans
      (hsame3.mono (links_mono ?_))
    · exact hlle.trans (le_cons_self _ _)
    · exact hrle.trans (le_cons_self _ _)
    · exact singleton_le.mpr (mem_cons_self _ _)
  rw [bind_of_ok hrun1, bind_of_ok hrun2, run_modify]
  refine ⟨(GcHeap.clearLinks { h with mem := m₂ } p).mem, rfl, hall, ?_, hq0, ?_, ?_, ?_⟩
  · obtain ⟨off, rfl⟩ := Nat.exists_eq_add_of_le hslot.1
    rw [load_of_links hall (hspread.of_le (cons_le_cons par' (le_cons_self _ _)))
      (by omega), hptr]
  · rw [load_of_links hall hbelow (by omega), hparent]
  · rw [load_of_links hsame3 hqp (by omega)]
    exact hl2.of_links hsame3 (hplr.of_le (add_le_add_left hlle _))
  · rw [load_of_links hsame3 hqp (by omega)]
    exact hr2.of_links hsame3 (hplr.of_le (add_le_add_left hrle _))

lemma replaceNode_spec {q : ℕ} (hslot : par' + 8 ≤ slot' ∧ slot' + 8 ≤ par' + 32)
    (hspread : Spread (par' ::ₘ q ::ₘ p ::ₘ (elems l + elems r))) (hq0 : q ≠ 0)
    (hin : ∀ a ∈ elems l + elems r, h.InHeap a) (hparent : h.parent p = par')
    (hl : TreeRep h.mem (h.left p) p l) (hr : TreeRep h.mem (h.right p) p r) (hq : q < 256 ^ 8) :
    ∃ m', replaceNode slot' p q h = .ok () { h with mem := m' }
      ∧ SameOutside (range slot' 8 ∪ links (q ::ₘ p ::ₘ (elems l + elems r))) h.mem m'
      ∧ TreeRep m' (m'.load slot' 8) par' (.node q l r) := by
  have hpp : par' + 32 ≤ p ∨ p + 32 ≤ par' :=
    hspread.apart_cons (mem_cons_of_mem (mem_cons_self _ _))
  have hparq : par' + 32 ≤ q ∨ q + 32 ≤ par' := hspread.apart_cons (mem_cons_self _ _)
  have hbelow : Spread (q ::ₘ p ::ₘ (elems l + elems r)) :=
    hspread.of_le (le_cons_self _ _)
  have hpq : q + 32 ≤ p ∨ p + 32 ≤ q := hbelow.apart_cons (mem_cons_self _ _)
  have hqlr : Spread (elems l + elems r + {q}) := by
    rw [add_comm, singleton_add]
    exact hbelow.of_le (cons_le_cons q (le_cons_self _ _))
  have hfar : ∀ a ∈ elems l + elems r, slot' + 8 ≤ a + 8 ∨ a + 32 ≤ slot' := fun a ha => by
    have := hspread.apart_cons (mem_cons_of_mem (mem_cons_of_mem ha))
    omega
  have hsame1 := sameOutside_takePlace h slot' q (h.parent p) (h.left p) (h.right p)
  obtain ⟨hptr1, hparent1, hleft1, hright1⟩ := load_takePlace h slot' q (h.parent p)
    (h.left p) (h.right p) hq load_lt load_lt load_lt (by omega)
  have hl1 : TreeRep (h.takePlace slot' q (h.parent p) (h.left p) (h.right p)).mem
      ((h.takePlace slot' q (h.parent p) (h.left p) (h.right p)).mem.load (q + 8) 8) p l := by
    rw [hleft1]
    exact hl.of_sameOutside hsame1 (hqlr.of_le (add_le_add_left (le_add_right _ _) _))
      fun a ha => hfar a (mem_add.mpr (.inl ha))
  have hr1 : TreeRep (h.takePlace slot' q (h.parent p) (h.left p) (h.right p)).mem
      ((h.takePlace slot' q (h.parent p) (h.left p) (h.right p)).mem.load (q + 16) 8) p r := by
    rw [hright1]
    exact hr.of_sameOutside hsame1 (hqlr.of_le (add_le_add_left (le_add_left _ _) _))
      fun a ha => hfar a (mem_add.mpr (.inr ha))
  obtain ⟨m', hrun, hsame, hrep⟩ :=
    adoptBoth_spec (h := h.takePlace slot' q (h.parent p) (h.left p) (h.right p))
      ⟨by omega, hslot.2⟩ hspread hq0 hin hptr1 (hparent1.trans hparent) hl1 hr1
  refine ⟨m', ?_, ?_, hrep⟩
  · rw [replaceNode_eq (by omega) (by omega), hrun]
    rfl
  · refine (hsame1.mono (Set.union_subset_union_right _ (links_mono ?_))).trans
      (hsame.mono ((links_mono (le_cons_self _ _)).trans Set.subset_union_right))
    exact singleton_le.mpr (mem_cons_self _ _)

lemma Hangs.left (ht : Hangs h slot par t) (hpos : Position h.mem slot par t p slot' par' l r) :
    Hangs h (p + 8) p l := by
  obtain ⟨-, hp0, -, hl, hr⟩ := hpos.rep
  have hle : p ::ₘ (elems l + elems r) ≤ elems t := hpos.le
  have hspread : Spread (p ::ₘ (elems l + elems r)) :=
    ht.spread.of_le (hle.trans (le_cons_self _ _))
  have hlle : p ::ₘ elems l ≤ p ::ₘ (elems l + elems r) :=
    cons_le_cons p (le_add_right _ _)
  refine ⟨hl, .inr ⟨rfl, right_notMem hl hr hspread⟩, hspread.of_le hlle, fun a ha => ?_, ht.root,
    hp0, .inr (ht.inHeap p (mem_of_le hle (mem_cons_self _ _)))⟩
  exact ht.inHeap a (mem_of_le (hlle.trans hle) (mem_cons_of_mem ha))

lemma removeTreeNode_both (ht : Hangs h slot par t)
    (hpos : Position h.mem slot par t p slot' par' l r) (hl0 : h.left p ≠ 0) (hr0 : h.right p ≠ 0)
    (hcard : (elems t).card ≤ h.currentSize) :
    Removes h slot par p t (removeTreeNode (n + 2) p) := by
  obtain ⟨-, -, hparent, hl, hr⟩ := hpos.rep
  have hleft := ht.left hpos
  obtain ⟨a, ll, lr, rfl⟩ : ∃ a ll lr, l = .node a ll lr := by
    cases l with
    | nil => exact absurd hl hl0
    | node a ll lr => exact ⟨a, ll, lr, rfl⟩
  have hle : p ::ₘ (elems (.node a ll lr) + elems r) ≤ elems t := hpos.le
  have hnodup : (elems (.node a ll lr)).Nodup :=
    (hleft.spread.of_le (le_cons_self _ _)).nodup
  -- the predecessor is removed from the left side
  have hlcard : (elems (.node a ll lr)).card ≤ h.currentSize := by
    have := card_le_card hle
    rw [card_cons, card_add] at this
    omega
  obtain ⟨hpred, hq0⟩ := predecessor_spec hl hleft.inHeap hlcard
  have hq : last a lr ∈ elems (.node a ll lr) := last_mem a ll lr
  obtain ⟨m₁, hrun1, hsame1, hl1⟩ := removeTreeNode_single (n := n) hleft hq (.inr hq0)
  have helems := last_cons_eraseLast a ll lr
  rw [remove_last hnodup] at hl1
  generalize hlast : last a lr = q at *
  generalize hl' : eraseLast (.node a ll lr) = l' at *
  have hall : p ::ₘ elems (.node q l' r) = elems (.node p (.node a ll lr) r) := by
    rw [elems_node q, elems_node p, ← helems, cons_add]
  have hcons : par' ::ₘ q ::ₘ p ::ₘ (elems l' + elems r) ≤ par ::ₘ elems t := by
    rw [cons_swap q p]
    exact hall ▸ hpos.cons_le
  have hslot' : par' + 8 ≤ slot' ∧ slot' + 8 ≤ par' + 32 := by
    rcases hpos.slot_eq with rfl | ⟨rfl, -⟩ <;> omega
  have hframe : SideFrame h.mem m₁ par' p 8 (elems r) :=
    sideFrame (ht.spread.of_le hpos.cons_le) (by omega) hsame1
  have hr1 : TreeRep m₁ (m₁.load (p + 16) 8) p r := by
    rw [hframe.node 16 (by omega) (by omega)]
    exact hframe.other _ r rfl hr
  have hin : ∀ b ∈ elems l' + elems r, h.InHeap b := fun b hb => ht.inHeap b <|
    mem_of_le hpos.le (hall ▸ mem_cons_of_mem (mem_cons_of_mem hb))
  -- and it takes the place of the node
  obtain ⟨m', hrun, hsame, hrep⟩ := replaceNode_spec (h := { h with mem := m₁ }) hslot'
    (ht.spread.of_le hcons) (hleft.rep.ne_zero hq) hin
    ((hframe.node 24 (by omega) (by omega)).trans hparent) hl1 hr1
    (hleft.rep.lt load_lt hq)
  have hsame' : SameOutside
      (range slot' 8 ∪ links (elems (.node p (.node a ll lr) r))) h.mem m' := by
    refine (hsame1.mono ?_).trans (hsame.mono ?_)
    · refine Set.union_subset ?_ ((links_mono ?_).trans Set.subset_union_right)
      · rintro i ⟨h1, h2⟩
        exact .inr ⟨p, mem_cons_self _ _, by omega, by omega⟩
      · exact (le_add_right _ _).trans (le_cons_self _ _)
    · rw [cons_swap, ← elems_node, hall]
  refine ⟨m', ?_, hsame'.mono hpos.subset, hpos.plug m' join hsame' ?_⟩
  · rw [removeTreeNode, bind_of_ok (ht.treeSlot_eq hpos), run_get_bind, if_neg hl0, if_neg hr0]
    exact (bind_of_ok hpred).trans ((bind_of_ok hrun1).trans hrun)
  · cases r with
    | nil => exact absurd hr hr0
    | node b rl rr =>
      rw [join, hl', hlast]
      exact hrep

lemma removeTreeNode_spec (ht : Hangs h slot par t) (hp : p ∈ elems t)
    (hcard : (elems t).card ≤ h.currentSize) :
    Removes h slot par p t (removeTreeNode (n + 2) p) := by
  by_cases hchild : h.left p = 0 ∨ h.right p = 0
  · exact removeTreeNode_single ht hp hchild
  · rw [not_or] at hchild
    obtain ⟨slot', par', l, r, hpos⟩ := exists_position ht.rep ht.slot_eq ht.spread hp
    exact removeTreeNode_both ht hpos hchild.1 hchild.2 hcard

end

/-! ## Inserting and finding a node -/

section

variable {h : GcHeap} {t : BinaryTree ℕ} {node tp par n size last : ℕ}

/-- The slot of a node on which a node of the given size is inserted. -/
def GcHeap.insertSlot (h : GcHeap) (size tp : ℕ) : ℕ :=
  if h.nodeSize tp < size then tp + 16 else tp + 8

lemma GcHeap.insertSlot_eq (h : GcHeap) (size tp : ℕ) :
    h.insertSlot size tp = tp + 16 ∨ h.insertSlot size tp = tp + 8 := by
  unfold insertSlot
  split
  · exact .inl rfl
  · exact .inr rfl

lemma insertNode_eq : insertNode node size (n + 1) tp h =
    if h.mem.load (h.insertSlot size tp) 8 = 0 then
      .ok () ((h.setPtr (h.insertSlot size tp) node).setPtr (node + 24) tp)
    else (checkInHeap (h.mem.load (h.insertSlot size tp) 8) >>= fun _ =>
      insertNode node size n (h.mem.load (h.insertSlot size tp) 8)) h := by
  rw [insertNode, run_get_bind]
  by_cases hlt : h.nodeSize tp < size
  · have hslot : h.insertSlot size tp = tp + 16 := if_pos hlt
    rw [if_pos hlt, hslot]
    by_cases h0 : h.right tp = 0
    · rw [if_pos h0, if_pos (by exact h0), run_modify]
    · rw [if_neg h0, if_neg (by exact h0)]
      rfl
  · have hslot : h.insertSlot size tp = tp + 8 := if_neg hlt
    rw [if_neg hlt, hslot]
    by_cases h0 : h.left tp = 0
    · rw [if_pos h0, if_pos (by exact h0), run_modify]
    · rw [if_neg h0, if_neg (by exact h0)]
      rfl

lemma insertNode_spec (hrep : TreeRep h.mem (h.mem.load (h.insertSlot size tp) 8) tp t)
    (hspread : Spread (tp ::ₘ node ::ₘ elems t)) (hin : ∀ a ∈ elems t, h.InHeap a)
    (hnode : node ≠ 0) (hlt : node < 256 ^ 8) (htp : tp < 256 ^ 8) (hleft : h.left node = 0)
    (hright : h.right node = 0) (hsize : h.nodeSize node = size) (hcard : (elems t).card < n) :
    ∃ m', insertNode node size n tp h = .ok () { h with mem := m' }
      ∧ SameOutside (range (h.insertSlot size tp) 8 ∪ links (node ::ₘ elems t)) h.mem m'
      ∧ TreeRep m' (m'.load (h.insertSlot size tp) 8) tp (insert h.nodeSize node t) := by
  induction t generalizing tp n with
  | nil =>
    obtain ⟨n, rfl⟩ := Nat.exists_eq_succ_of_ne_zero (Nat.ne_zero_of_lt hcard)
    have hslot := h.insertSlot_eq size tp
    have hapart := hspread.apart_cons (mem_cons_self _ _)
    have h0 : h.mem.load (h.insertSlot size tp) 8 = 0 := hrep
    rw [insertNode_eq, if_pos h0]
    generalize h.insertSlot size tp = slot at *
    refine ⟨((h.setPtr slot node).setPtr (node + 24) tp).mem, rfl, ?_, ⟨?_, hnode, ?_, ?_, ?_⟩⟩
    · refine (sameOutside_store.mono Set.subset_union_left).trans (sameOutside_store.mono ?_)
      rintro i ⟨h1, h2⟩
      exact .inr ⟨node, mem_cons_self _ _, by omega, by omega⟩
    · exact (load_store_of_disjoint (by omega)).trans (load_store_self hlt)
    · exact load_store_self htp
    · exact ((load_store_of_disjoint (by omega)).trans
        (load_store_of_disjoint (by omega))).trans hleft
    · exact ((load_store_of_disjoint (by omega)).trans
        (load_store_of_disjoint (by omega))).trans hright
  | node a l r ihl ihr =>
    obtain ⟨n, rfl⟩ := Nat.exists_eq_succ_of_ne_zero (Nat.ne_zero_of_lt hcard)
    obtain ⟨hptr, ha, -, hl, hr⟩ := id hrep
    have hslot := h.insertSlot_eq size tp
    have halt : a < 256 ^ 8 := hptr ▸ load_lt
    have hcard' : (elems l + elems r).card < n := by
      rw [elems_node, card_cons] at hcard
      omega
    have hbelow : Spread (a ::ₘ node ::ₘ (elems l + elems r)) := by
      rw [cons_swap]
      exact hspread.of_le (le_cons_self _ _)
    have hrun : insertNode node size (n + 1) tp h = insertNode node size n a h := by
      rw [insertNode_eq, hptr, if_neg ha]
      exact bind_of_ok (checkInHeap_of_inHeap (hin a (mem_cons_self _ _)))
    have hword : ∀ A ≤ elems l + elems r,
        range (h.insertSlot size a) 8 ∪ links (node ::ₘ A) ⊆
          range (h.insertSlot size tp) 8 ∪ links (node ::ₘ elems (.node a l r)) := by
      intro A hA
      refine Set.union_subset ?_ ((links_mono ?_).trans Set.subset_union_right)
      · have := h.insertSlot_eq size a
        rintro i ⟨h1, h2⟩
        exact .inr ⟨a, mem_cons_of_mem (mem_cons_self _ _), by omega, by omega⟩
      · exact cons_le_cons node (hA.trans (le_cons_self _ _))
    rw [hrun, SearchTree.insert, hsize]
    by_cases hless : h.nodeSize a < size
    · have hslota : h.insertSlot size a = a + 16 := if_pos hless
      have hle : elems r ≤ elems l + elems r := le_add_left _ _
      obtain ⟨m', hrun', hsame, hr'⟩ := ihr (hslota ▸ hr)
        (hbelow.of_le (cons_le_cons a (cons_le_cons node hle)))
        (fun b hb => hin b (mem_cons_of_mem (mem_of_le hle hb))) halt
        ((card_le_card hle).trans_lt hcard')
      have hsame' := hsame.mono (hword (elems r) hle)
      rw [hslota] at hsame hr'
      rw [if_pos hless]
      refine ⟨m', hrun', hsame', hrep.replaceRight hslot ?_ hsame hr'⟩
      rw [cons_add, add_comm (elems r), cons_swap a]
      exact hspread
    · have hslota : h.insertSlot size a = a + 8 := if_neg hless
      have hle : elems l ≤ elems l + elems r := le_add_right _ _
      obtain ⟨m', hrun', hsame, hl'⟩ := ihl (hslota ▸ hl)
        (hbelow.of_le (cons_le_cons a (cons_le_cons node hle)))
        (fun b hb => hin b (mem_cons_of_mem (mem_of_le hle hb))) halt
        ((card_le_card hle).trans_lt hcard')
      have hsame' := hsame.mono (hword (elems l) hle)
      rw [hslota] at hsame hl'
      rw [if_neg hless]
      refine ⟨m', hrun', hsame', hrep.replaceLeft hslot ?_ hsame hl'⟩
      rw [cons_add, cons_swap a]
      exact hspread

lemma findNode_spec (hrep : TreeRep h.mem tp par t) (hin : ∀ a ∈ elems t, h.InHeap a)
    (hcard : (elems t).card < n) :
    findNode size n tp last h = .ok (firstAtLeast h.nodeSize size last t) h := by
  induction t generalizing tp par n last with
  | nil =>
    obtain ⟨n, rfl⟩ := Nat.exists_eq_succ_of_ne_zero (Nat.ne_zero_of_lt hcard)
    have h0 : tp = 0 := hrep
    rw [findNode, if_pos h0]
    rfl
  | node a l r ihl ihr =>
    obtain ⟨n, rfl⟩ := Nat.exists_eq_succ_of_ne_zero (Nat.ne_zero_of_lt hcard)
    obtain ⟨rfl, ha, -, hl, hr⟩ := hrep
    rw [elems_node, card_cons, card_add] at hcard
    rw [findNode, if_neg ha,
      bind_of_ok (checkInHeap_of_inHeap (hin tp (mem_cons_self _ _))), run_get_bind,
      firstAtLeast]
    by_cases hless : h.nodeSize tp < size
    · rw [if_pos hless, if_pos hless]
      exact ihr hr (fun b hb => hin b (mem_cons_of_mem (mem_add.mpr (.inr hb))))
        (by omega)
    · rw [if_neg hless, if_neg hless]
      exact ihl hl (fun b hb => hin b (mem_cons_of_mem (mem_add.mpr (.inl hb))))
        (by omega)

end

end Watz.Ems
