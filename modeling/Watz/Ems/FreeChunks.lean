import Watz.Ems.FreeLists
import Watz.Ems.Tree

/-!
# The free chunks of a heap

A free chunk is in the list of its size or in the tree.  Here the lists and the tree in the memory are
compared with lists of addresses and a search tree.  Unlinking a chunk does in the memory what it
does there.  It changes nothing but the words between the header and the last word of free chunks,
and the pointer to the tree.
-/

namespace Watz.Ems

open Lib SearchTree
open Multiset (card_map filter_le mem_coe mem_cons mem_cons_self nodup_of_le)

/-! ## Lists of chunks -/

/-- A pointer leads to a list of chunks. -/
def ListRep (h : GcHeap) : ℕ → List ℕ → Prop
  | p, [] => p = 0
  | p, a :: l => p = a ∧ a ≠ 0 ∧ ListRep h (h.nextNode a) l

/-- The words with the offsets to the next chunks. -/
def nextWords (l : List ℕ) : Set ℕ := {i | ∃ a ∈ l, a + 4 ≤ i ∧ i < a + 8}

/-- The chunks of a list are different, and those of one heap. -/
structure Listed (h : GcHeap) (l : List ℕ) : Prop where
  nodup : l.Nodup
  apart : ∀ a ∈ l, ∀ b ∈ l, a ≠ b → a + 8 ≤ b ∨ b + 8 ≤ a
  inHeap : ∀ a ∈ l, h.InHeap a

section

variable {h : GcHeap} {l : List ℕ} {p a node next prev n : ℕ}

lemma nextNode_congr {h' : GcHeap} (hm : h'.mem.load (a + 4) 4 = h.mem.load (a + 4) 4) :
    h'.nextNode a = h.nextNode a := by
  have hu : h'.u32 (a + 4) = h.u32 (a + 4) := hm
  rw [GcHeap.nextNode, GcHeap.nextNode, hu]

lemma nextNode_setNextNode
    (hnext : next = 0 ∨ next ≠ node ∧ next < node + 2 ^ 31 ∧ node < next + 2 ^ 31) :
    (h.setNextNode node next).nextNode node = next := by
  rw [GcHeap.setNextNode]
  by_cases h0 : next = 0
  · have hu : (h.setU32 (node + 4) 0).u32 (node + 4) = 0 := Mem.load_store_self (by norm_num)
    rw [if_pos h0, GcHeap.nextNode, if_pos hu, h0]
  · rw [nodeOffset]
    obtain ⟨w, hw⟩ : ∃ w, (((next : ℤ) - node) % 2 ^ 32).toNat = w := ⟨_, rfl⟩
    have hu : (h.setU32 (node + 4) w).u32 (node + 4) = w := Mem.load_store_self (by omega)
    rw [if_neg h0, hw, GcHeap.nextNode, hu]
    split
    · omega
    · split <;> omega

lemma ListRep.congr {h' : GcHeap} (hrep : ListRep h p l)
    (hm : ∀ a ∈ l, h'.mem.load (a + 4) 4 = h.mem.load (a + 4) 4) : ListRep h' p l := by
  induction l generalizing p with
  | nil => exact hrep
  | cons a l ih =>
    obtain ⟨hp, ha, hl⟩ := hrep
    refine ⟨hp, ha, ?_⟩
    rw [nextNode_congr (hm a List.mem_cons_self)]
    exact ih hl fun b hb => hm b (List.mem_cons_of_mem a hb)

lemma Listed.tail (hl : Listed h (a :: l)) : Listed h l :=
  ⟨hl.nodup.of_cons, fun b hb c hc => hl.apart b (List.mem_cons_of_mem a hb) c
    (List.mem_cons_of_mem a hc), fun b hb => hl.inHeap b (List.mem_cons_of_mem a hb)⟩

lemma Listed.apart_head {b : ℕ} (hl : Listed h (a :: l)) (hb : b ∈ l) : a + 8 ≤ b ∨ b + 8 ≤ a := by
  refine hl.apart a List.mem_cons_self b (List.mem_cons_of_mem a hb) ?_
  rintro rfl
  exact (List.nodup_cons.mp hl.nodup).1 hb

lemma ListRep.near (hrep : ListRep h p l) (hl : Listed h (a :: l)) (hsize : h.currentSize < 2 ^ 30) :
    p = 0 ∨ p ≠ a ∧ p < a + 2 ^ 31 ∧ a < p + 2 ^ 31 := by
  cases l with
  | nil => exact .inl hrep
  | cons b l =>
    obtain ⟨rfl, -, -⟩ := hrep
    have hapart := hl.apart_head List.mem_cons_self
    obtain ⟨h₁, h₂⟩ := hl.inHeap a List.mem_cons_self
    obtain ⟨h₃, h₄⟩ := hl.inHeap p (List.mem_cons_of_mem a List.mem_cons_self)
    rw [GcHeap.endAddr] at h₂ h₄
    exact .inr ⟨by omega, by omega, by omega⟩

lemma ListRep.setNextNode (hrep : ListRep h p l) (hl : Listed h (a :: l)) :
    ListRep (h.setNextNode a next) p l := by
  refine hrep.congr fun b hb => Mem.load_store_of_disjoint ?_
  have := hl.apart_head hb
  omega

lemma sameOutside_setNextNode :
    Mem.SameOutside (Mem.range (a + 4) 4) h.mem (h.setNextNode a next).mem := by
  rw [GcHeap.setNextNode, GcHeap.setU32]
  exact Mem.sameOutside_store

lemma nextWords_mono {l l' : List ℕ} (hl : l ⊆ l') : nextWords l ⊆ nextWords l' := by
  rintro i ⟨a, ha, hi⟩
  exact ⟨a, hl ha, hi⟩

lemma unlinkNormal_behind (idx : ℕ) (hrep : ListRep h (h.nextNode prev) l) (hl : Listed h (prev :: l))
    (hprev : prev ≠ 0) (ha : a ∈ l) (hsize : h.currentSize < 2 ^ 30) (hlen : l.length ≤ n) :
    ∃ m', unlinkNormal idx a n prev (h.nextNode prev) h = .ok () { h with mem := m' }
      ∧ Mem.SameOutside (nextWords (prev :: l)) h.mem m'
      ∧ ListRep { h with mem := m' } (GcHeap.nextNode { h with mem := m' } prev) (l.erase a) := by
  induction l generalizing prev n with
  | nil => exact absurd ha List.not_mem_nil
  | cons b l ih =>
    obtain ⟨n, rfl⟩ : ∃ k, n = k + 1 := ⟨n - 1, by simp only [List.length_cons] at hlen; omega⟩
    obtain ⟨hb, hb0, hrest⟩ := hrep
    have hsub : prev :: l ⊆ prev :: b :: l := List.cons_subset_cons prev (List.subset_cons_self b l)
    have hbin : h.InHeap b := hl.inHeap b (List.mem_cons_of_mem prev List.mem_cons_self)
    rw [hb, unlinkNormal, if_neg hb0, bind_of_ok (checkInHeap_of_inHeap hbin), run_get_bind]
    by_cases hab : b = a
    · subst hab
      have hl' : Listed h (prev :: l) := by
        refine ⟨?_, fun x hx y hy => hl.apart x (hsub hx) y (hsub hy), fun x hx => hl.inHeap x (hsub hx)⟩
        exact hl.nodup.sublist ((List.sublist_cons_self b l).cons_cons prev)
      refine ⟨(h.setNextNode prev (h.nextNode b)).mem, ?_, ?_, ?_⟩
      · rw [if_pos rfl, run_modify, if_neg hprev]
        rfl
      · refine sameOutside_setNextNode.mono ?_
        rintro i ⟨h₁, h₂⟩
        exact ⟨prev, List.mem_cons_self, by omega, by omega⟩
      · rw [List.erase_cons_head]
        change ListRep (h.setNextNode prev (h.nextNode b))
          ((h.setNextNode prev (h.nextNode b)).nextNode prev) l
        rw [nextNode_setNextNode (hrest.near hl' hsize)]
        exact hrest.setNextNode hl'
    · have hal : a ∈ l := (List.mem_cons.mp ha).resolve_left fun heq => hab heq.symm
      obtain ⟨m', hrun, hsame, hrep'⟩ := ih hrest hl.tail hb0 hal
        (by simpa only [List.length_cons, Nat.add_le_add_iff_right] using hlen)
      refine ⟨m', by rw [if_neg hab, hrun], hsame.mono (nextWords_mono (by simp)), ?_⟩
      rw [List.erase_cons_tail (by simpa using hab)]
      refine ⟨?_, hb0, hrep'⟩
      rw [← hb]
      refine nextNode_congr (hsame.load ?_)
      rintro i ⟨x, hx, hi⟩
      have := hl.apart_head hx
      omega

lemma unlinkNormal_spec (idx : ℕ) (hrep : ListRep h (h.kfcNormalList idx) l) (hl : Listed h l) (ha : a ∈ l)
    (hsize : h.currentSize < 2 ^ 30) (hlen : l.length ≤ n) :
    ∃ m' p', unlinkNormal idx a n 0 (h.kfcNormalList idx) h
        = .ok () (GcHeap.setNormalList { h with mem := m' } idx p')
      ∧ Mem.SameOutside (nextWords l) h.mem m' ∧ ListRep { h with mem := m' } p' (l.erase a) := by
  cases l with
  | nil => exact absurd ha List.not_mem_nil
  | cons b l =>
    obtain ⟨n, rfl⟩ : ∃ k, n = k + 1 := ⟨n - 1, by simp only [List.length_cons] at hlen; omega⟩
    obtain ⟨hb, hb0, hrest⟩ := hrep
    rw [hb, unlinkNormal, if_neg hb0,
      bind_of_ok (checkInHeap_of_inHeap (hl.inHeap b List.mem_cons_self)), run_get_bind]
    by_cases hab : b = a
    · subst hab
      refine ⟨h.mem, h.nextNode b, ?_, Mem.SameOutside.refl _ _, ?_⟩
      · rw [if_pos rfl, run_modify, if_pos rfl]
      · rw [List.erase_cons_head]
        exact hrest
    · have hal : a ∈ l := (List.mem_cons.mp ha).resolve_left fun heq => hab heq.symm
      obtain ⟨m', hrun, hsame, hrep'⟩ := unlinkNormal_behind idx hrest hl hb0 hal hsize
        (by simpa only [List.length_cons, Nat.add_le_add_iff_right] using hlen)
      refine ⟨m', b, ?_, hsame, ?_⟩
      · rw [if_neg hab, hrun, GcHeap.setNormalList, ← hb, Function.update_eq_self]
      · rw [List.erase_cons_tail (by simpa using hab)]
        exact ⟨rfl, hb0, hrep'⟩

end

/-! ## Free chunks -/

/-- The addresses of the chunks in the tree. -/
def nodes (S : Multiset (ℕ × ℕ)) : Multiset ℕ := (large S).map Prod.fst

/-- What is between the headers and the last words of free chunks. -/
def interior (S : Multiset (ℕ × ℕ)) : Set ℕ := {i | ∃ c ∈ S, c.1 + 4 ≤ i ∧ i + 4 < c.1 + c.2}

/-- What lists and tree may use of the memory. -/
def scratch (h : GcHeap) (S : Multiset (ℕ × ℕ)) : Set ℕ :=
  Mem.range (h.rootAddr + 16) 8 ∪ interior S

/-- A heap in the address space, with the node at the root of the tree outside of it. -/
structure HeapOk (h : GcHeap) : Prop where
  base_mod : h.baseAddr % 8 = 4
  size_mod : h.currentSize % 8 = 0
  size_pos : 0 < h.currentSize
  size_lt : h.currentSize < 2 ^ 30
  end_le : h.endAddr ≤ 2 ^ 64
  root_le : h.rootAddr + 32 ≤ 2 ^ 64
  root_apart : h.rootAddr + 32 ≤ h.baseAddr ∨ h.endAddr ≤ h.rootAddr

/-- Chunks of a heap that do not overlap, with their addresses and sizes. -/
structure Spaced (h : GcHeap) (S : Multiset (ℕ × ℕ)) : Prop where
  nodup : S.Nodup
  lo : ∀ c ∈ S, h.baseAddr ≤ c.1
  hi : ∀ c ∈ S, c.1 + c.2 ≤ h.endAddr
  addr_mod : ∀ c ∈ S, c.1 % 8 = 4
  size_mod : ∀ c ∈ S, c.2 % 8 = 0
  smallest : ∀ c ∈ S, gcSmallestSize ≤ c.2
  apart : ∀ c ∈ S, ∀ d ∈ S, c ≠ d → c.1 + c.2 ≤ d.1 ∨ d.1 + d.2 ≤ c.1

/-- The free chunks of a heap are in its lists and its tree, and each has its size in its last word.
The chunk with which the heap begins does not have it; `stamped` says that there is no such chunk
any more. -/
structure FreeRep (stamped : Prop) (h : GcHeap) (F : FreeLists) (S : Multiset (ℕ × ℕ)) : Prop
    extends Spaced h S where
  holds : F.Holds S
  lists : ∀ i, ListRep h (h.kfcNormalList i) (F.lists i)
  tree : TreeRep h.mem (h.right h.rootAddr) h.rootAddr (F.tree.map Prod.fst)
  nodeSize : ∀ c ∈ S, hmuFcNormalMaxSize ≤ c.2 → h.nodeSize c.1 = c.2
  lastWord : ∀ c ∈ S, c.1 + c.2 ≠ h.endAddr ∨ stamped → h.u32 (c.1 + c.2 - 4) = c.2
  root : h.nodeSize h.rootAddr < hmuFcNormalMaxSize

section

variable {h : GcHeap} {S S' : Multiset (ℕ × ℕ)} {c d : ℕ × ℕ} {a i sz : ℕ}

lemma mem_nodes : a ∈ nodes S ↔ ∃ sz, (a, sz) ∈ S ∧ hmuFcNormalMaxSize ≤ sz := by
  simp only [nodes, Multiset.mem_map, mem_large, Prod.exists, exists_and_right, exists_eq_right]

lemma nodes_cons_of_large (h : hmuFcNormalMaxSize ≤ sz) : nodes ((a, sz) ::ₘ S) = a ::ₘ nodes S := by
  rw [nodes, large_cons_of_large h, Multiset.map_cons, nodes]

lemma interior_mono (hle : S ≤ S') : interior S ⊆ interior S' := by
  rintro i ⟨c, hc, hi⟩
  exact ⟨c, Multiset.mem_of_le hle hc, hi⟩

lemma HeapOk.root_notInHeap (hok : HeapOk h) : ¬ h.InHeap h.rootAddr := by
  rintro ⟨h₁, h₂⟩
  have := hok.root_apart
  omega

namespace Spaced

lemma of_le (hS : Spaced h S') (hle : S ≤ S') : Spaced h S :=
  have hsub : ∀ c ∈ S, c ∈ S' := fun _ hc => Multiset.mem_of_le hle hc
  ⟨nodup_of_le hle hS.nodup, fun c hc => hS.lo c (hsub c hc),
    fun c hc => hS.hi c (hsub c hc), fun c hc => hS.addr_mod c (hsub c hc),
    fun c hc => hS.size_mod c (hsub c hc), fun c hc => hS.smallest c (hsub c hc),
    fun c hc d hd => hS.apart c (hsub c hc) d (hsub d hd)⟩

lemma apart_of_addr (hS : Spaced h S) (hc : c ∈ S) (hd : d ∈ S) (hne : c.1 ≠ d.1) :
    c.1 + c.2 ≤ d.1 ∨ d.1 + d.2 ≤ c.1 := hS.apart c hc d hd fun heq => hne (heq ▸ rfl)

lemma size_eq {sz' : ℕ} (hS : Spaced h S) (h₁ : (a, sz) ∈ S) (h₂ : (a, sz') ∈ S) : sz = sz' := by
  by_contra hne
  have h16 := hS.smallest _ h₁
  have h16' := hS.smallest _ h₂
  have := hS.apart _ h₁ _ h₂ fun heq => hne (Prod.ext_iff.mp heq).2
  simp only [gcSmallestSize] at *
  omega

lemma inHeap (hS : Spaced h S) (hc : c ∈ S) : h.InHeap c.1 := by
  have h₁ := hS.hi c hc
  have h₂ := hS.smallest c hc
  rw [gcSmallestSize] at h₂
  exact ⟨hS.lo c hc, by omega⟩

lemma addrs_nodup (hS : Spaced h S) : (S.map Prod.fst).Nodup := by
  refine Multiset.Nodup.map_on ?_ hS.nodup
  rintro ⟨x, sx⟩ hx ⟨y, sy⟩ hy rfl
  rw [hS.size_eq hx hy]

lemma card_lt (hok : HeapOk h) (hS : Spaced h S) : S.card < h.currentSize := by
  -- the last byte of the heap is not the first one of a chunk
  have hsub : (S.map Prod.fst).toFinset ⊆ Finset.Ico h.baseAddr (h.endAddr - 1) := by
    intro x hx
    obtain ⟨c, hc, rfl⟩ := Multiset.mem_map.mp (Multiset.mem_toFinset.mp hx)
    have h₁ := hS.hi c hc
    have h₂ := hS.smallest c hc
    rw [gcSmallestSize] at h₂
    exact Finset.mem_Ico.mpr ⟨hS.lo c hc, by omega⟩
  have hcard := Finset.card_le_card hsub
  have hpos := hok.size_pos
  rw [Multiset.toFinset_card_of_nodup hS.addrs_nodup, card_map, Nat.card_Ico,
    GcHeap.endAddr] at hcard
  omega

lemma listed {l : List ℕ} (hS : Spaced h S) (hl : (l : Multiset ℕ) = bin i S) : Listed h l := by
  have hmem : ∀ x ∈ l, (x, 8 * i) ∈ S := fun x hx =>
    (mem_bin.mp (hl ▸ mem_coe.mpr hx)).1
  refine ⟨?_, fun x hx y hy hne => ?_, fun x hx => hS.inHeap (hmem x hx)⟩
  · have hle : bin i S ≤ S.map Prod.fst := Multiset.map_le_map (filter_le _ _)
    rw [← Multiset.coe_nodup, hl]
    exact nodup_of_le hle hS.addrs_nodup
  · have h₁ := hS.apart_of_addr (hmem x hx) (hmem y hy) hne
    have h₂ := hS.smallest _ (hmem x hx)
    simp only [gcSmallestSize] at h₁ h₂
    omega

lemma length_le {l : List ℕ} (hok : HeapOk h) (hS : Spaced h S)
    (hl : (l : Multiset ℕ) = bin i S) : l.length ≤ h.currentSize := by
  rw [← Multiset.coe_card, hl, bin, card_map]
  exact (Multiset.card_le_card (filter_le _ _)).trans (hS.card_lt hok).le

lemma card_nodes_lt (hok : HeapOk h) (hS : Spaced h S) : (nodes S).card < h.currentSize := by
  rw [nodes, card_map]
  exact (Multiset.card_le_card (filter_le _ _)).trans_lt (hS.card_lt hok)

lemma spread (hok : HeapOk h) (hS : Spaced h S) : Spread (h.rootAddr ::ₘ nodes S) := by
  have hroot : ∀ y ∈ nodes S, h.rootAddr + 32 ≤ y ∨ y + 32 ≤ h.rootAddr := by
    intro y hy
    obtain ⟨sy, hyS, hsy⟩ := mem_nodes.mp hy
    have h₁ := hS.lo _ hyS
    have h₂ := hS.hi _ hyS
    have h₃ := hok.root_apart
    simp only [hmuFcNormalMaxSize] at h₁ h₂ hsy
    omega
  refine ⟨Multiset.nodup_cons.mpr ⟨fun hmem => ?_, ?_⟩, fun x hx y hy hne => ?_⟩
  · have := hroot _ hmem
    omega
  · have hle : nodes S ≤ S.map Prod.fst := Multiset.map_le_map (filter_le _ _)
    exact nodup_of_le hle hS.addrs_nodup
  · rcases mem_cons.mp hx with rfl | hx
    · rcases mem_cons.mp hy with rfl | hy
      · exact absurd rfl hne
      · exact hroot y hy
    · rcases mem_cons.mp hy with rfl | hy
      · exact (hroot x hx).symm
      · obtain ⟨sx, hxS, hsx⟩ := mem_nodes.mp hx
        obtain ⟨sy, hyS, hsy⟩ := mem_nodes.mp hy
        have := hS.apart_of_addr hxS hyS hne
        simp only [hmuFcNormalMaxSize] at this hsx hsy
        omega

lemma tree_subset (S : Multiset (ℕ × ℕ)) :
    Mem.range (h.rootAddr + 16) 8 ∪ links (nodes S) ⊆ scratch h S := by
  refine Set.union_subset_union_right _ ?_
  rintro i ⟨y, hy, hlo, hhi⟩
  obtain ⟨sy, hyS, hsy⟩ := mem_nodes.mp hy
  rw [hmuFcNormalMaxSize] at hsy
  exact ⟨(y, sy), hyS, by dsimp only; omega, by dsimp only; omega⟩

lemma list_subset {l : List ℕ} (hS : Spaced h S) (hl : (l : Multiset ℕ) = bin i S) :
    nextWords l ⊆ scratch h S := by
  rintro j ⟨y, hy, hlo, hhi⟩
  obtain ⟨hyS, -⟩ := mem_bin.mp (hl ▸ mem_coe.mpr hy)
  have h16 := hS.smallest _ hyS
  rw [gcSmallestSize] at h16
  exact .inr ⟨(y, 8 * i), hyS, hlo, by dsimp only at *; omega⟩

lemma tree_bytes {j : ℕ} (hok : HeapOk h) (hS : Spaced h S) (hc : c ∈ S)
    (hj : j ∈ Mem.range (h.rootAddr + 16) 8 ∪ links (nodes S)) :
    j < c.1 ∨ c.1 + c.2 ≤ j ∨ hmuFcNormalMaxSize ≤ c.2 ∧ c.1 + 8 ≤ j ∧ j < c.1 + 32 := by
  have h₁ := hS.lo c hc
  have h₂ := hS.hi c hc
  rcases hj with ⟨hlo, hhi⟩ | ⟨y, hy, hlo, hhi⟩
  · have := hok.root_apart
    omega
  · obtain ⟨sy, hyS, hsy⟩ := mem_nodes.mp hy
    by_cases heq : c.1 = y
    · obtain rfl : c = (y, sy) := Prod.ext heq (hS.size_eq (heq ▸ hc : (y, c.2) ∈ S) hyS)
      exact .inr (.inr ⟨hsy, hlo, hhi⟩)
    · have := hS.apart_of_addr hc hyS heq
      simp only [hmuFcNormalMaxSize] at this hsy
      omega

lemma list_bytes {j : ℕ} {l : List ℕ} (hS : Spaced h S) (hl : (l : Multiset ℕ) = bin i S)
    (hc : c ∈ S) (hj : j ∈ nextWords l) :
    j < c.1 ∨ c.1 + c.2 ≤ j
      ∨ (c.2 = 8 * i ∧ c.2 < hmuFcNormalMaxSize) ∧ c.1 + 4 ≤ j ∧ j < c.1 + 8 := by
  obtain ⟨y, hy, hlo, hhi⟩ := hj
  obtain ⟨hyS, hlt⟩ := mem_bin.mp (hl ▸ mem_coe.mpr hy)
  by_cases heq : c.1 = y
  · obtain rfl : c = (y, 8 * i) := Prod.ext heq (hS.size_eq (heq ▸ hc : (y, c.2) ∈ S) hyS)
    exact .inr (.inr ⟨⟨rfl, hlt⟩, hlo, hhi⟩)
  · have h₁ := hS.apart_of_addr hc hyS heq
    have h₂ := hS.smallest _ hyS
    simp only [gcSmallestSize] at h₁ h₂
    omega

/-- What lists and tree may use, seen from a chunk: it is outside, or between its header and its last
word. -/
lemma scratch_bytes {j : ℕ} (hok : HeapOk h) (hS : Spaced h S) (hc : c ∈ S)
    (hj : j ∈ scratch h S) : j < c.1 ∨ c.1 + c.2 ≤ j ∨ c.1 + 4 ≤ j ∧ j + 4 < c.1 + c.2 := by
  have h₁ := hS.lo c hc
  have h₂ := hS.hi c hc
  rcases hj with ⟨hlo, hhi⟩ | ⟨d, hd, hlo, hhi⟩
  · have := hok.root_apart
    omega
  · by_cases heq : c = d
    · subst heq
      exact .inr (.inr ⟨hlo, hhi⟩)
    · have := hS.apart c hc d hd heq
      omega

lemma scratch_root {j : ℕ} (hok : HeapOk h) (hS : Spaced h S) (hj : j ∈ scratch h S) :
    j < h.rootAddr ∨ h.rootAddr + 16 ≤ j := by
  rcases hj with ⟨hlo, hhi⟩ | ⟨d, hd, hlo, hhi⟩
  · exact .inr hlo
  · have h₁ := hS.lo d hd
    have h₂ := hS.hi d hd
    have := hok.root_apart
    omega

end Spaced

end

/-! ## What the functions on free chunks change -/

/-- A heap after some bytes of its memory have been changed, and maybe its lists. -/
structure Changed (R : Set ℕ) (h h' : GcHeap) : Prop where
  heapId : h'.heapId = h.heapId
  base : h'.baseAddr = h.baseAddr
  size : h'.currentSize = h.currentSize
  sound : h'.isHeapCorrupted = h.isHeapCorrupted
  total : h'.totalFreeSize = h.totalFreeSize
  high : h'.highmarkSize = h.highmarkSize
  mem : Mem.SameOutside R h.mem h'.mem

namespace Changed

variable {R R' : Set ℕ} {h h' h'' : GcHeap} {S : Multiset (ℕ × ℕ)}

lemma of_mem {m' : Mem} (hm : Mem.SameOutside R h.mem m') : Changed R h { h with mem := m' } :=
  ⟨rfl, rfl, rfl, rfl, rfl, rfl, hm⟩

variable (h₁ : Changed R h h')

include h₁

lemma trans (h₂ : Changed R h' h'') : Changed R h h'' :=
  ⟨h₂.heapId.trans h₁.heapId, h₂.base.trans h₁.base, h₂.size.trans h₁.size,
    h₂.sound.trans h₁.sound, h₂.total.trans h₁.total, h₂.high.trans h₁.high, h₁.mem.trans h₂.mem⟩

lemma mono (hR : R ⊆ R') : Changed R' h h' :=
  ⟨h₁.heapId, h₁.base, h₁.size, h₁.sound, h₁.total, h₁.high, h₁.mem.mono hR⟩

lemma endAddr : h'.endAddr = h.endAddr := by
  rw [GcHeap.endAddr, GcHeap.endAddr, h₁.base, h₁.size]

lemma rootAddr : h'.rootAddr = h.rootAddr := by
  rw [GcHeap.rootAddr, GcHeap.rootAddr, h₁.heapId]

lemma inHeap_iff (a : ℕ) : h'.InHeap a ↔ h.InHeap a := by
  rw [GcHeap.InHeap, GcHeap.InHeap, h₁.base, h₁.endAddr]

lemma heapOk (hok : HeapOk h) : HeapOk h' := by
  obtain ⟨h1, h2, h3, h4, h5, h6, h7⟩ := hok
  refine ⟨?_, ?_, ?_, ?_, ?_, ?_, ?_⟩ <;> simp only [h₁.base, h₁.size, h₁.rootAddr, h₁.endAddr] <;>
    assumption

lemma spaced (hS : Spaced h S) : Spaced h' S :=
  ⟨hS.nodup, fun c hc => h₁.base ▸ hS.lo c hc, fun c hc => h₁.endAddr ▸ hS.hi c hc, hS.addr_mod,
    hS.size_mod, hS.smallest, hS.apart⟩

lemma scratch_eq (S : Multiset (ℕ × ℕ)) : scratch h' S = scratch h S := by
  rw [scratch, scratch, h₁.rootAddr]

end Changed

section

variable {T : Prop} {h h' : GcHeap} {F : FreeLists} {S : Multiset (ℕ × ℕ)} {R : Set ℕ} {a sz i : ℕ}

lemma changed_setNextNode (h : GcHeap) (a next : ℕ) :
    Changed (Mem.range (a + 4) 4) h (h.setNextNode a next) :=
  ⟨rfl, rfl, rfl, rfl, rfl, rfl, sameOutside_setNextNode⟩

lemma mem_lists (hF : F.Holds S) (ha : a ∈ F.lists i) :
    (a, 8 * i) ∈ S ∧ 8 * i < hmuFcNormalMaxSize := by
  rw [← mem_coe, hF.lists] at ha
  exact mem_bin.mp ha

lemma elems_nodes (hF : F.Holds S) : elems (F.tree.map Prod.fst) = nodes S := by
  rw [elems_map, hF.tree, nodes]

lemma FreeRep.frame (hrep : FreeRep T h F S) (hc : Changed R h h')
    (hlists : h'.kfcNormalList = h.kfcNormalList)
    (hR : ∀ c ∈ S, ∀ j ∈ R, j < c.1 + 4 ∨ c.1 + c.2 ≤ j)
    (hroot : ∀ j ∈ R, j < h.rootAddr ∨ h.rootAddr + 32 ≤ j) : FreeRep T h' F S := by
  have hS := hrep.toSpaced
  have hnode : ∀ c ∈ S, h'.mem.load (c.1 + 4) 4 = h.mem.load (c.1 + 4) 4 := by
    intro c hcS
    have h16 := hS.smallest c hcS
    rw [gcSmallestSize] at h16
    refine hc.mem.load fun j hj => ?_
    have := hR c hcS j hj
    omega
  refine ⟨hc.spaced hS, hrep.holds, fun i => ?_, ?_, ?_, ?_, ?_⟩
  · rw [hlists]
    exact (hrep.lists i).congr fun b hb => hnode _ (mem_lists hrep.holds hb).1
  · have hptr : h'.right h'.rootAddr = h.right h.rootAddr := by
      rw [hc.rootAddr]
      refine hc.mem.load fun j hj => ?_
      have := hroot j hj
      omega
    rw [hptr, hc.rootAddr]
    refine hrep.tree.congr fun x hx j hlo hhi => hc.mem j fun hj => ?_
    obtain ⟨sx, hxS, hsx⟩ := mem_nodes.mp (elems_nodes hrep.holds ▸ hx)
    have := hR _ hxS j hj
    rw [hmuFcNormalMaxSize] at hsx
    dsimp only at this
    omega
  · intro c hcS hlt
    exact (hnode c hcS).trans (hrep.nodeSize c hcS hlt)
  · intro c hcS hend
    rw [hc.endAddr] at hend
    have h16 := hS.smallest c hcS
    rw [gcSmallestSize] at h16
    refine Eq.trans (hc.mem.load fun j hj => ?_) (hrep.lastWord c hcS hend)
    have := hR c hcS j hj
    omega
  · have hptr : h'.nodeSize h'.rootAddr = h.nodeSize h.rootAddr := by
      rw [hc.rootAddr]
      refine hc.mem.load fun j hj => ?_
      have := hroot j hj
      omega
    rw [hptr]
    exact hrep.root

/-- A heap without free chunks has none that lacks its last word. -/
lemma FreeRep.stamped_of_zero (hrep : FreeRep T h F S) : FreeRep (T ∨ S = 0) h F S := by
  refine ⟨hrep.toSpaced, hrep.holds, hrep.lists, hrep.tree, hrep.nodeSize, fun c hc hend => ?_,
    hrep.root⟩
  refine hrep.lastWord c hc (hend.imp_right fun hT => hT.resolve_right ?_)
  rintro rfl
  exact absurd hc (Multiset.notMem_zero c)

lemma FreeRep.hangs (hok : HeapOk h) (hrep : FreeRep T h F S) :
    Hangs h (h.rootAddr + 16) h.rootAddr (F.tree.map Prod.fst) := by
  have hnodes := elems_nodes hrep.holds
  refine ⟨hrep.tree, .inl rfl, hnodes ▸ hrep.toSpaced.spread hok, fun x hx => ?_,
    hok.root_notInHeap, ?_, .inl rfl⟩
  · obtain ⟨sx, hxS, -⟩ := mem_nodes.mp (hnodes ▸ hx)
    exact hrep.toSpaced.inHeap hxS
  · rw [GcHeap.rootAddr, kfcTreeRoot]
    omega

/-- What is not changed by a change of lists and tree: the last words, and the size of the root. -/
lemma scratch_frame (h' : GcHeap) (hok : HeapOk h) (hS : Spaced h S)
    (hm : Mem.SameOutside (scratch h S) h.mem h'.mem) :
    (∀ c ∈ S, h'.u32 (c.1 + c.2 - 4) = h.u32 (c.1 + c.2 - 4))
      ∧ h'.nodeSize h.rootAddr = h.nodeSize h.rootAddr := by
  constructor
  · intro c hc
    have h16 := hS.smallest c hc
    rw [gcSmallestSize] at h16
    refine hm.load fun j hj => ?_
    have := hS.scratch_bytes hok hc hj
    omega
  · refine hm.load fun j hj => ?_
    have := hS.scratch_root hok hj
    omega

lemma tree_frame {m' : Mem} (hok : HeapOk h) (hS : Spaced h S)
    (hm : Mem.SameOutside (Mem.range (h.rootAddr + 16) 8 ∪ links (nodes S)) h.mem m') :
    ∀ c ∈ S, m'.load (c.1 + 4) 4 = h.mem.load (c.1 + 4) 4 := by
  intro c hc
  have h16 := hS.smallest c hc
  rw [gcSmallestSize] at h16
  refine hm.load fun j hj => ?_
  have := hS.tree_bytes hok hc hj
  omega

/-! ## Taking a chunk -/

lemma removeTree_spec (hok : HeapOk h) (hrep : FreeRep T h F ((a, sz) ::ₘ S))
    (hlarge : hmuFcNormalMaxSize ≤ sz) :
    ∃ h', removeTreeNode h.currentSize a h = .ok () h'
      ∧ Changed (scratch h ((a, sz) ::ₘ S)) h h' ∧ FreeRep T h' (F.unlink (a, sz)) S
      ∧ h'.nodeSize a = sz := by
  have hS := hrep.toSpaced
  have hmem : (a, sz) ∈ (a, sz) ::ₘ S := mem_cons_self _ _
  have hsub : ∀ c ∈ S, c ∈ (a, sz) ::ₘ S := fun c hc => Multiset.mem_cons_of_mem hc
  have hnodes := elems_nodes hrep.holds
  have hhangs := hrep.hangs hok
  have hat : a ∈ elems (F.tree.map Prod.fst) := by
    rw [hnodes, nodes_cons_of_large hlarge]
    exact mem_cons_self _ _
  obtain ⟨n, hn⟩ : ∃ n, h.currentSize = n + 2 := by
    have h₁ := hS.lo _ hmem
    have h₂ := hS.hi _ hmem
    rw [hmuFcNormalMaxSize] at hlarge
    rw [GcHeap.endAddr] at h₂
    exact ⟨h.currentSize - 2, by omega⟩
  obtain ⟨m', hrun, hsame, htree⟩ := removeTreeNode_spec (n := n) hhangs hat
    (hnodes ▸ (hS.card_nodes_lt hok).le)
  rw [hnodes] at hsame
  have hnode := tree_frame hok hS hsame
  have hscratch := hsame.mono (Spaced.tree_subset _)
  obtain ⟨hlast, hroot⟩ := scratch_frame { h with mem := m' } hok hS hscratch
  -- the addresses of the tree determine its chunks
  have hmap : (remove (a, sz) F.tree).map Prod.fst = remove a (F.tree.map Prod.fst) := by
    refine map_remove ?_
    rintro ⟨x, sx⟩ hx rfl
    have hxS : (x, sx) ∈ (x, sz) ::ₘ S := (mem_large.mp (hrep.holds.tree ▸ hx)).1
    rw [hS.size_eq hxS hmem]
  have hholds := hrep.holds.unlink (hS.size_mod _ hmem) hS.nodup
  rw [FreeLists.unlink_large hlarge] at hholds ⊢
  refine ⟨{ h with mem := m' }, hn ▸ hrun, .of_mem hscratch, ⟨?_, hholds, ?_, ?_, ?_, ?_, ?_⟩, ?_⟩
  · exact (Changed.of_mem hscratch).spaced (hS.of_le (Multiset.le_cons_self _ _))
  · exact fun i => (hrep.lists i).congr fun b hb => hnode _ (mem_lists hrep.holds hb).1
  · change TreeRep m' (m'.load (h.rootAddr + 16) 8) h.rootAddr
      ((remove (a, sz) F.tree).map Prod.fst)
    rw [hmap]
    exact htree
  · intro c hc hlt
    exact (hnode c (hsub c hc)).trans (hrep.nodeSize c (hsub c hc) hlt)
  · intro c hc hend
    exact (hlast c (hsub c hc)).trans (hrep.lastWord c (hsub c hc) hend)
  · exact hroot.symm ▸ hrep.root
  · exact (hnode _ hmem).trans (hrep.nodeSize _ hmem hlarge)

lemma FreeRep.of_list {m' : Mem} {p : ℕ} (hok : HeapOk h)
    (hrep : FreeRep T h F ((a, 8 * i) ::ₘ S)) (hlt : 8 * i < hmuFcNormalMaxSize)
    (hm : Mem.SameOutside (nextWords (F.lists i)) h.mem m')
    (hp : ListRep { h with mem := m' } p ((F.lists i).erase a)) :
    Changed (scratch h ((a, 8 * i) ::ₘ S)) h (GcHeap.setNormalList { h with mem := m' } i p)
      ∧ FreeRep T (GcHeap.setNormalList { h with mem := m' } i p) (F.unlink (a, 8 * i)) S := by
  have hS := hrep.toSpaced
  have hmem : (a, 8 * i) ∈ (a, 8 * i) ::ₘ S := mem_cons_self _ _
  have hsub : ∀ c ∈ S, c ∈ (a, 8 * i) ::ₘ S := fun c hc => Multiset.mem_cons_of_mem hc
  have hl := hrep.holds.lists i
  have hscratch := hm.mono (hS.list_subset hl)
  have hchanged : Changed (scratch h ((a, 8 * i) ::ₘ S)) h
      (GcHeap.setNormalList { h with mem := m' } i p) := ⟨rfl, rfl, rfl, rfl, rfl, rfl, hscratch⟩
  obtain ⟨hlast, hroot⟩ :=
    scratch_frame (GcHeap.setNormalList { h with mem := m' } i p) hok hS hscratch
  -- the words of a chunk of another size are the same
  have hother : ∀ c ∈ (a, 8 * i) ::ₘ S, ¬ (c.2 = 8 * i ∧ c.2 < hmuFcNormalMaxSize) →
      ∀ off k, off + k ≤ c.2 → m'.load (c.1 + off) k = h.mem.load (c.1 + off) k := by
    intro c hc hne off k hle
    refine hm.load fun j hj => ?_
    have := hS.list_bytes hl hc hj
    omega
  have hholds := hrep.holds.unlink (hS.size_mod _ hmem) hS.nodup
  rw [FreeLists.unlink_small hlt] at hholds ⊢
  refine ⟨hchanged, ?_, hholds, ?_, ?_, ?_, ?_, ?_⟩
  · exact hchanged.spaced (hS.of_le (Multiset.le_cons_self _ _))
  · intro k
    by_cases hk : k = i
    · subst hk
      have hhead : (GcHeap.setNormalList { h with mem := m' } k p).kfcNormalList k = p :=
        Function.update_self _ _ _
      rw [hhead]
      dsimp only
      rw [Function.update_self]
      exact hp.congr fun _ _ => rfl
    · have hhead : (GcHeap.setNormalList { h with mem := m' } i p).kfcNormalList k
          = h.kfcNormalList k := Function.update_of_ne hk _ _
      rw [hhead]
      dsimp only
      rw [Function.update_of_ne hk]
      refine (hrep.lists k).congr fun b hb => ?_
      obtain ⟨hbS, -⟩ := mem_lists hrep.holds hb
      have h16 := hS.smallest _ hbS
      rw [gcSmallestSize] at h16
      exact hother _ hbS (fun hsz => hk (by omega)) 4 4 (by dsimp only at *; omega)
  · have hptr : m'.load (h.rootAddr + 16) 8 = h.mem.load (h.rootAddr + 16) 8 := by
      refine hm.load ?_
      rintro j ⟨y, hy, hlo, hhi⟩
      obtain ⟨hyS, -⟩ := mem_lists hrep.holds hy
      have h₁ := hS.lo _ hyS
      have h₂ := hS.hi _ hyS
      have h₃ := hS.smallest _ hyS
      have h₄ := hok.root_apart
      rw [gcSmallestSize] at h₃
      dsimp only at h₁ h₂ h₃
      omega
    change TreeRep m' (m'.load (h.rootAddr + 16) 8) h.rootAddr (F.tree.map Prod.fst)
    rw [hptr]
    refine hrep.tree.congr fun x hx j hlo hhi => hm j fun hj => ?_
    obtain ⟨sx, hxS, hsx⟩ := mem_nodes.mp (elems_nodes hrep.holds ▸ hx)
    have := hS.list_bytes hl hxS hj
    rw [hmuFcNormalMaxSize] at this hsx
    dsimp only at this
    omega
  · intro c hc hlarge
    have h16 := hS.smallest c (hsub c hc)
    rw [gcSmallestSize] at h16
    refine Eq.trans ?_ (hrep.nodeSize c (hsub c hc) hlarge)
    exact hother c (hsub c hc) (fun hsz => absurd hsz.2 (not_lt.mpr hlarge)) 4 4 (by omega)
  · intro c hc hend
    exact (hlast c (hsub c hc)).trans (hrep.lastWord c (hsub c hc) hend)
  · exact hroot.symm ▸ hrep.root

lemma popNormal_spec {l : List ℕ} (hok : HeapOk h) (hrep : FreeRep T h F ((a, 8 * i) ::ₘ S))
    (hl : F.lists i = a :: l) :
    h.kfcNormalList i = a
      ∧ Changed (scratch h ((a, 8 * i) ::ₘ S)) h (h.setNormalList i (h.nextNode a))
      ∧ FreeRep T (h.setNormalList i (h.nextNode a)) (F.unlink (a, 8 * i)) S := by
  obtain ⟨-, hlt⟩ := mem_lists hrep.holds (hl ▸ List.mem_cons_self : a ∈ F.lists i)
  have hlist := hrep.lists i
  rw [hl] at hlist
  obtain ⟨hhead, -, hrest⟩ := hlist
  refine ⟨hhead, hrep.of_list hok hlt (Mem.SameOutside.refl _ _) ?_⟩
  rw [hl, List.erase_cons_head]
  exact hrest

lemma unlinkHmu_spec (hok : HeapOk h) (hrep : FreeRep T h F ((a, sz) ::ₘ S))
    (hut : hmuGetUt (h.u32 a) = hmuFc) (hsize : h.chunkSize a = sz) :
    ∃ h', unlinkHmu a h = .ok () h' ∧ Changed (scratch h ((a, sz) ::ₘ S)) h h'
      ∧ FreeRep T h' (F.unlink (a, sz)) S := by
  have hS := hrep.toSpaced
  have hmem : (a, sz) ∈ (a, sz) ::ₘ S := mem_cons_self _ _
  rw [unlinkHmu, run_get_bind, if_neg (not_not.mpr hut), hsize]
  by_cases hlt : sz < hmuFcNormalMaxSize
  · obtain ⟨i, rfl⟩ : 8 ∣ sz := Nat.dvd_of_mod_eq_zero (hS.size_mod _ hmem)
    rw [if_pos hlt, Nat.mul_div_cancel_left i (by norm_num)]
    have hl := hrep.holds.lists i
    have hal : a ∈ F.lists i := by
      rw [← mem_coe, hl, bin_cons_of_pos ⟨rfl, hlt⟩]
      exact mem_cons_self _ _
    obtain ⟨m', p', hrun, hsame, hlist'⟩ := unlinkNormal_spec i (hrep.lists i) (hS.listed hl) hal
      hok.size_lt (hS.length_le hok hl)
    obtain ⟨hchanged, hrep'⟩ := hrep.of_list hok hlt hsame hlist'
    exact ⟨_, hrun, hchanged, hrep'⟩
  · rw [if_neg hlt]
    obtain ⟨h', hrun, hchanged, hrep', -⟩ := removeTree_spec hok hrep (not_lt.mp hlt)
    exact ⟨h', hrun, hchanged, hrep'⟩

end

end Watz.Ems
