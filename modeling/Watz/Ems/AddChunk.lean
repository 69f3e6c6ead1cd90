import Watz.Ems.FreeChunks
import Watz.Ems.Header

/-!
# Adding a free chunk

A chunk that becomes free gets the header of a free chunk, and its size in its last word.  Then it is
put in front of the list of its size, or inserted in the tree.
-/

namespace Watz.Ems

open Lib SearchTree

section

variable {T : Prop} {h : GcHeap} {F : FreeLists} {S : Multiset (ℕ × ℕ)} {a sz i : ℕ}

lemma stampFree_spec (h : GcHeap) (a : ℕ) (hsz : sz < 2 ^ 30) (hmod : sz % 8 = 0)
    (h8 : 8 ≤ sz) :
    Changed (Mem.range a sz) h (h.stampFree a sz)
      ∧ (h.stampFree a sz).kfcNormalList = h.kfcNormalList
      ∧ (h.stampFree a sz).u32 a = hmuSetSize (hmuSetUt (h.u32 a) hmuFc) sz
      ∧ (h.stampFree a sz).u32 (a + sz - 4) = sz := by
  have hword : (h.setHeader a fun w => hmuSetSize (hmuSetUt w hmuFc) sz).u32 a
      = hmuSetSize (hmuSetUt (h.u32 a) hmuFc) sz :=
    GcHeap.u32_setHeader_self (hmuSetSize_lt (hmuSetUt_lt (by decide)) hsz)
  have hsize : (h.setHeader a fun w => hmuSetSize (hmuSetUt w hmuFc) sz).chunkSize a = sz := by
    rw [GcHeap.chunkSize, hword, hmuGetSize_hmuSetSize hsz hmod]
  have heq : h.stampFree a sz
      = (h.setHeader a fun w => hmuSetSize (hmuSetUt w hmuFc) sz).setU32 (a + sz - 4) sz := by
    rw [GcHeap.stampFree]
    simp only [hsize]
  rw [heq]
  refine ⟨⟨rfl, rfl, rfl, rfl, rfl, rfl, ?_⟩, rfl, ?_, GcHeap.u32_setU32_self (by omega)⟩
  · refine (Mem.sameOutside_store.mono ?_).trans (Mem.sameOutside_store.mono ?_)
    · rintro j ⟨h1, h2⟩
      exact ⟨by omega, by omega⟩
    · rintro j ⟨h1, h2⟩
      exact ⟨by omega, by omega⟩
  · rw [GcHeap.u32_setU32_of_apart (by omega), hword]

lemma Spaced.apart_cons {c : ℕ × ℕ} (hS : Spaced h ((a, sz) ::ₘ S)) (hc : c ∈ S) :
    a + sz ≤ c.1 ∨ c.1 + c.2 ≤ a := by
  refine hS.apart (a, sz) (Multiset.mem_cons_self _ _) c (Multiset.mem_cons_of_mem hc) ?_
  rintro rfl
  exact (Multiset.nodup_cons.mp hS.nodup).1 hc

lemma FreeRep.frame_cons {R : Set ℕ} {h' : GcHeap} (hok : HeapOk h) (hrep : FreeRep T h F S)
    (hS : Spaced h ((a, sz) ::ₘ S)) (hc : Changed R h h')
    (hlists : h'.kfcNormalList = h.kfcNormalList) (hR : R ⊆ Mem.range a sz) : FreeRep T h' F S := by
  refine hrep.frame hc hlists (fun c hcS j hj => ?_) fun j hj => ?_
  · have h1 := hS.apart_cons hcS
    obtain ⟨h2, h3⟩ := hR hj
    omega
  · have h1 := hS.lo _ (Multiset.mem_cons_self _ _)
    have h2 := hS.hi _ (Multiset.mem_cons_self _ _)
    have h3 := hok.root_apart
    obtain ⟨h4, h5⟩ := hR hj
    dsimp only at h1 h2
    omega

lemma FreeRep.cons_small (hrep : FreeRep T h F S) (hS : Spaced h ((a, 8 * i) ::ₘ S))
    (hlt : 8 * i < hmuFcNormalMaxSize) (hnext : h.nextNode a = h.kfcNormalList i)
    (hlast : h.u32 (a + 8 * i - 4) = 8 * i) :
    FreeRep T (h.setNormalList i a) (F.add (a, 8 * i)) ((a, 8 * i) ::ₘ S) := by
  have hc : Changed ∅ h (h.setNormalList i a) :=
    ⟨rfl, rfl, rfl, rfl, rfl, rfl, Mem.SameOutside.refl _ _⟩
  have hholds := hrep.holds.add (hS.size_mod _ (Multiset.mem_cons_self _ _))
  rw [FreeLists.add_small hlt] at hholds ⊢
  refine ⟨hc.spaced hS, hholds, fun k => ?_, hrep.tree, fun c hcS hlarge => ?_,
    fun c hcS hend => ?_, hrep.root⟩
  · have hlist := hrep.lists k
    dsimp only
    by_cases hk : k = i
    · subst hk
      have hhead : (h.setNormalList k a).kfcNormalList k = a := Function.update_self _ _ _
      have ha : a ≠ 0 := by
        have := hS.addr_mod _ (Multiset.mem_cons_self _ _)
        dsimp only at this
        omega
      rw [hhead, Function.update_self]
      refine ⟨rfl, ha, ?_⟩
      rw [← hnext] at hlist
      exact hlist.congr fun _ _ => rfl
    · have hhead : (h.setNormalList i a).kfcNormalList k = h.kfcNormalList k :=
        Function.update_of_ne hk _ _
      rw [hhead, Function.update_of_ne hk]
      exact hlist.congr fun _ _ => rfl
  · rcases Multiset.mem_cons.mp hcS with rfl | hcS
    · exact absurd hlt (not_lt.mpr hlarge)
    · exact hrep.nodeSize c hcS hlarge
  · rcases Multiset.mem_cons.mp hcS with rfl | hcS
    · exact hlast
    · exact hrep.lastWord c hcS hend

lemma FreeRep.cons_large (hok : HeapOk h) (hrep : FreeRep T h F S) (hS : Spaced h ((a, sz) ::ₘ S))
    (hlarge : hmuFcNormalMaxSize ≤ sz) (hleft : h.left a = 0) (hright : h.right a = 0)
    (hnode : h.nodeSize a = sz) (hlast : h.u32 (a + sz - 4) = sz) :
    ∃ h', insertNode a sz h.currentSize h.rootAddr h = .ok () h'
      ∧ Changed (Mem.range (h.rootAddr + 16) 8 ∪ links (nodes ((a, sz) ::ₘ S))) h h'
      ∧ FreeRep T h' (F.add (a, sz)) ((a, sz) ::ₘ S) := by
  have hmem : (a, sz) ∈ (a, sz) ::ₘ S := Multiset.mem_cons_self _ _
  have hadd := hS.addr_mod _ hmem
  have hhi := hS.hi _ hmem
  dsimp only at hadd hhi
  have hend := hok.end_le
  have hhangs := hrep.hangs hok
  have hnodes := elems_nodes hrep.holds
  have hslot : h.insertSlot sz h.rootAddr = h.rootAddr + 16 :=
    if_pos (hrep.root.trans_le hlarge)
  have hspread : Spread (h.rootAddr ::ₘ a ::ₘ elems (F.tree.map Prod.fst)) := by
    rw [hnodes, ← nodes_cons_of_large hlarge]
    exact hS.spread hok
  have hcard : (elems (F.tree.map Prod.fst)).card < h.currentSize := by
    have := hS.card_nodes_lt hok
    rw [nodes_cons_of_large hlarge, Multiset.card_cons, ← hnodes] at this
    omega
  obtain ⟨m', hrun, hsame, htree⟩ := insertNode_spec (hslot ▸ hhangs.rep) hspread hhangs.inHeap
    (by omega) (by rw [hmuFcNormalMaxSize] at hlarge; omega) (by have := hok.root_le; omega) hleft
    hright hnode hcard
  rw [hslot, hnodes, ← nodes_cons_of_large hlarge] at hsame
  rw [hslot] at htree
  have hsizes := tree_frame hok hS hsame
  obtain ⟨hlasts, hroot⟩ := scratch_frame { h with mem := m' } hok hS
    (hsame.mono (Spaced.tree_subset _))
  -- the sizes in the nodes are those of the chunks
  have hmap : (insert Prod.snd (a, sz) F.tree).map Prod.fst
      = insert h.nodeSize a (F.tree.map Prod.fst) := by
    refine map_insert (fun c hc => ?_) hnode
    obtain ⟨hcS, hlarge⟩ := mem_large.mp (hrep.holds.tree ▸ hc)
    exact hrep.nodeSize c hcS hlarge
  have hholds := hrep.holds.add (hS.size_mod _ hmem)
  rw [FreeLists.add_large hlarge] at hholds ⊢
  refine ⟨{ h with mem := m' }, hrun, .of_mem hsame, (Changed.of_mem hsame).spaced hS, hholds, ?_,
    ?_, ?_, ?_, hroot.symm ▸ hrep.root⟩
  · refine fun i => (hrep.lists i).congr fun b hb => ?_
    exact hsizes _ (Multiset.mem_cons_of_mem (mem_lists hrep.holds hb).1)
  · change TreeRep m' (m'.load (h.rootAddr + 16) 8) h.rootAddr
      ((insert Prod.snd (a, sz) F.tree).map Prod.fst)
    rw [hmap]
    exact htree
  · intro c hc hsize
    refine (hsizes c hc).trans ?_
    rcases Multiset.mem_cons.mp hc with rfl | hc
    · exact hnode
    · exact hrep.nodeSize c hc hsize
  · intro c hc hend
    refine (hlasts c hc).trans ?_
    rcases Multiset.mem_cons.mp hc with rfl | hc
    · exact hlast
    · exact hrep.lastWord c hc hend

/-- A chunk is put in front of a list. -/
abbrev GcHeap.pushNormal (h : GcHeap) (a i : ℕ) : GcHeap :=
  (h.setNextNode a (h.kfcNormalList i)).setNormalList i a

lemma changed_pushNormal (h : GcHeap) (a i : ℕ) (h8 : 8 ≤ sz) :
    Changed (Mem.range a sz) h (h.pushNormal a i) ∧ (h.pushNormal a i).u32 a = h.u32 a := by
  rw [GcHeap.pushNormal]
  have hc := changed_setNextNode h a (h.kfcNormalList i)
  have hword : (h.setNextNode a (h.kfcNormalList i)).u32 a = h.u32 a :=
    hc.mem.load fun j hj => .inr hj.1
  have hsub : Mem.range (a + 4) 4 ⊆ Mem.range a sz := by
    rintro j ⟨h1, h2⟩
    exact ⟨by omega, by omega⟩
  generalize h.setNextNode a (h.kfcNormalList i) = h' at *
  exact ⟨⟨hc.heapId, hc.base, hc.size, hc.sound, hc.total, hc.high, hc.mem.mono hsub⟩, hword⟩

lemma pushNormal_spec (hok : HeapOk h) (hrep : FreeRep T h F S) (hS : Spaced h ((a, 8 * i) ::ₘ S))
    (hlt : 8 * i < hmuFcNormalMaxSize) (hlast : h.u32 (a + 8 * i - 4) = 8 * i) :
    FreeRep T (h.pushNormal a i) (F.add (a, 8 * i)) ((a, 8 * i) ::ₘ S) := by
  rw [GcHeap.pushNormal]
  have h16 : 16 ≤ 8 * i := hS.smallest _ (Multiset.mem_cons_self _ _)
  have hnear : h.kfcNormalList i = 0 ∨ h.kfcNormalList i ≠ a
      ∧ h.kfcNormalList i < a + 2 ^ 31 ∧ a < h.kfcNormalList i + 2 ^ 31 := by
    refine (hrep.lists i).near (hS.listed (i := i) ?_) hok.size_lt
    rw [← Multiset.cons_coe, hrep.holds.lists, bin_cons_of_pos ⟨rfl, hlt⟩]
  have hnext : (h.setNextNode a (h.kfcNormalList i)).nextNode a = h.kfcNormalList i :=
    nextNode_setNextNode hnear
  have hlists : (h.setNextNode a (h.kfcNormalList i)).kfcNormalList = h.kfcNormalList := rfl
  have hc := changed_setNextNode h a (h.kfcNormalList i)
  have hlast' : (h.setNextNode a (h.kfcNormalList i)).u32 (a + 8 * i - 4) = 8 * i := by
    rw [GcHeap.setNextNode, GcHeap.u32_setU32_of_apart (by omega), hlast]
  have hrep' := hrep.frame_cons hok hS hc hlists fun j hj => ⟨by have := hj.1; omega, by
    have := hj.2; omega⟩
  have hS' := hc.spaced hS
  generalize h.setNextNode a (h.kfcNormalList i) = h' at *
  exact hrep'.cons_small hS' hlt (hnext.trans (congrFun hlists i).symm) hlast'

lemma clearNode_spec (h : GcHeap) (a : ℕ) (hsz : sz < 2 ^ 30) (hlarge : hmuFcNormalMaxSize ≤ sz)
    (hlast : h.u32 (a + sz - 4) = sz) :
    Changed (Mem.range a sz) h ((h.setU32 (a + 4) sz).clearLinks a)
      ∧ ((h.setU32 (a + 4) sz).clearLinks a).kfcNormalList = h.kfcNormalList
      ∧ ((h.setU32 (a + 4) sz).clearLinks a).left a = 0
      ∧ ((h.setU32 (a + 4) sz).clearLinks a).right a = 0
      ∧ ((h.setU32 (a + 4) sz).clearLinks a).nodeSize a = sz
      ∧ ((h.setU32 (a + 4) sz).clearLinks a).u32 (a + sz - 4) = sz
      ∧ ((h.setU32 (a + 4) sz).clearLinks a).u32 a = h.u32 a := by
  rw [hmuFcNormalMaxSize] at hlarge
  refine ⟨⟨rfl, rfl, rfl, rfl, rfl, rfl, ?_⟩, rfl, ?_, ?_, ?_, ?_, ?_⟩
  · refine (Mem.sameOutside_store.mono ?_).trans ((sameOutside_clearLinks _ a).mono ?_)
    · rintro j ⟨h1, h2⟩
      exact ⟨by omega, by omega⟩
    · rintro j ⟨b, hb, hlo, hhi⟩
      rw [Multiset.mem_singleton.mp hb] at hlo hhi
      exact ⟨by omega, by omega⟩
  · exact Mem.load_store_self (by norm_num)
  · exact (Mem.load_store_of_disjoint (by omega)).trans (Mem.load_store_self (by norm_num))
  · exact (load_clearLinks (by omega)).trans (GcHeap.u32_setU32_self (by omega))
  · exact (load_clearLinks (by omega)).trans ((GcHeap.u32_setU32_of_apart (by omega)).trans hlast)
  · exact (load_clearLinks (by omega)).trans (GcHeap.u32_setU32_of_apart (by omega))

lemma pushTree_spec (hok : HeapOk h) (hrep : FreeRep T h F S) (hS : Spaced h ((a, sz) ::ₘ S))
    (hlarge : hmuFcNormalMaxSize ≤ sz) (hlast : h.u32 (a + sz - 4) = sz) :
    ∃ h', insertNode a sz ((h.setU32 (a + 4) sz).clearLinks a).currentSize
        ((h.setU32 (a + 4) sz).clearLinks a).rootAddr ((h.setU32 (a + 4) sz).clearLinks a)
          = .ok () h'
      ∧ Changed (Mem.range a sz ∪ scratch h S) h h'
      ∧ FreeRep T h' (F.add (a, sz)) ((a, sz) ::ₘ S)
      ∧ h'.u32 a = h.u32 a := by
  have hmem : (a, sz) ∈ (a, sz) ::ₘ S := Multiset.mem_cons_self _ _
  have hlt : sz < 2 ^ 30 := by
    have h1 := hS.lo _ hmem
    have h2 := hS.hi _ hmem
    have h3 := hok.size_lt
    rw [GcHeap.endAddr] at h2
    dsimp only at h1 h2
    omega
  obtain ⟨hc, hlists, hleft, hright, hnode, hlast', hword⟩ := clearNode_spec h a hlt hlarge hlast
  have hrep' := hrep.frame_cons hok hS hc hlists subset_rfl
  have hS' := hc.spaced hS
  have hok' := hc.heapOk hok
  generalize (h.setU32 (a + 4) sz).clearLinks a = h1 at *
  obtain ⟨h2, hrun, hc2, hrep2⟩ :=
    hrep'.cons_large hok' hS' hlarge hleft hright hnode hlast'
  have hword2 : h2.u32 a = h1.u32 a := by
    refine hc2.mem.load fun j hj => ?_
    have := hS'.tree_bytes hok' hmem hj
    rw [hmuFcNormalMaxSize] at hlarge
    dsimp only at this
    omega
  refine ⟨h2, hrun, (hc.mono Set.subset_union_left).trans (hc2.mono ?_), hrep2,
    hword2.trans hword⟩
  -- the links of the new node are in the chunk, the others in the other chunks
  rw [nodes_cons_of_large hlarge, hc.rootAddr]
  rw [hmuFcNormalMaxSize] at hlarge
  rintro j (hj | ⟨b, hb, hlo, hhi⟩)
  · exact .inr (.inl hj)
  · rcases Multiset.mem_cons.mp hb with rfl | hb
    · exact .inl ⟨by omega, by omega⟩
    · exact .inr (Spaced.tree_subset S (.inr ⟨b, hb, hlo, hhi⟩))

/-- A small chunk becomes free, also one that is too small for a chunk. -/
lemma gciAddFc_small (hin : h.InHeap a) (h8 : 8 ≤ sz) (hmod : sz % 8 = 0)
    (hsmall : sz < hmuFcNormalMaxSize) :
    gciAddFc a sz h = .ok () ((h.stampFree a sz).pushNormal a (sz / 8))
      ∧ Changed (Mem.range a sz) h ((h.stampFree a sz).pushNormal a (sz / 8))
      ∧ ((h.stampFree a sz).pushNormal a (sz / 8)).u32 a
        = hmuSetSize (hmuSetUt (h.u32 a) hmuFc) sz := by
  have hlt : sz < 2 ^ 30 := hsmall.trans (by decide)
  obtain ⟨hc, -, hword, -⟩ := stampFree_spec h a hlt hmod h8
  rw [gciAddFc, run_modify_bind, if_pos hsmall]
  generalize h.stampFree a sz = h1 at *
  obtain ⟨hc2, hword2⟩ := changed_pushNormal h1 a (sz / 8) h8
  rw [bind_of_ok (checkInHeap_of_inHeap ((hc.inHeap_iff a).mpr hin)), run_modify]
  exact ⟨rfl, hc.trans hc2, hword2.trans hword⟩

lemma gciAddFc_spec (hok : HeapOk h) (hrep : FreeRep T h F S) (hS : Spaced h ((a, sz) ::ₘ S)) :
    ∃ h', gciAddFc a sz h = .ok () h' ∧ Changed (Mem.range a sz ∪ scratch h S) h h'
      ∧ FreeRep T h' (F.add (a, sz)) ((a, sz) ::ₘ S)
      ∧ h'.u32 a = hmuSetSize (hmuSetUt (h.u32 a) hmuFc) sz := by
  have hmem : (a, sz) ∈ (a, sz) ::ₘ S := Multiset.mem_cons_self _ _
  have hmod : sz % 8 = 0 := hS.size_mod _ hmem
  have hlt : sz < 2 ^ 30 := by
    have h1 := hS.lo _ hmem
    have h2 := hS.hi _ hmem
    have h3 := hok.size_lt
    rw [GcHeap.endAddr] at h2
    dsimp only at h1 h2
    omega
  have h8 : 8 ≤ sz := le_trans (by decide) (hS.smallest _ hmem)
  obtain ⟨hc, hlists, hword, hlast⟩ := stampFree_spec h a hlt hmod h8
  have hrep1 := hrep.frame_cons hok hS hc hlists subset_rfl
  have hS1 := hc.spaced hS
  have hok1 := hc.heapOk hok
  by_cases hsmall : sz < hmuFcNormalMaxSize
  · obtain ⟨hrun, hc2, hword2⟩ := gciAddFc_small (hS.inHeap hmem) h8 hmod hsmall
    obtain ⟨i, rfl⟩ : 8 ∣ sz := Nat.dvd_of_mod_eq_zero hmod
    rw [Nat.mul_div_cancel_left i (by norm_num)] at hrun hc2 hword2
    exact ⟨_, hrun, hc2.mono Set.subset_union_left, pushNormal_spec hok1 hrep1 hS1 hsmall hlast,
      hword2⟩
  · rw [gciAddFc, run_modify_bind]
    generalize h.stampFree a sz = h1 at *
    obtain ⟨h2, hrun, hc2, hrep2, hword2⟩ := pushTree_spec hok1 hrep1 hS1 (not_lt.mp hsmall) hlast
    rw [hc.scratch_eq] at hc2
    rw [if_neg hsmall, run_modify_bind, run_get_bind]
    exact ⟨h2, hrun, (hc.mono Set.subset_union_left).trans hc2, hrep2, hword2.trans hword⟩

end

end Watz.Ems
