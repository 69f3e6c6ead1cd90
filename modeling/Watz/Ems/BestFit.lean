import Watz.Ems.Init

/-!
# Taking a chunk of the best size

A request takes a free chunk: the head of the first list of large enough chunks that is not empty, or
the node of the tree that its search ends at.  Both are chunks of the smallest size that is
sufficient.  What is not needed becomes a free chunk again.
-/

namespace Watz.Ems

open Lib SearchTree
open Multiset (mem_cons mem_cons_self)

/-! ## Finding a chunk -/

section

variable {T : Prop} {h : GcHeap} {F : FreeLists} {S : Multiset (ℕ × ℕ)} {n size : ℕ} {c : ℕ × ℕ}

/-- The size of a chunk for a request. -/
def atLeastSmallest (size : ℕ) : ℕ := if size < gcSmallestSize then gcSmallestSize else size

lemma findNormal_eq (hrep : FreeRep T h F S) (k i : ℕ) :
    h.findNormal k i = (F.firstList k i).map fun c => c.2 / 8 := by
  induction k generalizing i with
  | zero => rfl
  | succ k ih =>
    have hlist := hrep.lists i
    rw [GcHeap.findNormal, FreeLists.firstList]
    cases hl : F.lists i with
    | nil =>
      rw [hl] at hlist
      have h0 : h.kfcNormalList i = 0 := hlist
      rw [if_neg (not_not.mpr h0), ih]
    | cons a l =>
      rw [hl] at hlist
      have hne : h.kfcNormalList i ≠ 0 := hlist.1.trans_ne hlist.2.1
      rw [if_pos hne, Option.map_some, Nat.mul_div_cancel_left i (by norm_num)]

lemma allocNormal_spec {i a : ℕ} {l : List ℕ} (hok : HeapOk h)
    (hrep : FreeRep T h F ((a, 8 * i) ::ₘ S)) (hl : F.lists i = a :: l) (hsize : size % 8 = 0) :
    ∃ h1, allocNormal size i h = carve a (8 * i) size (size + gcSmallestSize ≤ 8 * i) h1
      ∧ Changed (scratch h ((a, 8 * i) ::ₘ S)) h h1 ∧ FreeRep T h1 (F.unlink (a, 8 * i)) S := by
  have hmem : (a, 8 * i) ∈ (a, 8 * i) ::ₘ S := mem_cons_self _ _
  obtain ⟨hhead, hc, hrep1⟩ := popNormal_spec hok hrep hl
  have hin : h.InHeap a := hrep.toSpaced.inHeap hmem
  have haddr : a % 8 = 4 := hrep.toSpaced.addr_mod _ hmem
  refine ⟨h.setNormalList i (h.nextNode a), ?_, hc, hrep1⟩
  have hsplit : decide (i ≠ size / 8 ∧ i * 8 ≥ size + gcSmallestSize)
      = decide (size + gcSmallestSize ≤ 8 * i) := by
    rw [decide_eq_decide, gcSmallestSize]
    omega
  rw [allocNormal, run_get_bind, hhead, bind_of_ok (checkInHeap_of_inHeap hin), run_modify_bind,
    if_neg (by omega), hsplit, Nat.mul_comm i 8]

lemma findNode_eq (hok : HeapOk h) (hrep : FreeRep T h F S) :
    findNode size h.currentSize (h.right h.rootAddr) 0 h
      = .ok (firstAtLeast Prod.snd size (0, 0) F.tree).1 h := by
  have hkey : ∀ c ∈ elems F.tree, h.nodeSize c.1 = c.2 := fun c hc => by
    obtain ⟨hcS, hlarge⟩ := mem_large.mp (hrep.holds.tree ▸ hc)
    exact hrep.nodeSize c hcS hlarge
  rw [findNode_spec hrep.tree (hrep.hangs hok).inHeap
    (elems_nodes hrep.holds ▸ hrep.toSpaced.card_nodes_lt hok)]
  exact congrArg (EStateM.Result.ok · h) (map_firstAtLeast (f := Prod.fst) (d := (0, 0)) hkey)

lemma allocTree_none (hok : HeapOk h) (hrep : FreeRep T h F S) (hnone : F.searchTree size = none) :
    allocTree size h = .ok 0 h := by
  have h0 : (firstAtLeast Prod.snd size (0, 0) F.tree).1 = 0 := by
    by_contra hne
    rw [FreeLists.searchTree, if_neg hne] at hnone
    exact absurd hnone (by simp)
  rw [allocTree, run_get_bind, bind_of_ok (findNode_eq hok hrep), h0, if_pos rfl]
  rfl

lemma allocTree_some (hok : HeapOk h) (hrep : FreeRep T h F (c ::ₘ S))
    (hsome : F.searchTree size = some c) :
    ∃ h1, allocTree size h = carve c.1 c.2 size (size + gcSmallestSize ≤ c.2) h1
      ∧ Changed (scratch h (c ::ₘ S)) h h1 ∧ FreeRep T h1 (F.unlink c) S := by
  have hS := hrep.toSpaced
  have hmem : c ∈ c ::ₘ S := mem_cons_self _ _
  have hc0 : c.1 ≠ 0 := by
    have := hS.addr_mod _ hmem
    omega
  have hfirst : firstAtLeast Prod.snd size (0, 0) F.tree = c := by
    rw [FreeLists.searchTree] at hsome
    split at hsome
    · exact absurd hsome (by simp)
    · exact Option.some.inj hsome
  have haddr : ∀ d ∈ c ::ₘ S, d.1 ≠ 0 := fun d hd h0 => by
    have := hS.addr_mod d hd
    omega
  obtain ⟨-, hlarge, hle⟩ : c ∈ c ::ₘ S ∧ hmuFcNormalMaxSize ≤ c.2 ∧ size ≤ c.2 := by
    rcases FreeLists.searchTree_spec hrep.holds haddr size with ⟨hnone, -⟩ | ⟨d, hd, hd', hle, -⟩
    · exact absurd (hsome.symm.trans hnone) (by simp)
    · obtain rfl : c = d := Option.some.inj (hsome.symm.trans hd')
      exact ⟨hmem, (mem_large.mp hd).2, hle⟩
  obtain ⟨h1, hrun, hch, hrep1, hnode⟩ := removeTree_spec hok hrep hlarge
  refine ⟨h1, ?_, hch, hrep1⟩
  have hlt : c.2 < 2 ^ 30 := by
    have h1 := hS.lo _ hmem
    have h2 := hS.hi _ hmem
    have h3 := hok.size_lt
    rw [GcHeap.endAddr] at h2
    omega
  have hsplit : decide (h1.nodeSize c.1 ≥ (size + gcSmallestSize) % 2 ^ 32)
      = decide (size + gcSmallestSize ≤ c.2) := by
    rw [decide_eq_decide, hnode, gcSmallestSize]
    omega
  rw [allocTree, run_get_bind, bind_of_ok (findNode_eq hok hrep), hfirst, if_neg hc0,
    bind_of_ok hrun, run_get_bind, hsplit, hnode]

lemma atLeastSmallest_mod (hn : n % 8 = 0) : atLeastSmallest n % 8 = 0 := by
  rw [atLeastSmallest]
  split
  · rfl
  · exact hn

lemma allocHmu_eq (hrep : FreeRep T h F S) :
    allocHmu n h = (if atLeastSmallest n < hmuFcNormalMaxSize then
      match F.firstList (32 - atLeastSmallest n / 8) (atLeastSmallest n / 8) with
      | some c => allocNormal (atLeastSmallest n) (c.2 / 8)
      | none => allocTree (atLeastSmallest n)
    else allocTree (atLeastSmallest n) : EmsM ℕ) h := by
  rw [allocHmu, run_get_bind]
  rw [← atLeastSmallest, findNormal_eq hrep]
  cases F.firstList (32 - atLeastSmallest n / 8) (atLeastSmallest n / 8) <;> rfl

lemma allocHmu_none (hok : HeapOk h) (hrep : FreeRep T h F S)
    (hnone : F.find (atLeastSmallest n) = none) : allocHmu n h = .ok 0 h := by
  rw [allocHmu_eq hrep]
  rw [FreeLists.find] at hnone
  split at hnone
  · rename_i hlt
    rw [if_pos hlt]
    rcases F.firstList_spec (32 - atLeastSmallest n / 8) (atLeastSmallest n / 8) with
      ⟨hfirst, -⟩ | ⟨i, a, l, hfirst, -⟩
    · rw [hfirst] at hnone ⊢
      exact allocTree_none hok hrep hnone
    · rw [hfirst] at hnone
      exact absurd hnone (by simp)
  · rename_i hlt
    rw [if_neg hlt]
    exact allocTree_none hok hrep hnone

lemma allocHmu_some (hok : HeapOk h) (hrep : FreeRep T h F (c ::ₘ S)) (hn : n % 8 = 0)
    (hsome : F.find (atLeastSmallest n) = some c) :
    ∃ h1, allocHmu n h
        = carve c.1 c.2 (atLeastSmallest n) (atLeastSmallest n + gcSmallestSize ≤ c.2) h1
      ∧ Changed (scratch h (c ::ₘ S)) h h1 ∧ FreeRep T h1 (F.unlink c) S := by
  rw [allocHmu_eq hrep]
  rw [FreeLists.find] at hsome
  split at hsome
  · rename_i hlt
    rw [if_pos hlt]
    rcases F.firstList_spec (32 - atLeastSmallest n / 8) (atLeastSmallest n / 8) with
      ⟨hfirst, -⟩ | ⟨i, a, l, hfirst, hl, -⟩
    · rw [hfirst] at hsome ⊢
      exact allocTree_some hok hrep hsome
    · rw [hfirst] at hsome ⊢
      obtain rfl : (a, 8 * i) = c := Option.some.inj hsome
      dsimp only
      rw [Nat.mul_div_cancel_left i (by norm_num)]
      exact allocNormal_spec hok hrep hl (atLeastSmallest_mod hn)
  · rename_i hlt
    rw [if_neg hlt]
    exact allocTree_some hok hrep hsome

end

/-! ## Taking a part of a chunk -/

/-- A heap with other values of its counters. -/
def GcHeap.counted (h : GcHeap) (total high : ℕ) : GcHeap :=
  { h with totalFreeSize := total, highmarkSize := high }

/-- What is free after a chunk of a size has been taken. -/
def GcHeap.totalTaken (h : GcHeap) (size : ℕ) : ℕ := (h.totalFreeSize + 2 ^ 32 - size) % 2 ^ 32

/-- The largest amount in use, after a chunk of a size has been taken. -/
def GcHeap.highTaken (h : GcHeap) (size : ℕ) : ℕ :=
  let used := (h.currentSize + 2 ^ 32 - h.totalTaken size) % 2 ^ 32
  if used > h.highmarkSize then used else h.highmarkSize

/-- The header at an address, if the address is one of the heap. -/
def headerAt (h : GcHeap) (a : ℕ) : Set ℕ := {j | h.InHeap a ∧ j ∈ Mem.range a 4}

section

variable {T : Prop} {h : GcHeap} {F : FreeLists} {S : Multiset (ℕ × ℕ)} {a sz n : ℕ}

lemma FreeRep.counted (hrep : FreeRep T h F S) (total high : ℕ) :
    FreeRep T (h.counted total high) F S := by
  have hS := hrep.toSpaced
  refine ⟨⟨hS.nodup, hS.lo, hS.hi, hS.addr_mod, hS.size_mod, hS.smallest, hS.apart⟩, hrep.holds,
    fun i => ?_, hrep.tree, hrep.nodeSize, hrep.lastWord, hrep.root⟩
  exact ListRep.congr (hrep.lists i) fun _ _ => rfl

lemma account_eq (h : GcHeap) (a size : ℕ) : h.account a size
    = (h.setHeader a fun w => hmuSetSize w size).counted (h.totalTaken size) (h.highTaken size) :=
  rfl

lemma Changed.taken {X : Set ℕ} {h' : GcHeap} (hc : Changed X h h') (size : ℕ) :
    h'.totalTaken size = h.totalTaken size ∧ h'.highTaken size = h.highTaken size := by
  have htotal : h'.totalTaken size = h.totalTaken size := by
    rw [GcHeap.totalTaken, GcHeap.totalTaken, hc.total]
  refine ⟨htotal, ?_⟩
  rw [GcHeap.highTaken, GcHeap.highTaken, htotal, hc.high, hc.size]

lemma changed_setHeader (h : GcHeap) (a : ℕ) (f : ℕ → ℕ) :
    Changed (Mem.range a 4) h (h.setHeader a f) :=
  ⟨rfl, rfl, rfl, rfl, rfl, rfl, Mem.sameOutside_store⟩

lemma Spaced.size_lt (hok : HeapOk h) (hS : Spaced h S) {c : ℕ × ℕ} (hc : c ∈ S) :
    c.2 < 2 ^ 30 := by
  have h1 := hS.lo c hc
  have h2 := hS.hi c hc
  have h3 := hok.size_lt
  rw [GcHeap.endAddr] at h2
  omega

lemma Spaced.part {a' sz' : ℕ} (hS : Spaced h ((a, sz) ::ₘ S)) (ha : a ≤ a')
    (hend : a' + sz' ≤ a + sz) (hmod : a' % 8 = 4) (hmod' : sz' % 8 = 0)
    (h16 : gcSmallestSize ≤ sz') : Spaced h ((a', sz') ::ₘ S) := by
  have hmem : (a, sz) ∈ (a, sz) ::ₘ S := mem_cons_self _ _
  have hsub : ∀ c ∈ S, c ∈ (a, sz) ::ₘ S := fun c hc => Multiset.mem_cons_of_mem hc
  have hlo := hS.lo _ hmem
  have hhi := hS.hi _ hmem
  have hpart : ∀ c ∈ S, a' + sz' ≤ c.1 ∨ c.1 + c.2 ≤ a' := fun c hc => by
    have := hS.apart_cons hc
    omega
  rw [gcSmallestSize] at h16
  dsimp only at hlo hhi
  refine ⟨Multiset.nodup_cons.mpr ⟨fun hc => ?_, (Multiset.nodup_cons.mp hS.nodup).2⟩, ?_, ?_, ?_,
    ?_, ?_, ?_⟩
  · have := hpart _ hc
    dsimp only at this
    omega
  · intro c hc
    rcases mem_cons.mp hc with rfl | hc
    · exact hlo.trans ha
    · exact hS.lo c (hsub c hc)
  · intro c hc
    rcases mem_cons.mp hc with rfl | hc
    · exact hend.trans hhi
    · exact hS.hi c (hsub c hc)
  · intro c hc
    rcases mem_cons.mp hc with rfl | hc
    · exact hmod
    · exact hS.addr_mod c (hsub c hc)
  · intro c hc
    rcases mem_cons.mp hc with rfl | hc
    · exact hmod'
    · exact hS.size_mod c (hsub c hc)
  · intro c hc
    rcases mem_cons.mp hc with rfl | hc
    · exact h16
    · exact hS.smallest c (hsub c hc)
  · intro c hc d hd hne
    rcases mem_cons.mp hc with rfl | hc
    · rcases mem_cons.mp hd with rfl | hd
      · exact absurd rfl hne
      · exact hpart d hd
    · rcases mem_cons.mp hd with rfl | hd
      · exact (hpart c hc).symm
      · exact hS.apart c (hsub c hc) d (hsub d hd) hne

lemma Spaced.scratch_apart {j : ℕ} (hok : HeapOk h) (hS : Spaced h ((a, sz) ::ₘ S))
    (hj : j ∈ scratch h S) : j < a ∨ a + sz ≤ j := by
  have hmem : (a, sz) ∈ (a, sz) ::ₘ S := mem_cons_self _ _
  rcases hj with ⟨h1, h2⟩ | ⟨c, hc, h1, h2⟩
  · have h3 := hS.lo _ hmem
    have h4 := hS.hi _ hmem
    have h5 := hok.root_apart
    dsimp only at h3 h4
    omega
  · have := hS.apart_cons hc
    omega

lemma FreeRep.frame_header {h' : GcHeap} {b : ℕ} (hok : HeapOk h) (hrep : FreeRep T h F S)
    (hc : Changed (Mem.range b 4) h h') (hlists : h'.kfcNormalList = h.kfcNormalList)
    (hlo : h.baseAddr ≤ b) (hhi : b + 4 ≤ h.endAddr) (hb : ∀ c ∈ S, b ≤ c.1 ∨ c.1 + c.2 ≤ b) :
    FreeRep T h' F S := by
  refine hrep.frame hc hlists ?_ ?_
  · rintro c hcS j ⟨h1, h2⟩
    have := hb c hcS
    omega
  · rintro j ⟨h1, h2⟩
    have := hok.root_apart
    omega

lemma setHeader_spec {f : ℕ → ℕ} {b : ℕ} (hf : ∀ w, w < 2 ^ 32 → f w < 2 ^ 32) (hok : HeapOk h)
    (hrep : FreeRep T h F S) (hlo : h.baseAddr ≤ b) (hhi : b + 4 ≤ h.endAddr)
    (hb : ∀ c ∈ S, b ≤ c.1 ∨ c.1 + c.2 ≤ b) :
    ∃ h1, h.setHeader b f = h1 ∧ Changed (Mem.range b 4) h h1 ∧ FreeRep T h1 F S
      ∧ (∀ x, x + 4 ≤ b ∨ b + 4 ≤ x → h1.u32 x = h.u32 x) ∧ h1.u32 b = f (h.u32 b) := by
  have hc := changed_setHeader h b f
  refine ⟨_, rfl, hc, hrep.frame_header hok hc rfl hlo hhi hb, ?_, ?_⟩
  · exact fun x hx => GcHeap.u32_setHeader_of_apart hx
  · exact GcHeap.u32_setHeader_self (hf _ GcHeap.u32_lt)

lemma carve_split (hok : HeapOk h) (hrep : FreeRep T h F S) (hS : Spaced h ((a, sz) ::ₘ S))
    (hn : n % 8 = 0) (h16 : gcSmallestSize ≤ n) (hle : n + gcSmallestSize ≤ sz) :
    ∃ h1, carve a sz n true h = .ok a (h1.counted (h.totalTaken n) (h.highTaken n))
      ∧ Changed (Mem.range a sz ∪ scratch h S) h h1
      ∧ FreeRep T h1 (F.add (a + n, sz - n)) ((a + n, sz - n) ::ₘ S)
      ∧ h1.u32 a = hmuSetSize (h.u32 a) n
      ∧ h1.u32 (a + n)
        = hmuMarkPinuse (hmuSetSize (hmuSetUt (h.u32 (a + n)) hmuFc) (sz - n)) := by
  rw [gcSmallestSize] at h16 hle
  have hmem : (a, sz) ∈ (a, sz) ::ₘ S := mem_cons_self _ _
  have haddr : a % 8 = 4 := hS.addr_mod _ hmem
  have hmod : sz % 8 = 0 := hS.size_mod _ hmem
  have hlt : sz < 2 ^ 30 := hS.size_lt hok hmem
  have hlo : h.baseAddr ≤ a := hS.lo _ hmem
  have hhi : a + sz ≤ h.endAddr := hS.hi _ hmem
  have hrest : Spaced h ((a + n, sz - n) ::ₘ S) :=
    hS.part (by omega) (by omega) (by omega) (by omega) (by rw [gcSmallestSize]; omega)
  have hfirst : Spaced h ((a, n) ::ₘ S) :=
    hS.part le_rfl (by omega) haddr hn (by rw [gcSmallestSize]; omega)
  obtain ⟨h1, hrun, hc1, hrep1, hword⟩ := gciAddFc_spec hok hrep hrest
  -- the header of the chunk is not changed by that
  have ha1 : h1.u32 a = h.u32 a := by
    refine hc1.mem.load ?_
    rintro j (⟨h2, h3⟩ | hj)
    · omega
    · have := hfirst.scratch_apart hok hj
      omega
  obtain ⟨h2, hmark, hc2, hrep2, hother2, hword2⟩ :=
    setHeader_spec (b := a + n) (fun w => hmuMarkPinuse_lt) (hc1.heapOk hok) hrep1
      (by rw [hc1.base]; omega) (by rw [hc1.endAddr]; omega) fun c hc => by
        rcases mem_cons.mp hc with rfl | hc
        · exact .inl le_rfl
        · have := hrest.apart_cons hc
          omega
  obtain ⟨h3, hsize, hc3, hrep3, hother3, hword3⟩ :=
    setHeader_spec (b := a) (f := fun w => hmuSetSize w n) (fun w hw => hmuSetSize_lt hw (by omega))
      (hc2.heapOk (hc1.heapOk hok)) hrep2 (by rw [hc2.base, hc1.base]; exact hlo)
      (by rw [hc2.endAddr, hc1.endAddr]; omega) fun c hc => by
        rcases mem_cons.mp hc with rfl | hc
        · exact .inl (by dsimp only; omega)
        · have := hS.apart_cons hc
          omega
  obtain ⟨htotal1, hhigh1⟩ := hc1.taken n
  obtain ⟨htotal2, hhigh2⟩ := hc2.taken n
  rw [carve, if_pos rfl, bind_of_ok hrun, run_modify_bind, run_modify_bind, hmark, account_eq, hsize,
    htotal2, htotal1, hhigh2, hhigh1]
  refine ⟨h3, rfl, ?_, hrep3, ?_, ?_⟩
  · refine (hc1.mono ?_).trans ((hc2.mono ?_).trans (hc3.mono ?_))
    · refine Set.union_subset_union_left _ ?_
      rintro j ⟨h4, h5⟩
      exact ⟨by omega, by omega⟩
    · rintro j ⟨h4, h5⟩
      exact .inl ⟨by omega, by omega⟩
    · rintro j ⟨h4, h5⟩
      exact .inl ⟨by omega, by omega⟩
  · rw [hword3, hother2 a (by omega), ha1]
  · rw [hother3 _ (by omega), hword2, hword]

lemma HeapOk.header_fits (hok : HeapOk h) {b : ℕ} (hin : h.InHeap b) (hb : b % 8 = 4) :
    b + 8 ≤ h.endAddr := by
  have h1 := hok.base_mod
  have h2 := hok.size_mod
  have h3 := hin.2
  rw [GcHeap.endAddr] at h3 ⊢
  omega

lemma changeHeader_spec {f : ℕ → ℕ} {b : ℕ} (hf : ∀ w, w < 2 ^ 32 → f w < 2 ^ 32) (hok : HeapOk h)
    (hrep : FreeRep T h F S) (hb : b % 8 = 4) (hS : ∀ c ∈ S, b ≤ c.1 ∨ c.1 + c.2 ≤ b) :
    ∃ h1, (if h.InHeap b then h.setHeader b f else h) = h1 ∧ Changed (headerAt h b) h h1
      ∧ FreeRep T h1 F S ∧ (∀ x, x + 4 ≤ b ∨ b + 4 ≤ x → h1.u32 x = h.u32 x)
      ∧ (h.InHeap b → h1.u32 b = f (h.u32 b)) := by
  by_cases hin : h.InHeap b
  · have hfit := hok.header_fits hin hb
    obtain ⟨h1, hset, hc, hrep1, hother, hword⟩ :=
      setHeader_spec hf hok hrep hin.1 (by omega) hS
    exact ⟨h1, (if_pos hin).trans hset, hc.mono fun j hj => ⟨hin, hj⟩, hrep1, hother, fun _ => hword⟩
  · refine ⟨h, if_neg hin, ?_, hrep, fun _ _ => rfl, fun h1 => absurd h1 hin⟩
    exact ⟨rfl, rfl, rfl, rfl, rfl, rfl, Mem.SameOutside.refl _ _⟩

lemma carve_whole (hok : HeapOk h) (hrep : FreeRep T h F S) (hS : Spaced h ((a, sz) ::ₘ S)) :
    ∃ h1, carve a sz n false h = .ok a (h1.counted (h.totalTaken sz) (h.highTaken sz))
      ∧ Changed (Mem.range a 4 ∪ headerAt h (a + sz)) h h1 ∧ FreeRep T h1 F S
      ∧ h1.u32 a = hmuSetSize (h.u32 a) sz
      ∧ (h.InHeap (a + sz) → h1.u32 (a + sz) = hmuMarkPinuse (h.u32 (a + sz))) := by
  have hmem : (a, sz) ∈ (a, sz) ::ₘ S := mem_cons_self _ _
  have hlo : h.baseAddr ≤ a := hS.lo _ hmem
  have hhi : a + sz ≤ h.endAddr := hS.hi _ hmem
  have h16 : 16 ≤ sz := hS.smallest _ hmem
  have hlt : sz < 2 ^ 30 := hS.size_lt hok hmem
  rw [carve, if_neg (by simp), run_modify_bind, run_modify_bind]
  have haddr : a % 8 = 4 := hS.addr_mod _ hmem
  have hmod : sz % 8 = 0 := hS.size_mod _ hmem
  obtain ⟨h1, hmark, hc1, hrep1, hother, hnext⟩ :=
    changeHeader_spec (b := a + sz) (fun w => hmuMarkPinuse_lt) hok hrep (by omega) fun c hc => by
      have := hS.apart_cons hc
      omega
  obtain ⟨h2, hsize, hc2, hrep2, hother2, hword2⟩ :=
    setHeader_spec (b := a) (f := fun w => hmuSetSize w sz) (fun w hw => hmuSetSize_lt hw hlt)
      (hc1.heapOk hok) hrep1 (by rw [hc1.base]; exact hlo) (by rw [hc1.endAddr]; omega)
      fun c hc => by
        have := hS.apart_cons hc
        omega
  obtain ⟨htotal, hhigh⟩ := hc1.taken sz
  rw [GcHeap.markNext, hmark, account_eq, hsize, htotal, hhigh]
  refine ⟨h2, rfl, ?_, hrep2, ?_, fun hin => ?_⟩
  · exact (hc1.mono Set.subset_union_right).trans (hc2.mono Set.subset_union_left)
  · rw [hword2, hother a (by omega)]
  · rw [hother2 _ (by omega), hnext hin]

end

/-! ## The best fit -/

/-- What is left of a chunk as a free chunk when a part of it has been taken. -/
def remainder (c : ℕ × ℕ) (size : ℕ) : Multiset (ℕ × ℕ) :=
  if size + gcSmallestSize ≤ c.2 then {(c.1 + size, c.2 - size)} else 0

section

variable {T : Prop} {h : GcHeap} {F : FreeLists} {S : Multiset (ℕ × ℕ)} {n a sz : ℕ}

lemma Spaced.addr_ne_zero {c : ℕ × ℕ} (hS : Spaced h S) (hc : c ∈ S) : c.1 ≠ 0 := by
  have := hS.addr_mod c hc
  omega

lemma smallest_le_atLeastSmallest (n : ℕ) : gcSmallestSize ≤ atLeastSmallest n := by
  rw [atLeastSmallest]
  split <;> omega

lemma scratch_subset_cons (h : GcHeap) (c : ℕ × ℕ) (S : Multiset (ℕ × ℕ)) :
    scratch h S ⊆ scratch h (c ::ₘ S) :=
  Set.union_subset_union_right _ (interior_mono (Multiset.le_cons_self _ _))

/-- The chunk that has been found is divided.  If it was the only free chunk, every free chunk has its
size in its last word now. -/
lemma allocHmu_split (hok : HeapOk h) (hrep : FreeRep T h F ((a, sz) ::ₘ S)) (hn : n % 8 = 0)
    (hsome : F.find (atLeastSmallest n) = some (a, sz))
    (hsplit : atLeastSmallest n + gcSmallestSize ≤ sz) :
    ∃ h1, allocHmu n h = .ok a (h1.counted (h.totalTaken (atLeastSmallest n))
        (h.highTaken (atLeastSmallest n)))
      ∧ Changed (Mem.range a sz ∪ scratch h ((a, sz) ::ₘ S)) h h1
      ∧ FreeRep (T ∨ S = 0) h1
        ((F.unlink (a, sz)).add (a + atLeastSmallest n, sz - atLeastSmallest n))
        ((a + atLeastSmallest n, sz - atLeastSmallest n) ::ₘ S)
      ∧ h1.u32 a = hmuSetSize (h.u32 a) (atLeastSmallest n)
      ∧ ∃ w, h1.u32 (a + atLeastSmallest n)
        = hmuMarkPinuse (hmuSetSize (hmuSetUt w hmuFc) (sz - atLeastSmallest n)) := by
  have hmem : (a, sz) ∈ (a, sz) ::ₘ S := mem_cons_self _ _
  obtain ⟨h1, hrun, hc1, hrep1⟩ := allocHmu_some hok hrep hn hsome
  obtain ⟨h2, hcarve, hc2, hrep2, hword, hrest⟩ := carve_split (hc1.heapOk hok)
    hrep1.stamped_of_zero (hc1.spaced hrep.toSpaced) (atLeastSmallest_mod hn)
    (smallest_le_atLeastSmallest n) hsplit
  -- the header has not been changed by the search
  have ha : h1.u32 a = h.u32 a := by
    refine hc1.mem.load fun j hj => ?_
    have h16 := hrep.toSpaced.smallest _ hmem
    have := hrep.toSpaced.scratch_bytes hok hmem hj
    rw [gcSmallestSize] at h16
    dsimp only at this h16
    omega
  obtain ⟨htotal, hhigh⟩ := hc1.taken (atLeastSmallest n)
  rw [decide_eq_true hsplit, hcarve, htotal, hhigh] at hrun
  rw [ha] at hword
  refine ⟨h2, hrun, ?_, hrep2, hword, _, hrest⟩
  rw [hc1.scratch_eq] at hc2
  exact (hc1.mono Set.subset_union_right).trans
    (hc2.mono (Set.union_subset_union_right _ (scratch_subset_cons h _ S)))

lemma allocHmu_whole (hok : HeapOk h) (hrep : FreeRep T h F ((a, sz) ::ₘ S)) (hn : n % 8 = 0)
    (hsome : F.find (atLeastSmallest n) = some (a, sz))
    (hsplit : ¬ atLeastSmallest n + gcSmallestSize ≤ sz) :
    ∃ h1, allocHmu n h = .ok a (h1.counted (h.totalTaken sz) (h.highTaken sz))
      ∧ Changed (Mem.range a 4 ∪ scratch h ((a, sz) ::ₘ S) ∪ headerAt h (a + sz)) h h1
      ∧ FreeRep (T ∨ S = 0) h1 (F.unlink (a, sz)) S
      ∧ h1.u32 a = hmuSetSize (h.u32 a) sz
      ∧ (h.InHeap (a + sz) → h1.u32 (a + sz) = hmuMarkPinuse (h.u32 (a + sz))) := by
  have hmem : (a, sz) ∈ (a, sz) ::ₘ S := mem_cons_self _ _
  have hS := hrep.toSpaced
  obtain ⟨h1, hrun, hc1, hrep1⟩ := allocHmu_some hok hrep hn hsome
  obtain ⟨h2, hcarve, hc2, hrep2, hword, hnext⟩ := carve_whole (n := atLeastSmallest n)
    (hc1.heapOk hok) hrep1.stamped_of_zero (hc1.spaced hS)
  have h16 : 16 ≤ sz := hS.smallest _ hmem
  -- the two headers have not been changed by the search
  have ha : h1.u32 a = h.u32 a := by
    refine hc1.mem.load fun j hj => ?_
    have := hS.scratch_bytes hok hmem hj
    dsimp only at this
    omega
  have hb : h.InHeap (a + sz) → h1.u32 (a + sz) = h.u32 (a + sz) := by
    intro hin
    have haddr : a % 8 = 4 := hS.addr_mod _ hmem
    have hmod : sz % 8 = 0 := hS.size_mod _ hmem
    have hfit := hok.header_fits hin (by omega)
    have hlo : h.baseAddr ≤ a := hS.lo _ hmem
    refine hc1.mem.load ?_
    rintro j (⟨h3, h4⟩ | ⟨c, hc, h3, h4⟩)
    · have := hok.root_apart
      omega
    · rcases mem_cons.mp hc with rfl | hc
      · dsimp only at h3 h4
        omega
      · have h5 := hS.apart_cons hc
        omega
  obtain ⟨htotal, hhigh⟩ := hc1.taken sz
  rw [decide_eq_false hsplit, hcarve, htotal, hhigh] at hrun
  rw [ha] at hword
  refine ⟨h2, hrun, ?_, hrep2, hword, fun hin => ?_⟩
  · have hheader : headerAt h1 (a + sz) = headerAt h (a + sz) := by
      ext j
      exact and_congr_left' (hc1.inHeap_iff _)
    rw [hheader] at hc2
    refine (hc1.mono ?_).trans (hc2.mono ?_)
    · exact Set.subset_union_right.trans Set.subset_union_left
    · exact Set.union_subset_union_left _ Set.subset_union_left
  · rw [hnext ((hc1.inHeap_iff _).mpr hin), hb hin]

lemma allocHmu_cases (hok : HeapOk h) (hrep : FreeRep T h F S) (hn : n % 8 = 0) :
    allocHmu n h = .ok 0 h ∧ (∀ c ∈ S, c.2 < atLeastSmallest n)
      ∨ ∃ c S' h' F', S = c ::ₘ S' ∧ atLeastSmallest n ≤ c.2
        ∧ (∀ d ∈ S, atLeastSmallest n ≤ d.2 → c.2 ≤ d.2) ∧ allocHmu n h = .ok c.1 h'
        ∧ FreeRep (T ∨ S' = 0) h' F' (remainder c (atLeastSmallest n) + S') := by
  have hS := hrep.toSpaced
  rcases FreeLists.find_bestFit hrep.holds (fun c hc => hS.addr_ne_zero hc) hS.size_mod
    (atLeastSmallest_mod hn) with ⟨hnone, hall⟩ | ⟨c, hc, hsome, hle, hmin⟩
  · exact .inl ⟨allocHmu_none hok hrep hnone, hall⟩
  · obtain ⟨S', rfl⟩ := Multiset.exists_cons_of_mem hc
    by_cases hsplit : atLeastSmallest n + gcSmallestSize ≤ c.2
    · obtain ⟨h1, hrun, -, hrep1, -⟩ := allocHmu_split hok hrep hn hsome hsplit
      refine .inr ⟨c, S', _, (F.unlink c).add (c.1 + atLeastSmallest n, c.2 - atLeastSmallest n), rfl,
        hle, hmin, hrun, ?_⟩
      rw [remainder, if_pos hsplit, Multiset.singleton_add]
      exact hrep1.counted _ _
    · obtain ⟨h1, hrun, -, hrep1, -⟩ := allocHmu_whole hok hrep hn hsome hsplit
      refine .inr ⟨c, S', _, F.unlink c, rfl, hle, hmin, hrun, ?_⟩
      rw [remainder, if_neg hsplit, zero_add]
      exact hrep1.counted _ _

end

/-- **The search for a free chunk is complete and takes the best fit.**  For every heap with its free
chunks in lists and tree: `alloc_hmu` returns; it returns the null pointer exactly if no free chunk
has the requested size, which is at least the smallest one; otherwise it takes a chunk of the
smallest sufficient size, and what is left is a free chunk again.  `gci_add_fc` and
`remove_tree_node` keep the free chunks in lists and tree, with the order and the links of the
tree. -/
theorem allocHmu_bestFit (T : Prop) (h : GcHeap) (F : FreeLists) (S : Multiset (ℕ × ℕ)) (n : ℕ)
    (hok : HeapOk h) (hrep : FreeRep T h F S) (hn : n % 8 = 0) :
    (∃ p h', allocHmu n h = .ok p h'
      ∧ (p = 0 ↔ ∀ c ∈ S, c.2 < atLeastSmallest n)
      ∧ (p ≠ 0 → ∃ c S' F', S = c ::ₘ S' ∧ p = c.1 ∧ atLeastSmallest n ≤ c.2
        ∧ (∀ d ∈ S, atLeastSmallest n ≤ d.2 → c.2 ≤ d.2)
        ∧ FreeRep (T ∨ S' = 0) h' F' (remainder c (atLeastSmallest n) + S')))
      ∧ (∀ c, Spaced h (c ::ₘ S) →
        ∃ h' F', gciAddFc c.1 c.2 h = .ok () h' ∧ FreeRep T h' F' (c ::ₘ S))
      ∧ ∀ c S', S = c ::ₘ S' → hmuFcNormalMaxSize ≤ c.2 →
        ∃ h' F', removeTreeNode h.currentSize c.1 h = .ok () h' ∧ FreeRep T h' F' S' := by
  refine ⟨?_, ?_, ?_⟩
  · rcases allocHmu_cases hok hrep hn with ⟨hrun, hall⟩ | ⟨c, S', h', F', rfl, hle, hmin, hrun, hrep'⟩
    · exact ⟨0, h, hrun, iff_of_true rfl hall, fun hne => absurd rfl hne⟩
    · have hc : c ∈ c ::ₘ S' := mem_cons_self _ _
      have hne := hrep.toSpaced.addr_ne_zero hc
      refine ⟨c.1, h', hrun, iff_of_false hne fun hall => ?_, fun _ => ?_⟩
      · exact absurd (hall c hc) (not_lt.mpr hle)
      · exact ⟨c, S', F', rfl, rfl, hle, hmin, hrep'⟩
  · intro c hS
    obtain ⟨h', hrun, -, hrep', -⟩ := gciAddFc_spec hok hrep hS
    exact ⟨h', _, hrun, hrep'⟩
  · rintro c S' rfl hlarge
    obtain ⟨h', hrun, -, hrep', -⟩ := removeTree_spec hok hrep hlarge
    exact ⟨h', _, hrun, hrep'⟩

/-- A free chunk in a list and two in the tree. -/
def sampleFree : Multiset (ℕ × ℕ) := {(16388, 64), (16516, 320), (16900, 264)}

lemma exists_freeRep_sample : ∃ h F, HeapOk h ∧ FreeRep False h F sampleFree := by
  obtain ⟨hok, hrep⟩ := gcInitInternal_freeRep (fun _ => 0)
    (show InitOk 8192 16388 1024 by constructor <;> decide)
  have hspaced : Spaced (gcInitInternal 8192 16388 1024 fun _ => 0) sampleFree := by
    constructor <;> decide
  generalize gcInitInternal 8192 16388 1024 (fun _ => 0) = h₀ at *
  -- the chunk with which the heap begins is removed, and the three are added
  have hadd : ∀ {h F S c}, Changed Set.univ h₀ h → FreeRep False h F S → c ::ₘ S ≤ sampleFree →
      ∃ h' F', Changed Set.univ h₀ h' ∧ FreeRep False h' F' (c ::ₘ S) := by
    intro h F S c hc hrep hle
    obtain ⟨h', -, hc', hrep', -⟩ :=
      gciAddFc_spec (hc.heapOk hok) hrep (hc.spaced (hspaced.of_le hle))
    exact ⟨h', _, hc.trans (hc'.mono (Set.subset_univ _)), hrep'⟩
  obtain ⟨h1, -, hc1, hrep1, -⟩ := removeTree_spec hok hrep (by decide)
  obtain ⟨h2, F₂, hc2, hrep2⟩ := hadd (hc1.mono (Set.subset_univ _)) hrep1
    (show {(16900, 264)} ≤ sampleFree by decide)
  obtain ⟨h3, F₃, hc3, hrep3⟩ := hadd hc2 hrep2
    (show {(16516, 320), (16900, 264)} ≤ sampleFree by decide)
  obtain ⟨h4, F₄, hc4, hrep4⟩ := hadd hc3 hrep3 (le_refl sampleFree)
  exact ⟨h4, F₄, hc4.heapOk hok, hrep4⟩

/-- The smaller chunk of the tree is taken for a request that the chunk in the list is too small
for. -/
theorem allocHmu_bestFit_sample :
    ∃ h F, HeapOk h ∧ FreeRep False h F sampleFree ∧ ∃ h', allocHmu 200 h = .ok 16900 h' := by
  obtain ⟨h, F, hok, hrep⟩ := exists_freeRep_sample
  obtain ⟨⟨p, h', hrun, hzero, hfit⟩, -⟩ := allocHmu_bestFit _ _ _ _ 200 hok hrep (by decide)
  have hne : p ≠ 0 := fun h0 => absurd (hzero.mp h0) (by decide)
  obtain ⟨c, S', -, hS, rfl, hle, hmin, -⟩ := hfit hne
  have hchosen : ∀ c ∈ sampleFree, atLeastSmallest 200 ≤ c.2 →
      (∀ d ∈ sampleFree, atLeastSmallest 200 ≤ d.2 → c.2 ≤ d.2) → c.1 = 16900 := by decide
  have hp : c.1 = 16900 := hchosen c (hS ▸ mem_cons_self _ _) hle hmin
  exact ⟨h, F, hok, hrep, h', hp ▸ hrun⟩

end Watz.Ems
