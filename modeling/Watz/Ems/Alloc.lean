import Watz.Ems.Layout

/-!
# Allocating an object

When chunks are taken, divided or joined, one part of the heap gets other chunks.  What is before it
and behind it stays as it is, up to the links of lists and tree and the header of the next chunk.
A request takes a free chunk, or a part of it, and marks it as an object.
-/

namespace Watz.Ems

open Lib

/-! ## Gaps -/

/-- A part of the heap between two lists of chunks.  The first word of it is the header of a chunk
that was there, and its bit for the chunk before is right. -/
structure Gap (h : GcHeap) (pre : List Chunk) (a sz : ℕ) (post : List Chunk) : Prop where
  ok : HeapOk h
  sound : h.isHeapCorrupted = false
  tilesPre : Tiles h.baseAddr pre a
  tilesPost : Tiles (a + sz) post h.endAddr
  smallest : 16 ≤ sz
  size_mod : sz % 8 = 0
  before : Headers h.u32 true pre
  pinuse : hmuGetPinuse (h.u32 a) = (lastUsed true pre).toNat
  behind : ∃ p, Headers h.u32 p post

/-- What may change when a part of the heap gets other chunks: its bytes, the links of lists and tree,
and the header of the chunk behind. -/
def editScratch (h : GcHeap) (pre : List Chunk) (a sz : ℕ) (post : List Chunk) : Set ℕ :=
  Mem.range a sz ∪ scratch h (freeOf pre + freeOf post) ∪ headerAt h (a + sz)

section

variable {h h' : GcHeap} {cs pre post mid : List Chunk} {F : FreeLists} {a sz : ℕ} {c d : Chunk}

lemma HeapRep.gap (hrep : HeapRep h (pre ++ c :: post) F) : Gap h pre c.addr c.size post := by
  obtain ⟨m, htiles, rfl, h16, hmod, htiles'⟩ := tiles_append.mp hrep.tiles
  obtain ⟨hpre, hself, -, hpost⟩ := headers_append.mp hrep.headers
  exact ⟨hrep.ok, hrep.sound, htiles, htiles', h16, hmod, hpre, hself.pinuse, _, hpost⟩

namespace Gap

variable (hgap : Gap h pre a sz post)

include hgap

lemma tiles (used : Bool) :
    Tiles h.baseAddr (pre ++ ⟨a, sz, used⟩ :: post) h.endAddr :=
  tiles_append.mpr ⟨a, hgap.tilesPre, rfl, hgap.smallest, hgap.size_mod, hgap.tilesPost⟩

lemma bounds :
    h.baseAddr ≤ a ∧ a + sz ≤ h.endAddr ∧ a % 8 = 4 ∧ sz < 2 ^ 30 := by
  obtain ⟨h1, h2, -, -, h3⟩ := (hgap.tiles true).bounds (c := ⟨a, sz, true⟩) (by simp)
  have h4 := hgap.ok.base_mod
  have h5 := hgap.ok.size_lt
  rw [GcHeap.endAddr] at h2 ⊢
  dsimp only at h1 h2 h3
  omega

lemma next (hd : d ∈ post.head?) :
    d.addr = a + sz ∧ h.InHeap (a + sz) ∧ ∃ p, HeaderOk (h.u32 (a + sz)) p d := by
  obtain ⟨rest, rfl⟩ : ∃ rest, post = d :: rest := List.head?_eq_some_iff.mp hd
  obtain ⟨p, hself, -⟩ := hgap.behind
  have haddr : d.addr = a + sz := hgap.tilesPost.1
  have h1 := hgap.bounds
  have h2 := hgap.tilesPost.bounds (c := d) (by simp)
  rw [haddr] at hself
  exact ⟨haddr, ⟨by omega, by omega⟩, p, hself⟩

lemma scratch_apart {j : ℕ} (hd : d ∈ pre ++ ⟨a, sz, true⟩ :: post)
    (hj : j ∈ scratch h (freeOf pre + freeOf post)) :
    (j < d.addr ∨ d.addr + 4 ≤ j) ∧ (d.used = true → j < d.addr ∨ d.addr + d.size ≤ j) := by
  refine (hgap.tiles true).scratch_apart hgap.ok hd ?_
  rwa [freeOf_append, freeOf_cons_used rfl]

/-- The headers before the gap, and those behind it except for the first, are kept. -/
lemma header_eq (hc : Changed (editScratch h pre a sz post) h h')
    (hd : d ∈ pre ∨ d ∈ post.tail) : h'.u32 d.addr = h.u32 d.addr := by
  have hmem : d ∈ pre ++ ⟨a, sz, true⟩ :: post := by
    rcases hd with hd | hd
    · exact List.mem_append_left _ hd
    · exact List.mem_append_right _ (List.mem_cons_of_mem _ (List.mem_of_mem_tail hd))
  have hapart : d.addr + 4 ≤ a ∨ a + sz + 4 ≤ d.addr := by
    rcases hd with hd | hd
    · have := hgap.tilesPre.bounds hd
      omega
    · obtain ⟨x, rest, rfl⟩ : ∃ x rest, post = x :: rest :=
        List.exists_cons_of_ne_nil fun h0 => by simp [h0] at hd
      obtain ⟨-, h1, -, htiles⟩ := hgap.tilesPost
      have h2 := htiles.bounds hd
      rw [gcSmallestSize] at h1
      omega
  refine hc.mem.load ?_
  rintro j ((⟨h1, h2⟩ | hj) | ⟨-, h1, h2⟩)
  · omega
  · exact (hgap.scratch_apart hmem hj).1
  · omega

/-- The objects before and behind the gap are kept. -/
lemma editScratch_subset :
    editScratch h pre a sz post ⊆ elsewhere (objects (pre ++ post)) := by
  intro j hj d hd
  obtain ⟨hd, hused⟩ := mem_objects.mp hd
  have hmem : d ∈ pre ++ ⟨a, sz, true⟩ :: post := by
    rcases List.mem_append.mp hd with hd | hd <;> simp [hd]
  have hapart : d.addr + d.size ≤ a ∨ a + sz ≤ d.addr := by
    rcases List.mem_append.mp hd with hd | hd
    · exact .inl (hgap.tilesPre.bounds hd).2.1
    · exact .inr (hgap.tilesPost.bounds hd).1
  rcases hj with (⟨h1, h2⟩ | hj) | ⟨-, h1, h2⟩
  · omega
  · have := (hgap.scratch_apart hmem hj).2 hused
    omega
  · omega

lemma fill (hc : Changed (editScratch h pre a sz post) h h')
    (hmid : Tiles a mid (a + sz)) (hheaders : Headers h'.u32 (lastUsed true pre) mid)
    (hnext : ∀ d ∈ post.head?, HeaderOk (h'.u32 d.addr) (lastUsed (lastUsed true pre) mid) d
      ∧ (lastUsed (lastUsed true pre) mid = true ∨ d.used = true))
    (hfree : FreeRep False h' F (freeOf (pre ++ (mid ++ post)))) :
    HeapRep h' (pre ++ (mid ++ post)) F := by
  refine ⟨hc.heapOk hgap.ok, hc.sound.trans hgap.sound, ?_, ?_, hfree⟩
  · rw [hc.base, hc.endAddr]
    exact tiles_append.mpr ⟨a, hgap.tilesPre, tiles_append.mpr ⟨_, hmid, hgap.tilesPost⟩⟩
  · obtain ⟨p, hpost⟩ := hgap.behind
    have hpre := hgap.before.congr fun d hd => hgap.header_eq hc (.inl hd)
    have hpost' := hpost.set_head hnext fun d hd => hgap.header_eq hc (.inr hd)
    exact headers_append.mpr ⟨hpre, headers_append.mpr ⟨hheaders, hpost'⟩⟩

end Gap

end

/-! ## Taking a chunk -/

/-- A free chunk has been taken, or a part of it, and is an object now. -/
structure Taken (h : GcHeap) (cs : List Chunk) (a k : ℕ) (h' : GcHeap) (cs' : List Chunk)
    (F' : FreeLists) : Prop where
  objs : (objects cs').Perm (⟨a, k, true⟩ :: objects cs)
  changed : Changed (elsewhere (objects cs)) (h.counted (h.totalTaken k) (h.highTaken k)) h'
  rep : HeapRep h' cs' F'

section

variable {h h1 h' : GcHeap} {cs cs' pre post rest : List Chunk} {F F' : FreeLists}
  {a sz k n size : ℕ} {c : Chunk}

lemma counted_markVo (h : GcHeap) (t u : ℕ) :
    (h.counted t u).markVo a = (h.markVo a).counted t u := rfl

lemma counted_chunkSize (h : GcHeap) (t u : ℕ) : (h.counted t u).chunkSize a = h.chunkSize a := rfl

lemma Changed.counted {R : Set ℕ} (hc : Changed R h h') (t u : ℕ) :
    Changed R (h.counted t u) (h'.counted t u) :=
  ⟨hc.heapId, hc.base, hc.size, hc.sound, rfl, rfl, hc.mem⟩

lemma u32_markVo_self (h : GcHeap) (a : ℕ) :
    (h.markVo a).u32 a = hmuUnfreeVo (hmuSetUt (h.u32 a) hmuVo) :=
  GcHeap.u32_setHeader_self (hmuUnfreeVo_lt (hmuSetUt_lt (by decide)))

lemma HeaderOk.taken {w : ℕ} {p : Bool} (hw : hmuGetPinuse w = p.toNat) (hk : k < 2 ^ 30)
    (hmod : k % 8 = 0) :
    HeaderOk (hmuUnfreeVo (hmuSetUt (hmuSetSize w k) hmuVo)) p ⟨a, k, true⟩ := by
  refine ⟨?_, ?_, ?_, fun _ => hmuIsVoFreed_hmuUnfreeVo⟩
  · rw [hmuGetSize_hmuUnfreeVo, hmuGetSize_hmuSetUt, hmuGetSize_hmuSetSize hk hmod]
  · rw [hmuGetUt_hmuUnfreeVo, hmuGetUt_hmuSetUt]
    rfl
  · rw [hmuGetPinuse_hmuUnfreeVo, hmuGetPinuse_hmuSetUt, hmuGetPinuse_hmuSetSize hk, hw]

lemma HeaderOk.free {w : ℕ} {p : Bool} (hw : hmuGetPinuse w = p.toNat) (hk : k < 2 ^ 30)
    (hmod : k % 8 = 0) : HeaderOk (hmuSetSize (hmuSetUt w hmuFc) k) p ⟨a, k, false⟩ := by
  refine ⟨hmuGetSize_hmuSetSize hk hmod, ?_, ?_, fun hused => Bool.noConfusion hused⟩
  · rw [hmuGetUt_hmuSetSize hk, hmuGetUt_hmuSetUt]
    rfl
  · rw [hmuGetPinuse_hmuSetSize hk, hmuGetPinuse_hmuSetUt, hw]

lemma Gap.mark (hgap : Gap h pre a sz post) (hc : Changed (editScratch h pre a sz post) h h1)
    (h16 : 16 ≤ k) (hmod : k % 8 = 0) (hrest : Tiles (a + k) rest (a + sz))
    (hword : h1.u32 a = hmuSetSize (h.u32 a) k) (hheaders : Headers h1.u32 true rest)
    (hnext : ∀ d ∈ post.head?, HeaderOk (h1.u32 d.addr) (lastUsed true rest) d
      ∧ (lastUsed true rest = true ∨ d.used = true))
    (hfree : FreeRep False h1 F (freeOf rest + (freeOf pre + freeOf post))) :
    h1.chunkSize a = k ∧ Changed (editScratch h pre a sz post) h (h1.markVo a)
      ∧ HeapRep (h1.markVo a) (pre ++ (⟨a, k, true⟩ :: rest ++ post)) F := by
  obtain ⟨hlo, hhi, -, hlt⟩ := hgap.bounds
  have hle := hrest.le
  have hsize : h1.chunkSize a = k := by
    rw [GcHeap.chunkSize, hword, hmuGetSize_hmuSetSize (by omega) hmod]
  have hc2 : Changed (Mem.range a 4) h1 (h1.markVo a) := changed_setHeader h1 a _
  have hself := u32_markVo_self h1 a
  have hlists : (h1.markVo a).kfcNormalList = h1.kfcNormalList := rfl
  have hc' : Changed (editScratch h pre a sz post) h (h1.markVo a) := by
    refine hc.trans (hc2.mono ?_)
    rintro j ⟨h2, h3⟩
    exact .inl (.inl ⟨h2, by have := hgap.smallest; omega⟩)
  generalize h1.markVo a = h2 at *
  -- only the header of the object has been changed
  have hother : ∀ x, a + 4 ≤ x → h2.u32 x = h1.u32 x := fun x hx => hc2.mem.load <| by
    rintro j ⟨h3, h4⟩
    omega
  have hmid : Tiles a (⟨a, k, true⟩ :: rest) (a + sz) := ⟨rfl, h16, hmod, hrest⟩
  refine ⟨hsize, hc', hgap.fill hc' hmid ⟨?_, .inr rfl, ?_⟩ ?_ ?_⟩
  · show HeaderOk (h2.u32 a) _ _
    rw [hself, hword]
    exact .taken hgap.pinuse (by omega) hmod
  · refine hheaders.congr fun d hd => hother _ ?_
    have := hrest.bounds hd
    omega
  · intro d hd
    have := hgap.next hd
    rw [hother d.addr (by omega)]
    exact hnext d hd
  · have hfreeOf : freeOf (pre ++ (⟨a, k, true⟩ :: rest ++ post))
        = freeOf rest + (freeOf pre + freeOf post) := by
      rw [freeOf_append, List.cons_append, freeOf_cons_used rfl, freeOf_append, add_left_comm]
    rw [hfreeOf]
    refine hfree.frame_header (hc.heapOk hgap.ok) hc2 hlists ?_ ?_ fun c hc => ?_
    · rw [hc.base]
      exact hlo
    · rw [hc.endAddr]
      omega
    · rw [← hfreeOf] at hc
      obtain ⟨d, hd, hd', rfl⟩ := mem_freeOf.mp hc
      have htiles := tiles_append.mpr ⟨a, hgap.tilesPre, tiles_append.mpr ⟨_, hmid, hgap.tilesPost⟩⟩
      have := htiles.apart_of_ne (c := ⟨a, k, true⟩) (d := d) (by simp) hd fun heq => by
        rw [← heq] at hd'
        cases hd'
      dsimp only [Chunk.extent] at this ⊢
      omega

lemma HeapRep.of_free (hrep : HeapRep h (pre ++ c :: post) F) (hc : c.used = false) :
    ∀ d ∈ post.head?, d.used = true ∧ HeaderOk (h.u32 d.addr) false d := by
  obtain ⟨-, -, -, hpost⟩ := headers_append.mp hrep.headers
  intro d hd
  obtain ⟨rest, rfl⟩ : ∃ rest, post = d :: rest := List.head?_eq_some_iff.mp hd
  rw [hc] at hpost
  exact ⟨hpost.2.1.resolve_left (by decide), hpost.1⟩

lemma FreeRep.unstamped {T : Prop} {S : Multiset (ℕ × ℕ)} (hrep : FreeRep T h F S) :
    FreeRep False h F S :=
  ⟨hrep.toSpaced, hrep.holds, hrep.lists, hrep.tree, hrep.nodeSize,
    fun c hc hend => hrep.lastWord c hc (hend.imp_right False.elim), hrep.root⟩

lemma freeOf_middle :
    freeOf (pre ++ ⟨a, sz, false⟩ :: post) = (a, sz) ::ₘ (freeOf pre + freeOf post) := by
  rw [freeOf_append, freeOf_cons_free rfl, Multiset.add_cons, Chunk.extent]

/-- The links in a chunk that is taken are bytes of the gap. -/
lemma scratch_subset_editScratch :
    scratch h ((a, sz) ::ₘ (freeOf pre + freeOf post)) ⊆ editScratch h pre a sz post := by
  rintro j (hj | ⟨c, hc, h1, h2⟩)
  · exact .inl (.inr (.inl hj))
  · rcases Multiset.mem_cons.mp hc with rfl | hc
    · dsimp only at h1 h2
      exact .inl (.inl ⟨by omega, by omega⟩)
    · exact .inl (.inr (.inr ⟨c, hc, h1, h2⟩))

lemma HeapRep.take (hrep : HeapRep h (pre ++ ⟨a, sz, false⟩ :: post) F) (hn : n % 8 = 0)
    (hsome : F.find (atLeastSmallest n) = some (a, sz)) (hle : atLeastSmallest n ≤ sz) :
    ∃ (k : ℕ) (rest : List Chunk) (h1 : GcHeap) (F' : FreeLists), n ≤ k ∧ objects rest = []
      ∧ allocHmu n h = .ok a (h1.counted (h.totalTaken k) (h.highTaken k)) ∧ h1.chunkSize a = k
      ∧ Changed (editScratch h pre a sz post) h (h1.markVo a)
      ∧ HeapRep (h1.markVo a) (pre ++ (⟨a, k, true⟩ :: rest ++ post)) F' := by
  have hgap : Gap h pre a sz post := hrep.gap
  have hN := atLeastSmallest_mod hn
  have hN16 := smallest_le_atLeastSmallest n
  have hnN : n ≤ atLeastSmallest n := by
    rw [atLeastSmallest]
    split <;> omega
  obtain ⟨-, -, -, hlt⟩ := hgap.bounds
  have hmod := hgap.size_mod
  have h16 := hgap.smallest
  have hfree := hrep.free
  rw [freeOf_middle] at hfree
  have hrange : Mem.range a sz ⊆ editScratch h pre a sz post :=
    Set.subset_union_left.trans Set.subset_union_left
  by_cases hsplit : atLeastSmallest n + gcSmallestSize ≤ sz
  · obtain ⟨h1, hrun, hc, hfree1, hword, w, hrest⟩ := allocHmu_split hrep.ok hfree hn hsome hsplit
    have hc' := hc.mono (Set.union_subset hrange scratch_subset_editScratch)
    generalize atLeastSmallest n = k at *
    rw [gcSmallestSize] at hsplit hN16
    have htiles : Tiles (a + k) [⟨a + k, sz - k, false⟩] (a + sz) :=
      ⟨rfl, by show 16 ≤ sz - k; omega, by show (sz - k) % 8 = 0; omega,
        by show a + k + (sz - k) = a + sz; omega⟩
    have hheaders : Headers h1.u32 true [⟨a + k, sz - k, false⟩] := by
      refine ⟨?_, .inl rfl, trivial⟩
      show HeaderOk (h1.u32 (a + k)) true _
      rw [hrest]
      have hbit : hmuGetPinuse w = (decide (hmuGetPinuse w = 1)).toNat := by
        have : hmuGetPinuse w < 2 := Nat.mod_lt _ (by decide)
        interval_cases hmuGetPinuse w <;> rfl
      exact (HeaderOk.free hbit (by omega) (by omega)).mark
    -- nothing is written behind the chunk
    have hnext : ∀ d ∈ post.head?, HeaderOk (h1.u32 d.addr) false d
        ∧ (false = true ∨ d.used = true) := fun d hd => by
      obtain ⟨hused, hheader⟩ := hrep.of_free rfl d hd
      have hmem : d ∈ pre ++ ⟨a, sz, false⟩ :: post := by simp [List.mem_of_mem_head? hd]
      have haddr := (hgap.next hd).1
      have hsame : h1.u32 d.addr = h.u32 d.addr := by
        refine hc.mem.load ?_
        rintro j (⟨h2, h3⟩ | hj)
        · omega
        · rw [← freeOf_middle] at hj
          exact (hrep.tiles.scratch_apart hrep.ok hmem hj).1
      rw [hsame]
      exact ⟨hheader, .inr hused⟩
    obtain ⟨hsize, hc2, hrep2⟩ :=
      hgap.mark hc' hN16 hN htiles hword hheaders hnext hfree1.unstamped
    exact ⟨k, _, h1, _, hnN, rfl, hrun, hsize, hc2, hrep2⟩
  · obtain ⟨h1, hrun, hc, hfree1, hword, hmark⟩ := allocHmu_whole hrep.ok hfree hn hsome hsplit
    have hheader : Mem.range a 4 ⊆ Mem.range a sz := by
      rintro j ⟨h2, h3⟩
      exact ⟨h2, by omega⟩
    have hc' := hc.mono (Set.union_subset (Set.union_subset (hheader.trans hrange)
      scratch_subset_editScratch) Set.subset_union_right)
    have hnext : ∀ d ∈ post.head?, HeaderOk (h1.u32 d.addr) true d
        ∧ (true = true ∨ d.used = true) := fun d hd => by
      obtain ⟨haddr, hin, -⟩ := hgap.next hd
      have hheader := (hrep.of_free rfl d hd).2
      rw [haddr] at hheader ⊢
      rw [hmark hin]
      exact ⟨hheader.mark, .inl rfl⟩
    have hrest : Tiles (a + sz) [] (a + sz) := rfl
    obtain ⟨hsize, hc2, hrep2⟩ := hgap.mark hc' h16 hmod hrest hword trivial hnext
      (by rw [freeOf_nil, zero_add]; exact hfree1.unstamped)
    exact ⟨sz, [], h1, _, hnN.trans hle, rfl, hrun, hsize, hc2, hrep2⟩

/-- There is a free chunk for a request. -/
def HasRoom (cs : List Chunk) (n : ℕ) : Prop := ∃ c ∈ freeOf cs, atLeastSmallest n ≤ c.2

lemma HeapRep.alloc (hrep : HeapRep h cs F) (hn : n % 8 = 0) :
    ¬ HasRoom cs n ∧ allocHmu n h = .ok 0 h
      ∨ HasRoom cs n ∧ ∃ a k h1 cs' F', a ≠ 0 ∧ n ≤ k ∧ allocHmu n h = .ok a h1
        ∧ h1.chunkSize a = k ∧ Taken h cs a k (h1.markVo a) cs' F' := by
  have hS := hrep.free.toSpaced
  rcases FreeLists.find_bestFit hrep.free.holds (fun c hc => hS.addr_ne_zero hc) hS.size_mod
    (atLeastSmallest_mod hn) with ⟨hnone, hall⟩ | ⟨⟨a, sz⟩, hc, hsome, hle, -⟩
  · refine .inl ⟨?_, allocHmu_none hrep.ok hrep.free hnone⟩
    rintro ⟨c, hc, hle⟩
    exact absurd (hall c hc) (not_lt.mpr hle)
  refine .inr ⟨⟨_, hc, hle⟩, ?_⟩
  obtain ⟨⟨x, sx, used⟩, hmem, rfl, hextent⟩ := mem_freeOf.mp hc
  obtain ⟨rfl, rfl⟩ : x = a ∧ sx = sz := Prod.ext_iff.mp hextent
  have hne : x ≠ 0 := hrep.addr_ne_zero hmem
  obtain ⟨pre, post, rfl⟩ := List.append_of_mem hmem
  obtain ⟨k, rest, h1, F', hk, hobjs, hrun, hsize, hchanged, hrep'⟩ := hrep.take hn hsome hle
  have hgap : Gap h pre x sx post := hrep.gap
  have hchanged' := hchanged.mono hgap.editScratch_subset
  refine ⟨x, k, h1.counted (h.totalTaken k) (h.highTaken k),
    pre ++ (⟨x, k, true⟩ :: rest ++ post), F', hne, hk, hrun, ?_, ?_⟩
  · rw [counted_chunkSize, hsize]
  rw [counted_markVo]
  generalize h1.markVo x = h2 at *
  have hobjects : objects (pre ++ ⟨x, sx, false⟩ :: post) = objects (pre ++ post) := by
    rw [objects_append, objects_cons_free rfl, objects_append]
  refine ⟨?_, by rw [hobjects]; exact hchanged'.counted _ _, hrep'.counted _ _⟩
  rw [hobjects, objects_append, List.cons_append, objects_cons_used rfl, objects_append, hobjs,
    List.nil_append, objects_append]
  exact List.perm_middle

lemma HeapRep.addr_ne {objs : List Chunk} (hrep : HeapRep h cs F)
    (hobjs : (objects cs).Perm (c :: objs)) : ∀ d ∈ objs, d.addr ≠ c.addr := by
  have hpair : (objects cs).Pairwise fun x y => x.addr ≠ y.addr :=
    (hrep.tiles.pairwise.imp_of_mem fun {x y} hx _ hle => by
      have := (hrep.tiles.bounds hx).2.2.1
      omega).filter _
  have hcons := hobjs.pairwise hpair fun {_ _} => Ne.symm
  exact fun d hd => ((List.pairwise_cons.mp hcons).1 d hd).symm

namespace Taken

lemma mem (htaken : Taken h cs a k h' cs' F') : ⟨a, k, true⟩ ∈ objects cs' :=
  htaken.objs.mem_iff.mpr List.mem_cons_self

lemma apart (htaken : Taken h cs a k h' cs' F') (hc : c ∈ objects cs) :
    c.addr + c.size ≤ a ∨ a + k ≤ c.addr := by
  have hc' := htaken.objs.mem_iff.mpr (List.mem_cons_of_mem _ hc)
  have hne := htaken.rep.addr_ne htaken.objs c hc
  exact htaken.rep.tiles.apart_of_ne (mem_objects.mp hc').1 (mem_objects.mp htaken.mem).1
    fun heq => hne (congrArg Chunk.addr heq)

lemma set {m' : Mem} (htaken : Taken h cs a k h' cs' F')
    (hm' : Mem.SameOutside (Mem.range (a + 4) (k - 4)) h'.mem m') :
    Taken h cs a k { h' with mem := m' } cs' F' := by
  have hset : Changed (Mem.range (a + 4) (k - 4)) h' { h' with mem := m' } := .of_mem hm'
  refine ⟨htaken.objs, htaken.changed.trans (hset.mono ?_), htaken.rep.frame hset rfl ?_⟩
  · rintro j ⟨h1, h2⟩ d hd
    have := htaken.apart hd
    omega
  · rintro j ⟨h1, h2⟩
    obtain ⟨hmem, hused⟩ := mem_objects.mp htaken.mem
    exact ⟨_, hmem, hused, h1, by dsimp only; omega⟩

end Taken

/-- The size of a chunk for a request that is not too large for a word. -/
lemma totSize_spec (hsize : ¬ totSize size < size) :
    totSizeUnaligned size = size + 4 ∧ size + 4 ≤ totSize size ∧ totSize size % 8 = 0 := by
  rw [totSize, totSizeUnaligned] at hsize ⊢
  omega

/-- The size of the request overflows, or there is no free chunk for it. -/
def Refused (cs : List Chunk) (size : ℕ) : Prop :=
  totSize size < size ∨ ¬ HasRoom cs (totSize size)

lemma gcAllocVo_spec (hrep : HeapRep h cs F) (size : ℕ) :
    Refused cs size ∧ gcAllocVo size h = (0, h)
      ∨ ¬ Refused cs size ∧ ∃ a k h' cs' F', gcAllocVo size h = (a + 4, h') ∧ size + 4 ≤ k
        ∧ Taken h cs a k h' cs' F' := by
  by_cases hsize : totSize size < size
  · exact .inl ⟨.inl hsize, if_pos hsize⟩
  obtain ⟨htot, hle, hmod⟩ := totSize_spec hsize
  rw [gcAllocVo, if_neg hsize, if_neg (by rw [hrep.sound]; decide)]
  rcases hrep.alloc hmod with
    ⟨hroom, hrun⟩ | ⟨hroom, a, k, h1, cs', F', ha, hk, hrun, hchunk, htaken⟩
  · exact .inl ⟨.inr hroom, by rw [hrun]; exact if_pos rfl⟩
  refine .inr ⟨not_or.mpr ⟨hsize, not_not.mpr hroom⟩, a, k, ?_⟩
  rw [hrun]
  dsimp only
  rw [if_neg ha, hchunk, htot]
  generalize h1.markVo a = h2 at *
  by_cases hpad : k > size + 4
  · rw [if_pos hpad]
    refine ⟨_, cs', F', rfl, by omega, htaken.set (Mem.sameOutside_clear.mono ?_)⟩
    rintro j ⟨h3, h4⟩
    exact ⟨by omega, by omega⟩
  · rw [if_neg hpad]
    exact ⟨h2, cs', F', rfl, by omega, htaken⟩

end

end Watz.Ems
