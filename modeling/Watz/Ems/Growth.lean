import Watz.Ems.Contract

/-!
# Growing an object in place

If the chunk behind an object is free and large enough, `gc_realloc_vo` takes what it needs of it.
The object keeps its bytes and its place.  But the counters and the bit in the header behind it are
not changed, so that the heap is not well formed any more.
-/

namespace Watz.Ems

open Lib

section

variable {h : GcHeap} {pre post : List Chunk} {F : FreeLists} {a tot : ℕ} {c d : Chunk}

/-- What is left of a chunk becomes free.  It can have eight bytes only, and the link to the next
chunk of the list is then where the size has been. -/
lemma gciAddFc_part {S : Multiset (ℕ × ℕ)} {sz b rem : ℕ} (hok : HeapOk h)
    (hfree : FreeRep False h F S) (hS : Spaced h ((a, sz) ::ₘ S)) (hlo : a ≤ b)
    (hhi : b + rem = a + sz) (hrem : 0 < rem) (hmod : rem % 8 = 0) :
    ∃ h', gciAddFc b rem h = .ok () h' ∧ Changed (Mem.range b rem ∪ scratch h S) h h'
      ∧ h'.u32 b = hmuSetSize (hmuSetUt (h.u32 b) hmuFc) rem := by
  have hmem : (a, sz) ∈ (a, sz) ::ₘ S := Multiset.mem_cons_self _ _
  have h1 := hS.lo _ hmem
  have h2 := hS.hi _ hmem
  have h3 := hS.addr_mod _ hmem
  have h₄ := hS.size_mod _ hmem
  dsimp only at h1 h2 h3 h₄
  by_cases h16 : 16 ≤ rem
  · obtain ⟨h', hrun, hc, -, hword⟩ :=
      gciAddFc_spec hok hfree (hS.part hlo hhi.le (by omega) hmod h16)
    exact ⟨h', hrun, hc, hword⟩
  · have hin : h.InHeap b := ⟨by omega, by omega⟩
    obtain ⟨hrun, hc, hword⟩ := gciAddFc_small hin (by omega) hmod
      (by rw [hmuFcNormalMaxSize]; omega)
    exact ⟨_, hrun, hc.mono Set.subset_union_left, hword⟩

/-- The object gets its new size, and what it gets of the chunk behind it is cleared. -/
lemma growHeader_spec {S : Multiset (ℕ × ℕ)} (hok : HeapOk h) (hfree : FreeRep False h F S)
    (hS : Spaced h (d.extent ::ₘ S)) (hc : ∀ x ∈ S, c.addr + c.size ≤ x.1 ∨ x.1 + x.2 ≤ c.addr)
    (hlo : h.baseAddr ≤ c.addr) (h4 : 4 ≤ c.size) (hnext : d.addr = c.addr + c.size)
    (hlt : c.size < tot) (hle : tot ≤ c.size + d.size) :
    ∃ h', { h.setHeader c.addr (fun w => hmuSetSize w tot) with
        mem := (h.setHeader c.addr fun w => hmuSetSize w tot).mem.clear (c.addr + c.size)
          (tot - c.size) } = h'
      ∧ Changed (Mem.range d.addr d.size ∪ Mem.range c.addr 4) h h' ∧ FreeRep False h' F S
      ∧ h'.u32 c.addr = hmuSetSize (h.u32 c.addr) tot
      ∧ ∀ j, d.addr ≤ j → j < c.addr + tot → h'.mem j = 0 := by
  have hend : d.addr + d.size ≤ h.endAddr := hS.hi _ (Multiset.mem_cons_self _ _)
  have htot : tot < 2 ^ 30 := by
    have := hok.size_lt
    rw [GcHeap.endAddr] at hend
    omega
  have hsub : Mem.range (c.addr + c.size) (tot - c.size) ⊆ Mem.range d.addr d.size := by
    rintro j ⟨h1, h2⟩
    exact ⟨by omega, by omega⟩
  have hapart : ∀ j ∈ Mem.range (c.addr + c.size) (tot - c.size), j < c.addr ∨ c.addr + 4 ≤ j :=
    fun j hj => .inr (le_trans (by omega) hj.1)
  have hzero : ∀ (m : Mem) j, d.addr ≤ j → j < c.addr + tot →
      m.clear (c.addr + c.size) (tot - c.size) j = 0 :=
    fun m j h1 h2 => Mem.clear_of_mem ⟨by omega, by omega⟩
  have hR : ∀ x ∈ S, ∀ j ∈ Mem.range d.addr d.size ∪ Mem.range c.addr 4,
      j < x.1 + 4 ∨ x.1 + x.2 ≤ j := by
    rintro x hx j (⟨h1, h2⟩ | ⟨h1, h2⟩)
    · have : d.addr + d.size ≤ x.1 ∨ x.1 + x.2 ≤ d.addr := hS.apart_cons hx
      omega
    · have := hc x hx
      omega
  have hroot : ∀ j ∈ Mem.range d.addr d.size ∪ Mem.range c.addr 4,
      j < h.rootAddr ∨ h.rootAddr + 32 ≤ j := by
    have := hok.root_apart
    rintro j (⟨h1, h2⟩ | ⟨h1, h2⟩) <;> omega
  have hc1 := changed_setHeader h c.addr fun w => hmuSetSize w tot
  have hword : (h.setHeader c.addr fun w => hmuSetSize w tot).u32 c.addr
      = hmuSetSize (h.u32 c.addr) tot :=
    GcHeap.u32_setHeader_self (hmuSetSize_lt GcHeap.u32_lt htot)
  have hlists : (h.setHeader c.addr fun w => hmuSetSize w tot).kfcNormalList
      = h.kfcNormalList := rfl
  generalize h.setHeader c.addr (fun w => hmuSetSize w tot) = h1 at *
  have hclear : Mem.SameOutside (Mem.range (c.addr + c.size) (tot - c.size)) h1.mem
      (h1.mem.clear (c.addr + c.size) (tot - c.size)) := Mem.sameOutside_clear
  have hc2 : Changed (Mem.range d.addr d.size ∪ Mem.range c.addr 4) h
      { h1 with mem := h1.mem.clear (c.addr + c.size) (tot - c.size) } :=
    (hc1.mono Set.subset_union_right).trans
      (.of_mem (hclear.mono (hsub.trans Set.subset_union_left)))
  exact ⟨_, rfl, hc2, hfree.frame hc2 hlists hR hroot, (hclear.load hapart).trans hword, hzero _⟩

lemma scratch_subset_grow (h : GcHeap) (c d : Chunk) (S : Multiset (ℕ × ℕ)) :
    scratch h (d.extent ::ₘ S)
      ⊆ Mem.range d.addr d.size ∪ Mem.range c.addr 4 ∪ scratch h S := by
  rintro j (hj | ⟨x, hx, h1, h2⟩)
  · exact .inr (.inl hj)
  · rcases Multiset.mem_cons.mp hx with rfl | hx
    · rw [Chunk.extent] at h1 h2
      exact .inl (.inl ⟨by omega, by omega⟩)
    · exact .inr (.inr ⟨x, hx, h1, h2⟩)

/-- An object with a free chunk behind it, and a size for which the two are enough. -/
structure Growing (h : GcHeap) (pre : List Chunk) (c d : Chunk) (post : List Chunk) (F : FreeLists)
    (tot : ℕ) : Prop where
  rep : HeapRep h (pre ++ [c] ++ d :: post) F
  used : c.used = true
  free : d.used = false
  lt : c.size < tot
  le : tot ≤ c.size + d.size
  mod : tot % 8 = 0

/-- What is left of the free chunk. -/
def leftOver (c d : Chunk) (tot : ℕ) : List Chunk :=
  if tot < c.size + d.size then [⟨c.addr + tot, c.size + d.size - tot, false⟩] else []

/-- The object has grown. -/
structure Grown (h : GcHeap) (pre : List Chunk) (c d : Chunk) (post : List Chunk) (tot : ℕ)
    (h' : GcHeap) : Prop where
  changed : Changed (Mem.range d.addr d.size ∪ Mem.range c.addr 4
    ∪ scratch h (freeOf (pre ++ [c]) + freeOf post)) h h'
  header : h'.u32 c.addr = hmuSetSize (h.u32 c.addr) tot
  left : tot < c.size + d.size →
    ∃ w, h'.u32 (c.addr + tot) = hmuSetSize (hmuSetUt w hmuFc) (c.size + d.size - tot)
  zero : ∀ j, d.addr ≤ j → j < c.addr + tot → h'.mem j = 0

lemma sum_leftOver : ((freeOf (leftOver c d tot)).map Prod.snd).sum = c.size + d.size - tot := by
  rw [leftOver]
  split_ifs with h1
  · exact Multiset.sum_singleton _
  · exact (Nat.sub_eq_zero_of_le (not_lt.mp h1)).symm

lemma used_leftOver {e : Chunk} (he : e ∈ leftOver c d tot) : e.used = false := by
  rw [leftOver] at he
  split_ifs at he
  · rw [List.mem_singleton.mp he]
  · cases he

lemma mem_grow : c ∈ pre ++ [c] ++ d :: post := by simp

namespace Growing

variable {h' : GcHeap} {e : Chunk} (hg : Growing h pre c d post F tot)

include hg

lemma gap : Gap h (pre ++ [c]) d.addr d.size post := hg.rep.gap

lemma freeOf_eq :
    freeOf (pre ++ [c] ++ d :: post) = d.extent ::ₘ (freeOf (pre ++ [c]) + freeOf post) := by
  rw [freeOf_append, freeOf_cons_free hg.free, Multiset.add_cons]

lemma bounds : Tiles h.baseAddr pre c.addr ∧ h.baseAddr ≤ c.addr ∧ d.addr = c.addr + c.size
      ∧ 16 ≤ c.size ∧ d.addr + d.size ≤ h.endAddr ∧ c.size + d.size < 2 ^ 30
      ∧ (c.size + d.size - tot) % 8 = 0 := by
  obtain ⟨m, hpre, rfl, -, -, hend⟩ := tiles_append.mp hg.gap.tilesPre
  have hnext : c.addr + c.size = d.addr := hend
  obtain ⟨-, hhi, -, -⟩ := hg.gap.bounds
  obtain ⟨hlo, -, h16, hmod, -⟩ := hg.rep.tiles.bounds mem_grow
  have h1 := hg.gap.size_mod
  have h2 := hg.mod
  have h3 := hg.rep.ok.size_lt
  have hend : h.endAddr = h.baseAddr + h.currentSize := rfl
  exact ⟨hpre, hlo, hnext.symm, h16, hhi, by omega, by omega⟩

/-- Nothing of an object is changed. -/
lemma apart {j : ℕ} (he : e ∈ objects (pre ++ [c] ++ d :: post)) (hlo : e.addr + 4 ≤ j)
    (hhi : j < e.addr + e.size) : j ∉ Mem.range d.addr d.size ∪ Mem.range c.addr 4
      ∪ scratch h (freeOf (pre ++ [c]) + freeOf post) := by
  obtain ⟨he, hused⟩ := mem_objects.mp he
  rintro ((⟨h1, h2⟩ | ⟨h1, h2⟩) | hj)
  · have hne : e ≠ d := fun heq => by rw [heq, hg.free] at hused; cases hused
    have := hg.rep.tiles.apart_of_ne he (by simp) hne
    omega
  · have hne : e ≠ c := fun heq => by rw [heq] at hlo; omega
    have h3 := hg.rep.tiles.apart_of_ne he mem_grow hne
    have h₄ := hg.bounds
    omega
  · have hmem := scratch_subset_cons h d.extent _ hj
    rw [← hg.freeOf_eq] at hmem
    have := (hg.rep.tiles.scratch_apart hg.rep.ok he hmem).2 hused
    omega

/-- The headers of the other chunks are kept. -/
lemma header_eq (hgrown : Grown h pre c d post tot h') (he : e ∈ pre ∨ e ∈ post) :
    h'.u32 e.addr = h.u32 e.addr := by
  have hmem : e ∈ pre ++ [c] ++ ⟨d.addr, d.size, true⟩ :: post := by
    rcases he with he | he <;> simp [he]
  obtain ⟨hpre, hbounds⟩ := hg.bounds
  have hpos : e.addr + 4 ≤ c.addr ∨ d.addr + d.size ≤ e.addr := by
    rcases he with he | he
    · have := hpre.bounds he
      omega
    · exact .inr (hg.gap.tilesPost.bounds he).1
  refine hgrown.changed.mem.load ?_
  rintro j ((⟨h1, h2⟩ | ⟨h1, h2⟩) | hj)
  · omega
  · omega
  · exact (hg.gap.scratch_apart hmem hj).1

lemma growInPlace_spec :
    ∃ h', growInPlace c.addr c.size d.size tot h = .ok () h' ∧ Grown h pre c d post tot h' := by
  obtain ⟨-, hbase, hnext, h16, -, -, hrem⟩ := hg.bounds
  have hrep := hg.rep
  have hlt := hg.lt
  have hle := hg.le
  have hS := hg.freeOf_eq
  have hfree := hrep.free
  have hself := hrep.headers.header
  have hlo : d.addr ≤ c.addr + tot := by omega
  have hhi : c.addr + tot + (c.size + d.size - tot) = d.addr + d.size := by omega
  have hapart : ∀ x ∈ freeOf (pre ++ [c]) + freeOf post,
      c.addr + c.size ≤ x.1 ∨ x.1 + x.2 ≤ c.addr := fun x hx => by
    obtain ⟨e, he, hused, rfl⟩ := mem_freeOf.mp (hS ▸ Multiset.mem_cons_of_mem hx)
    exact hrep.tiles.apart_of_ne mem_grow he fun heq => by
      rw [← heq, hg.used] at hused
      cases hused
  have hheader : ∀ j ∈ scratch h (freeOf (pre ++ [c] ++ d :: post)), j < c.addr ∨ c.addr + 4 ≤ j :=
    fun j hj => (hrep.tiles.scratch_apart hrep.ok mem_grow hj).1
  rw [hS] at hfree hheader
  have hinside := fun j hj => hfree.toSpaced.scratch_apart (j := j) hrep.ok hj
  have hut : hmuGetUt (h.u32 d.addr) = hmuFc := by
    rw [hself.ut, hg.free]
    rfl
  obtain ⟨h1, hrun1, hc1, hfree1⟩ := unlinkHmu_spec hrep.ok hfree hut hself.size
  obtain ⟨h2, hset, hc2, hfree2, hword2, hzero2⟩ := growHeader_spec (hc1.heapOk hrep.ok) hfree1
    (hc1.spaced hfree.toSpaced) hapart (by rw [hc1.base]; exact hbase) (by omega) hnext hlt hle
  have hword1 : h1.u32 c.addr = h.u32 c.addr := hc1.mem.load hheader
  have hc12 := (hc1.mono (scratch_subset_grow h c d _)).trans (hc2.mono Set.subset_union_left)
  rw [hnext] at hrun1
  rw [growInPlace, bind_of_ok hrun1, run_modify_bind, run_modify_bind, hset]
  by_cases hrest : tot < c.size + d.size
  · obtain ⟨h3, hrun3, hc3, hword3⟩ := gciAddFc_part (hc12.heapOk hrep.ok) hfree2
      (hc12.spaced hfree.toSpaced) hlo hhi (Nat.sub_pos_of_lt hrest) hrem
    rw [hc12.scratch_eq] at hc3
    have hkeep : h3.u32 c.addr = h2.u32 c.addr := hc3.mem.load <| by
      rintro j (⟨h₄, h5⟩ | hj)
      · exact .inr (le_trans (by omega) h₄)
      · exact hheader j (scratch_subset_cons h _ _ hj)
    have hzero3 : ∀ j, d.addr ≤ j → j < c.addr + tot → h3.mem j = 0 := fun j h₄ h5 => by
      rw [hc3.mem j, hzero2 j h₄ h5]
      rintro (⟨h6, h7⟩ | hj)
      · omega
      · have : j < d.addr ∨ d.addr + d.size ≤ j := hinside j hj
        omega
    rw [if_pos hrest]
    refine ⟨h3, hrun3, hc12.trans (hc3.mono ?_), by rw [hkeep, hword2, hword1],
      fun _ => ⟨_, hword3⟩, hzero3⟩
    rintro j (⟨h₄, h5⟩ | hj)
    · exact .inl (.inl ⟨hlo.trans h₄, h5.trans_eq hhi⟩)
    · exact .inr hj
  · rw [if_neg hrest]
    exact ⟨h2, rfl, hc12, by rw [hword2, hword1], fun h3 => absurd h3 hrest, hzero2⟩

lemma chunks_eq (hgrown : Grown h pre c d post tot h') :
    h'.chunks = pre ++ ⟨c.addr, tot, true⟩ :: (leftOver c d tot ++ post) := by
  obtain ⟨hpre, hlo, hnext, h16, hhi, hsize, hrem⟩ := hg.bounds
  have hlt := hg.lt
  have hle := hg.le
  have hof := hg.rep.headers.headerOf
  have hself : HeaderOf (h'.u32 c.addr) ⟨c.addr, tot, true⟩ := by
    have hut := (hof c mem_grow).2
    rw [hg.used] at hut
    rw [hgrown.header]
    exact ⟨hmuGetSize_hmuSetSize (by omega) hg.mod, by rw [hmuGetUt_hmuSetSize (by omega), hut]⟩
  have hbase := hgrown.changed.base
  have hend := hgrown.changed.endAddr
  obtain ⟨k₁, hk1, hwalk1⟩ := walk_tiles (h := h') hpre
    (fun e he => by rw [hg.header_eq hgrown (.inl he)]; exact hof e (by simp [he])) hbase.le
    (by omega) (show h'.endAddr ≤ h.baseAddr + h'.currentSize by rw [← hbase]; exact le_rfl)
  have hpos : 0 < tot := by omega
  have hin : h'.InHeap c.addr := ⟨by omega, by omega⟩
  obtain ⟨k₂, hk2, hwalk2⟩ := walk_cons (c := ⟨c.addr, tot, true⟩) hin hpos hself hk1
  have hpost : ∀ k b, b = d.addr + d.size → h'.endAddr ≤ b + k → h'.walk k b = post := by
    rintro k b rfl hk
    obtain ⟨k', -, hwalk⟩ := walk_tiles (h := h') hg.gap.tilesPost
      (fun e he => by rw [hg.header_eq hgrown (.inr he)]; exact hof e (by simp [he])) (by omega)
      hend.ge hk
    rw [hwalk, ← hend, walk_endAddr, List.append_nil]
  rw [GcHeap.chunks, hbase, hwalk1, hwalk2, leftOver]
  by_cases htot : tot < c.size + d.size
  · obtain ⟨w, hw⟩ := hgrown.left htot
    have hleft : HeaderOf (h'.u32 (c.addr + tot)) ⟨c.addr + tot, c.size + d.size - tot, false⟩ := by
      rw [hw]
      exact ⟨hmuGetSize_hmuSetSize (by omega) hrem,
        by rw [hmuGetUt_hmuSetSize (by omega), hmuGetUt_hmuSetUt]; rfl⟩
    have hin' : h'.InHeap (c.addr + tot) := ⟨by omega, by omega⟩
    obtain ⟨k₃, hk3, hwalk3⟩ := walk_cons (c := ⟨c.addr + tot, c.size + d.size - tot, false⟩) hin'
      (Nat.sub_pos_of_lt htot) hleft hk2
    rw [if_pos htot, hwalk3, hpost k₃ _ (by show c.addr + tot + (_ - tot) = _; omega) hk3]
    rfl
  · rw [if_neg htot, hpost k₂ _ (by show c.addr + tot = _; omega) hk2]
    rfl

/-- The chunk behind the free one has the bit of such a chunk. -/
lemma pinuse_behind (he : e ∈ post) (haddr : e.addr = d.addr + d.size) :
    hmuGetPinuse (h.u32 e.addr) = 0 := by
  obtain ⟨l, l', rfl⟩ := List.append_of_mem he
  obtain ⟨m, hl, htiles⟩ := tiles_append.mp hg.gap.tilesPost
  cases l with
  | nil =>
    have hheader := (headers_append.mp hg.rep.headers).2.2.2.1
    rw [hg.free] at hheader
    exact hheader.pinuse
  | cons x l =>
    have h1 := hl.bounds (c := x) (by simp)
    have h2 := htiles.1
    omega

end Growing

end

section

variable {poolBuf poolBufSize : ℕ} {s : Client} {cs : List Chunk} {F : FreeLists}

/-- An object that can grow in place has a free chunk behind it. -/
lemma ClientRep.growing (hrep : ClientRep s cs F) {obj size : ℕ} (hcopy : s.CanCopy obj size)
    (hgrow : s.heap.CanGrow (obj - 4) (totSize size)) :
    ∃ pre c d post, cs = pre ++ [c] ++ d :: post ∧ obj = c.addr + 4
      ∧ Growing s.heap pre c d post F (totSize size) ∧ s.heap.chunkSize c.addr = c.size
      ∧ s.heap.chunkSize (c.addr + c.size) = d.size := by
  obtain ⟨hlive, hsize, hlt⟩ := hcopy
  obtain ⟨n, hn⟩ := Option.isSome_iff_exists.mp hlive
  obtain ⟨c, hc, rfl, -, hchunk⟩ := hrep.chunk hn
  obtain ⟨hmem, hused⟩ := mem_objects.mp hc
  obtain ⟨pre, post, rfl⟩ := List.append_of_mem hmem
  have hgap : Gap s.heap pre c.addr c.size post := hrep.rep.gap
  rw [Nat.add_sub_cancel] at hchunk hgrow hlt
  obtain ⟨hin, hut, hle⟩ := hgrow
  rw [hchunk] at hin hut hle hlt
  cases post with
  | nil =>
    have hend : c.addr + c.size = s.heap.endAddr := hgap.tilesPost
    exact absurd hin.2 (by omega)
  | cons d post =>
    obtain ⟨-, -, p, hself⟩ := hgap.next (d := d) rfl
    have hfree : d.used = false := by
      by_contra hd
      rw [hself.ut, if_pos (by simpa using hd)] at hut
      exact absurd hut (by decide)
    have hd : s.heap.chunkSize (c.addr + c.size) = d.size := hself.size
    have hcs : pre ++ c :: d :: post = pre ++ [c] ++ d :: post := by simp
    rw [hd] at hle
    exact ⟨pre, c, d, post, hcs, rfl, ⟨hcs ▸ hrep.rep, hused, hfree, hlt, hle,
      (totSize_spec hsize).2.2⟩, hchunk, hd⟩

/-- **Growing in place breaks the accounting.**  After every run, a `gc_realloc_vo` that can grow a
live object where it is returns the object.  The bytes of all objects are kept, and the new ones are
zero.  But `total_free_size` is too large now, by what the object has grown.  And if the free chunk
has been taken as a whole, the header behind it still says that the chunk before it is free. -/
theorem gcReallocVo_grows (hs : Initial poolBuf poolBufSize s) (ops : List Op) (obj size : ℕ)
    (hcopy : (s.run ops).CanCopy obj size)
    (hgrow : (s.run ops).heap.CanGrow (obj - 4) (totSize size)) :
    ∃ h', gcReallocVo obj size (s.run ops).heap = (obj, h')
      ∧ (∀ p n, (s.run ops).live p = some n →
        ∀ i < n, h'.mem (p + i) = (s.run ops).heap.mem (p + i))
      ∧ (∀ j, obj - 4 + (s.run ops).heap.chunkSize (obj - 4) ≤ j → j < obj - 4 + totSize size →
        h'.mem j = 0)
      ∧ h'.totalFreeSize = ((freeOf h'.chunks).map Prod.snd).sum
        + (totSize size - (s.run ops).heap.chunkSize (obj - 4))
      ∧ ∀ d ∈ h'.chunks, d.used = true → d.addr = obj - 4 + totSize size →
        hmuGetPinuse (h'.u32 d.addr) = 0 := by
  obtain ⟨-, -, -, -, cs, F, hrep⟩ := hs.run ops
  generalize s.run ops = t at *
  obtain ⟨pre, c, d, post, rfl, rfl, hg, hsizec, hsized⟩ := hrep.growing hcopy hgrow
  obtain ⟨hpre, -, haddr, -⟩ := hg.bounds
  have hlt := hg.lt
  have hle := hg.le
  rw [Nat.add_sub_cancel] at hgrow ⊢
  rw [hsizec]
  obtain ⟨h', hrun, hgrown⟩ := hg.growInPlace_spec
  have hchunks := hg.chunks_eq hgrown
  refine ⟨h', ?_, fun p n hp i hi => ?_,
    fun j h1 h2 => hgrown.zero j (haddr.trans_le h1) h2, ?_, fun e he hused heq => ?_⟩
  · rw [gcReallocVo, if_neg hcopy.2.1, if_neg (by rw [hrep.rep.sound]; decide), if_neg (by omega),
      Nat.add_sub_cancel, hsizec, if_neg (not_le.mpr hlt), if_pos hgrow, hsized, hrun]
  · obtain ⟨e, he, rfl, hn⟩ := hrep.tracks.object p n hp
    exact hgrown.changed.mem _ (hg.apart he (by omega) (by omega))
  · have h1 := hrep.rep.sum
    have h2 := hrep.total
    have h3 := hgrown.changed.total
    rw [hg.freeOf_eq, Multiset.map_cons, Multiset.sum_cons, freeOf_append, freeOf_cons_used hg.used,
      freeOf_nil, add_zero, Multiset.map_add, Multiset.sum_add, Chunk.extent] at h1
    rw [hchunks, freeOf_append, freeOf_cons_used rfl, freeOf_append, Multiset.map_add,
      Multiset.sum_add, Multiset.map_add, Multiset.sum_add, sum_leftOver]
    omega
  · rw [hchunks] at he
    -- before the object and in what is left over there is no such chunk
    have hbehind : e ∈ post := by
      rcases List.mem_append.mp he with he | he
      · have := hpre.bounds he
        omega
      · rcases List.mem_cons.mp he with rfl | he
        · have : c.addr = c.addr + totSize size := heq
          omega
        · refine (List.mem_append.mp he).resolve_left fun he => ?_
          rw [used_leftOver he] at hused
          cases hused
    have := hg.gap.tilesPost.bounds hbehind
    rw [hg.header_eq hgrown (.inr hbehind)]
    exact hg.pinuse_behind hbehind (by omega)

/-- The second of three objects is freed, and the first one grows into its chunk. -/
theorem gcReallocVo_grows_sample :
    ∃ h', gcReallocVo 16392 60
        (sampleClient.run [.alloc 24, .alloc 24, .alloc 24, .free 16424]).heap = (16392, h')
      ∧ h'.totalFreeSize = ((freeOf h'.chunks).map Prod.snd).sum + 32 := by
  obtain ⟨h', hrun, -, -, htotal, -⟩ := gcReallocVo_grows initial_sampleClient
    [.alloc 24, .alloc 24, .alloc 24, .free 16424] 16392 60 (by decide +kernel) (by decide +kernel)
  have hgrown : totSize 60 - (sampleClient.run
      [.alloc 24, .alloc 24, .alloc 24, .free 16424]).heap.chunkSize (16392 - 4) = 32 := by
    decide +kernel
  rw [hgrown] at htotal
  exact ⟨h', hrun, htotal⟩

end

end Watz.Ems
