import Watz.Ems.Alloc

/-!
# Freeing an object

A chunk that is freed becomes one with the free chunks before and behind it.  On the way these are
taken from lists and tree, and what has been joined so far is a gap between the other chunks.  At the
end the gap becomes one free chunk.
-/

namespace Watz.Ems

open Lib

section

variable {h h' : GcHeap} {cs pre post : List Chunk} {F : FreeLists} {a sz : ℕ} {c d : Chunk} {p : Bool}

namespace Gap

lemma move (hgap : Gap h pre a sz post)
    (hc : Changed (scratch h (freeOf pre + freeOf post)) h h') : Gap h' pre a sz post := by
  have hword : ∀ d ∈ pre ++ ⟨a, sz, true⟩ :: post, h'.u32 d.addr = h.u32 d.addr :=
    fun d hd => hc.mem.load fun j hj => (hgap.scratch_apart hd hj).1
  obtain ⟨p, hpost⟩ := hgap.behind
  refine ⟨hc.heapOk hgap.ok, hc.sound.trans hgap.sound, ?_, ?_, hgap.smallest, hgap.size_mod,
    hgap.before.congr fun d hd => hword d (by simp [hd]), ?_,
    p, hpost.congr fun d hd => hword d (by simp [hd])⟩
  · rw [hc.base]
    exact hgap.tilesPre
  · rw [hc.endAddr]
    exact hgap.tilesPost
  · rw [hword ⟨a, sz, true⟩ (by simp)]
    exact hgap.pinuse

lemma joinPrev (hgap : Gap h (pre ++ [c]) a sz post) (hc : c.used = false) :
    lastUsed true pre = true ∧ Gap h pre c.addr (sz + c.size) post := by
  obtain ⟨m, htiles, rfl, h16, hmod, hend⟩ := tiles_append.mp hgap.tilesPre
  obtain ⟨hpre, hself, hused, -⟩ := headers_append.mp hgap.before
  rw [hc] at hused
  have hpost := hgap.tilesPost
  have h1 := hgap.smallest
  have h2 := hgap.size_mod
  rw [← show c.addr + c.size = a from hend] at hpost
  refine ⟨hused.resolve_right (by decide), hgap.ok, hgap.sound, htiles, ?_, by omega, by omega, hpre,
    hself.pinuse, hgap.behind⟩
  rwa [← add_assoc, add_right_comm]

lemma joinNext (hgap : Gap h pre a sz (c :: post)) (hc : c.used = false) :
    (∀ d ∈ post.head?, d.used = true) ∧ Gap h pre a (sz + c.size) post := by
  obtain ⟨-, -, hmod, hpost⟩ := hgap.tilesPost
  obtain ⟨p, -, -, hheaders⟩ := hgap.behind
  have h1 := hgap.smallest
  have h2 := hgap.size_mod
  rw [add_assoc] at hpost
  refine ⟨fun d hd => ?_, hgap.ok, hgap.sound, hgap.tilesPre, hpost, by omega, by omega, hgap.before,
    hgap.pinuse, _, hheaders⟩
  obtain ⟨rest, rfl⟩ : ∃ rest, post = d :: rest := List.head?_eq_some_iff.mp hd
  rw [hc] at hheaders
  exact hheaders.2.1.resolve_left (by decide)

lemma unlink {S : Multiset (ℕ × ℕ)} (hgap : Gap h pre a sz post)
    (hfree : FreeRep False h F (freeOf pre + freeOf post))
    (hS : freeOf pre + freeOf post = c.extent ::ₘ S) (hself : HeaderOk (h.u32 c.addr) p c)
    (hc : c.used = false) :
    ∃ h1, unlinkHmu c.addr h = .ok () h1 ∧ h.InHeap c.addr ∧ hmuGetUt (h.u32 c.addr) = hmuFc
      ∧ Changed (elsewhere (objects (pre ++ post))) h h1 ∧ Gap h1 pre a sz post
      ∧ FreeRep False h1 (F.unlink c.extent) S := by
  have hut : hmuGetUt (h.u32 c.addr) = hmuFc := by
    rw [hself.ut, hc]
    rfl
  rw [hS] at hfree
  have hin : h.InHeap c.addr := hfree.toSpaced.inHeap (Multiset.mem_cons_self _ _)
  obtain ⟨h1, hrun, hchanged, hfree1⟩ := unlinkHmu_spec hgap.ok hfree hut hself.size
  have hscratch : Changed (scratch h (freeOf pre + freeOf post)) h h1 := by
    rw [hS]
    exact hchanged
  refine ⟨h1, hrun, hin, hut, hscratch.mono ?_, hgap.move hscratch, hfree1⟩
  exact (Set.subset_union_right.trans Set.subset_union_left).trans hgap.editScratch_subset

/-- The free chunk before a gap is found by its last word. -/
lemma prevChunk_eq (hgap : Gap h (pre ++ [c]) a sz post)
    (hfree : FreeRep False h F (freeOf (pre ++ [c]) + freeOf post)) (hc : c.used = false) :
    h.prevChunk a = c.addr := by
  obtain ⟨m, -, rfl, -, -, hend⟩ := tiles_append.mp hgap.tilesPre
  have hnext : c.addr + c.size = a := hend
  obtain ⟨hlo, hhi, h16, -⟩ := hgap.tilesPre.bounds (c := c) (by simp)
  have hmem : c.extent ∈ freeOf (pre ++ [c]) + freeOf post :=
    Multiset.mem_add.mpr (.inl (mem_freeOf.mpr ⟨c, by simp, hc, rfl⟩))
  have hbounds := hgap.bounds
  have h1 := hgap.smallest
  have hlast : h.u32 (c.addr + c.size - 4) = c.size := by
    refine hfree.lastWord _ hmem (.inl ?_)
    show c.addr + c.size ≠ h.endAddr
    omega
  have hlt := hgap.ok.size_lt
  rw [GcHeap.endAddr] at hbounds
  rw [GcHeap.prevChunk, ← hnext, hlast, if_pos (by omega), Nat.add_sub_cancel]

lemma mergePrev_spec (hgap : Gap h pre a sz post)
    (hfree : FreeRep False h F (freeOf pre + freeOf post)) :
    ∃ pre' a' sz' h1 F', mergePrev a sz h = .ok (a', sz') h1 ∧ objects pre' = objects pre
      ∧ lastUsed true pre' = true ∧ Changed (elsewhere (objects (pre ++ post))) h h1
      ∧ Gap h1 pre' a' sz' post ∧ FreeRep False h1 F' (freeOf pre' + freeOf post) := by
  by_cases hlast : lastUsed true pre = true
  · have hrun : mergePrev a sz h = .ok (a, sz) h := by
      rw [mergePrev, run_get_bind, if_neg]
      · rfl
      · rintro ⟨h0, -⟩
        rw [hgap.pinuse, hlast] at h0
        exact absurd h0 (by decide)
    exact ⟨pre, a, sz, h, F, hrun, rfl, hlast, .of_mem (.refl _ _), hgap, hfree⟩
  -- the chunk before is free
  obtain ⟨init, c, rfl⟩ : ∃ init c, pre = init ++ [c] := by
    rcases List.eq_nil_or_concat pre with rfl | ⟨init, c, rfl⟩
    · exact absurd rfl hlast
    · exact ⟨init, c, List.concat_eq_append⟩
  rw [lastUsed_concat, Bool.not_eq_true] at hlast
  have hpinuse := hgap.pinuse
  rw [lastUsed_concat, hlast] at hpinuse
  have hself := (headers_append.mp hgap.before).2.1
  have hS : freeOf (init ++ [c]) + freeOf post = c.extent ::ₘ (freeOf init + freeOf post) := by
    rw [freeOf_append, freeOf_cons_free hlast, freeOf_nil, Multiset.add_cons, add_zero,
      Multiset.cons_add]
  obtain ⟨h1, hrun, hin, hut, hchanged, hgap1, hfree1⟩ := hgap.unlink hfree hS hself hlast
  obtain ⟨hused, hgap2⟩ := hgap1.joinPrev hlast
  refine ⟨init, c.addr, sz + c.size, h1, _, ?_, ?_, hused, hchanged, hgap2, hfree1⟩
  · have hsize : h.chunkSize c.addr = c.size := hself.size
    rw [mergePrev, run_get_bind, hgap.prevChunk_eq hfree hlast, if_pos ⟨hpinuse, hin, hut⟩,
      bind_of_ok hrun, hsize]
    rfl
  · rw [objects_append, objects_cons_free hlast]
    exact (List.append_nil _).symm

lemma mergeNext_spec (hgap : Gap h pre a sz post)
    (hfree : FreeRep False h F (freeOf pre + freeOf post)) :
    ∃ post' sz' h1 F', mergeNext a sz h = .ok sz' h1 ∧ objects post' = objects post
      ∧ (∀ d ∈ post'.head?, d.used = true) ∧ Changed (elsewhere (objects (pre ++ post))) h h1
      ∧ Gap h1 pre a sz' post' ∧ FreeRep False h1 F' (freeOf pre + freeOf post') := by
  by_cases hhead : ∀ d ∈ post.head?, d.used = true
  · have hrun : mergeNext a sz h = .ok sz h := by
      rw [mergeNext, run_get_bind, if_neg]
      · rfl
      · rintro ⟨hin, hut⟩
        cases post with
        | nil =>
          have hend : a + sz = h.endAddr := hgap.tilesPost
          exact absurd hin.2 (by omega)
        | cons c rest =>
          obtain ⟨-, -, p, hself⟩ := hgap.next (d := c) rfl
          rw [hself.ut, if_pos (hhead c rfl)] at hut
          exact absurd hut (by decide)
    exact ⟨post, sz, h, F, hrun, rfl, hhead, .of_mem (.refl _ _), hgap, hfree⟩
  -- the chunk behind is free
  obtain ⟨c, rest, rfl, hc⟩ : ∃ c rest, post = c :: rest ∧ c.used = false := by
    cases post with
    | nil => exact absurd (by simp) hhead
    | cons c rest => exact ⟨c, rest, rfl, by simpa using hhead⟩
  obtain ⟨haddr, -, p, hself⟩ := hgap.next (d := c) rfl
  rw [← haddr] at hself
  have hS : freeOf pre + freeOf (c :: rest) = c.extent ::ₘ (freeOf pre + freeOf rest) := by
    rw [freeOf_cons_free hc, Multiset.add_cons]
  obtain ⟨h1, hrun, hin, hut, hchanged, hgap1, hfree1⟩ := hgap.unlink hfree hS hself hc
  obtain ⟨hused, hgap2⟩ := hgap1.joinNext hc
  refine ⟨rest, sz + c.size, h1, _, ?_, (objects_cons_free hc).symm, hused, hchanged, hgap2, hfree1⟩
  have hsize : h.chunkSize c.addr = c.size := hself.size
  rw [mergeNext, run_get_bind, ← haddr, if_pos ⟨hin, hut⟩, bind_of_ok hrun, hsize]
  rfl

lemma close (hgap : Gap h pre a sz post) (hfree : FreeRep False h F (freeOf pre + freeOf post))
    (hlast : lastUsed true pre = true) (hhead : ∀ d ∈ post.head?, d.used = true) :
    ∃ h1 h2, gciAddFc a sz h = .ok () h1
      ∧ (if h1.InHeap (a + sz) then h1.setHeader (a + sz) hmuUnmarkPinuse else h1) = h2
      ∧ Changed (elsewhere (objects (pre ++ post))) h h2
      ∧ HeapRep h2 (pre ++ ⟨a, sz, false⟩ :: post) (F.add (a, sz)) := by
  obtain ⟨hlo, hhi, haddr, hlt⟩ := hgap.bounds
  have h16 := hgap.smallest
  have hmod := hgap.size_mod
  have hS := (hgap.tiles false).spaced hgap.ok
  rw [freeOf_middle] at hS
  obtain ⟨h1, hrun, hc1, hfree1, hword⟩ := gciAddFc_spec hgap.ok hfree hS
  obtain ⟨h2, hunmark, hc2, hfree2, hother, hnext⟩ :=
    changeHeader_spec (b := a + sz) (fun w => hmuUnmarkPinuse_lt) (hc1.heapOk hgap.ok) hfree1
      (by omega) fun c hc => by
        rcases Multiset.mem_cons.mp hc with rfl | hc
        · exact .inr le_rfl
        · have := hS.apart_cons hc
          omega
  have hheader : headerAt h1 (a + sz) = headerAt h (a + sz) := by
    ext j
    exact and_congr_left' (hc1.inHeap_iff _)
  rw [hheader] at hc2
  have hc : Changed (editScratch h pre a sz post) h h2 :=
    (hc1.mono Set.subset_union_left).trans (hc2.mono Set.subset_union_right)
  have hmid : Tiles a [⟨a, sz, false⟩] (a + sz) := ⟨rfl, h16, hmod, rfl⟩
  refine ⟨h1, h2, hrun, hunmark, hc.mono hgap.editScratch_subset,
    hgap.fill hc hmid ⟨?_, .inl hlast, trivial⟩ ?_ ?_⟩
  · show HeaderOk (h2.u32 a) _ _
    rw [hother a (by omega), hword]
    exact .free hgap.pinuse hlt hmod
  · intro d hd
    obtain ⟨haddr, hin, p, hself⟩ := hgap.next hd
    have hsame : h1.u32 (a + sz) = h.u32 (a + sz) := by
      refine hc1.mem.load ?_
      rintro j (⟨h3, h4⟩ | hj)
      · omega
      · have hmem : d ∈ pre ++ ⟨a, sz, true⟩ :: post := by simp [List.mem_of_mem_head? hd]
        rw [← haddr]
        exact (hgap.scratch_apart hmem hj).1
    rw [haddr, hnext ((hc1.inHeap_iff _).mpr hin), hsame]
    exact ⟨hself.unmark, .inr (hhead d hd)⟩
  · show FreeRep False h2 _ (freeOf (pre ++ ⟨a, sz, false⟩ :: post))
    rw [freeOf_middle]
    exact hfree2

end Gap

/-! ## `gc_free_vo` -/

/-- What is free after a chunk of a size has been freed. -/
def GcHeap.totalFreed (h : GcHeap) (size : ℕ) : ℕ := (h.totalFreeSize + size) % 2 ^ 32

lemma freeChunk_spec (hrep : HeapRep h (pre ++ c :: post) F) (hused : c.used = true) :
    ∃ h' cs' F', freeChunk c.addr h = .ok () h' ∧ objects cs' = objects (pre ++ post)
      ∧ Changed (elsewhere (objects (pre ++ post)))
        (h.counted (h.totalFreed c.size) h.highmarkSize) h' ∧ HeapRep h' cs' F' := by
  have hsize : h.chunkSize c.addr = c.size := hrep.headers.header.size
  have hrep0 := hrep.counted (h.totalFreed c.size) h.highmarkSize
  rw [freeChunk, run_get_bind, run_modify_bind, hsize]
  change ∃ h' cs' F', (do
      let merged ← mergePrev c.addr c.size
      let size ← mergeNext merged.1 merged.2
      gciAddFc merged.1 size
      modify fun h => if h.InHeap (merged.1 + size)
        then h.setHeader (merged.1 + size) hmuUnmarkPinuse else h : EmsM Unit)
      (h.counted (h.totalFreed c.size) h.highmarkSize) = .ok () h' ∧ _
  generalize h.counted (h.totalFreed c.size) h.highmarkSize = h₀ at *
  have hgap : Gap h₀ pre c.addr c.size post := hrep0.gap
  have hfree := hrep0.free
  rw [freeOf_append, freeOf_cons_used hused] at hfree
  obtain ⟨pre', a', sz₁, h1, F₁, hrun1, hpre, hlast, hc1, hgap1, hfree1⟩ := hgap.mergePrev_spec hfree
  obtain ⟨post', sz₂, h2, F₂, hrun2, hpost, hhead, hc2, hgap2, hfree2⟩ :=
    hgap1.mergeNext_spec hfree1
  obtain ⟨h3, h4, hrun3, hrun4, hc3, hrep4⟩ := hgap2.close hfree2 hlast hhead
  rw [bind_of_ok hrun1, bind_of_ok hrun2, bind_of_ok hrun3, run_modify, hrun4]
  rw [objects_append, hpre, ← objects_append] at hc2
  rw [objects_append, hpre, hpost, ← objects_append] at hc3
  refine ⟨h4, _, _, rfl, ?_, hc1.trans (hc2.trans hc3), hrep4⟩
  rw [objects_append, objects_cons_free rfl, hpre, hpost, objects_append]

/-- An object has been freed. -/
structure Freed (h : GcHeap) (cs : List Chunk) (c : Chunk) (h' : GcHeap) (cs' : List Chunk)
    (F' : FreeLists) : Prop where
  objs : (objects cs).Perm (c :: objects cs')
  changed : Changed (elsewhere (objects cs')) (h.counted (h.totalFreed c.size) h.highmarkSize) h'
  rep : HeapRep h' cs' F'

lemma gcFreeVo_spec (hrep : HeapRep h cs F) (hc : c ∈ objects cs) :
    ∃ h' cs' F', gcFreeVo (c.addr + 4) h = (true, h') ∧ Freed h cs c h' cs' F' := by
  obtain ⟨hc, hused⟩ := mem_objects.mp hc
  obtain ⟨pre, post, rfl⟩ := List.append_of_mem hc
  obtain ⟨h', cs', F', hrun, hobjs, hchanged, hrep'⟩ := freeChunk_spec hrep hused
  have hbounds := hrep.tiles.bounds hc
  have hheader := hrep.headers.header
  have hin : h.InHeap (c.addr + 4 - 4) := ⟨by omega, by omega⟩
  have hut : hmuGetUt (h.u32 (c.addr + 4 - 4)) = hmuVo := hheader.ut.trans (if_pos hused)
  have hlive : hmuIsVoFreed (h.u32 (c.addr + 4 - 4)) = 0 := hheader.live hused
  refine ⟨h', cs', F', ?_, ?_, hobjs ▸ hchanged, hrep'⟩
  · rw [gcFreeVo, if_neg (by omega), if_neg (by rw [hrep.sound]; decide), if_neg (not_not.mpr hin),
      if_neg (not_not.mpr hut), if_neg (by rw [hlive]; decide), Nat.add_sub_cancel, hrun]
  · rw [hobjs, objects_append, objects_cons_used hused, objects_append]
    exact List.perm_middle

end

end Watz.Ems
