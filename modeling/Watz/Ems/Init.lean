import Watz.Ems.AddChunk

/-!
# Initialisation

A heap begins as one free chunk in the tree.  The chunk does not get its size in its last word.
-/

namespace Watz.Ems

open Lib SearchTree
open Mem (load_store_of_disjoint load_store_self range sameOutside_store)

/-! ## The first chunk -/

section

variable {heap base size : ℕ} {mem : Mem}

@[simp] lemma gcInitInternal_heapId : (gcInitInternal heap base size mem).heapId = heap := rfl

@[simp] lemma gcInitInternal_baseAddr : (gcInitInternal heap base size mem).baseAddr = base := rfl

@[simp] lemma gcInitInternal_currentSize :
    (gcInitInternal heap base size mem).currentSize = size := rfl

@[simp] lemma gcInitInternal_endAddr :
    (gcInitInternal heap base size mem).endAddr = base + size := rfl

/-- The header of the first chunk. -/
def initHeader (size : ℕ) : ℕ := hmuMarkPinuse (hmuSetSize (hmuSetUt 0 hmuFc) size)

/-- What the initialisation writes: the structure, the pool, and at least one node at its start. -/
lemma gcInitInternal_sameOutside :
    Mem.SameOutside (range heap gcHeapSize ∪ range base size ∪ range base 32) mem
      (gcInitInternal heap base size mem).mem := by
  have hroot : ∀ off k, off + k ≤ 32 → range (heap + kfcTreeRoot + off) k
      ⊆ range heap gcHeapSize ∪ range base size ∪ range base 32 := by
    rintro off k hle j ⟨h₁, h2⟩
    rw [kfcTreeRoot] at h₁ h2
    exact .inl (.inl ⟨by omega, by rw [gcHeapSize]; omega⟩)
  have hnode : ∀ off k, off + k ≤ 32 → range (base + off) k
      ⊆ range heap gcHeapSize ∪ range base size ∪ range base 32 := by
    rintro off k hle j ⟨h₁, h2⟩
    exact .inr ⟨by omega, by omega⟩
  have hheap : range heap gcHeapSize
      ⊆ range heap gcHeapSize ∪ range base size ∪ range base 32 :=
    Set.subset_union_left.trans Set.subset_union_left
  have hpool : range base size
      ⊆ range heap gcHeapSize ∪ range base size ∪ range base 32 :=
    Set.subset_union_right.trans Set.subset_union_left
  refine .trans (.trans (.trans (.trans (.trans (.trans (.trans (.trans (.trans
    (Mem.sameOutside_clear.mono hheap) (Mem.sameOutside_clear.mono hpool))
    (Mem.sameOutside_clear.mono (hroot 0 32 le_rfl)))
    (sameOutside_store.mono (hroot 4 4 (by omega))))
    (sameOutside_store.mono (hroot 0 4 (by omega))))
    (Mem.sameOutside_clear.mono (hnode 0 32 le_rfl)))
    (sameOutside_store.mono (hnode 0 4 (by omega))))
    (sameOutside_store.mono (hroot 16 8 (by omega))))
    (sameOutside_store.mono (hnode 24 8 (by omega))))
    (sameOutside_store.mono (hnode 4 4 (by omega)))

lemma initHeader_lt (size : ℕ) (h : size < 2 ^ 32) : initHeader size < 2 ^ 32 := by
  rw [initHeader, hmuMarkPinuse, hmuSetSize, hmuSetUt, hmuFc]
  have : (0 % 2 ^ 30 + 1 * 2 ^ 30) / 2 ^ 27 * 2 ^ 27 ||| size / 8 < 2 ^ 32 :=
    Nat.or_lt_two_pow (by norm_num) (by omega)
  omega

lemma gcInitInternal_words (heap base size : ℕ) (mem : Mem)
    (hapart : heap + gcHeapSize ≤ base ∨ base + 32 ≤ heap) (hbase : base < 2 ^ 64)
    (hheap : heap + gcHeapSize ≤ 2 ^ 64) (hsize : size < 2 ^ 32) :
    (gcInitInternal heap base size mem).u32 base = initHeader size
      ∧ (gcInitInternal heap base size mem).nodeSize base = size
      ∧ (gcInitInternal heap base size mem).left base = 0
      ∧ (gcInitInternal heap base size mem).right base = 0
      ∧ (gcInitInternal heap base size mem).parent base = heap + kfcTreeRoot
      ∧ (gcInitInternal heap base size mem).right (heap + kfcTreeRoot) = base
      ∧ (gcInitInternal heap base size mem).nodeSize (heap + kfcTreeRoot) = 32 := by
  have hh := initHeader_lt size hsize
  rw [gcHeapSize] at hapart hheap
  simp only [GcHeap.u32, GcHeap.nodeSize, GcHeap.left, GcHeap.right, GcHeap.parent, GcHeap.ptr,
    gcInitInternal, GcHeap.setPtr, GcHeap.setU32, GcHeap.setHeader, kfcTreeRoot]
  refine ⟨?_, ?_, ?_, ?_, ?_, ?_, ?_⟩
  · rw [load_store_of_disjoint (by omega), load_store_of_disjoint (by omega),
      load_store_of_disjoint (by omega), Mem.load_clear_self (by omega)]
    exact load_store_self hh
  · exact load_store_self (by omega)
  · rw [load_store_of_disjoint (by omega), load_store_of_disjoint (by omega),
      load_store_of_disjoint (by omega), load_store_of_disjoint (by omega),
      Mem.load_clear_self (by omega)]
  · rw [load_store_of_disjoint (by omega), load_store_of_disjoint (by omega),
      load_store_of_disjoint (by omega), load_store_of_disjoint (by omega),
      Mem.load_clear_self (by omega)]
  · rw [load_store_of_disjoint (by omega), load_store_self (by omega)]
  · rw [load_store_of_disjoint (by omega), load_store_of_disjoint (by omega),
      load_store_self (by omega)]
  · rw [load_store_of_disjoint (by omega), load_store_of_disjoint (by omega),
      load_store_of_disjoint (by omega), load_store_of_disjoint (by omega),
      Mem.load_clear_of_disjoint (by omega), load_store_of_disjoint (by omega),
      load_store_self (by omega)]

/-- Where the structure and the pool of a heap are. -/
structure InitOk (heap base size : ℕ) : Prop where
  base_mod : base % 8 = 4
  size_mod : size % 8 = 0
  size_large : hmuFcNormalMaxSize ≤ size
  size_lt : size < 2 ^ 30
  end_le : base + size ≤ 2 ^ 64
  heap_le : heap + gcHeapSize ≤ 2 ^ 64
  apart : heap + gcHeapSize ≤ base ∨ base + size ≤ heap

/-- The tree with the first chunk. -/
def initLists (base size : ℕ) : FreeLists := ⟨fun _ => [], .node (base, size) .nil .nil⟩

lemma initLists_holds (hlarge : hmuFcNormalMaxSize ≤ size) :
    (initLists base size).Holds {(base, size)} := by
  refine ⟨fun i => ?_, ?_, ?_, ?_, trivial, trivial⟩
  · have : bin i {(base, size)} = 0 := bin_cons_of_neg fun hsz => absurd hsz.2 (not_lt.mpr hlarge)
    rw [this]
    rfl
  · exact (large_cons_of_large (c := (base, size)) (S := 0) hlarge).symm
  · exact fun b hb => absurd hb (Multiset.notMem_zero b)
  · exact fun b hb => absurd hb (Multiset.notMem_zero b)

lemma gcInitInternal_freeRep (mem : Mem) (hok : InitOk heap base size) :
    HeapOk (gcInitInternal heap base size mem)
      ∧ FreeRep False (gcInitInternal heap base size mem) (initLists base size) {(base, size)} := by
  obtain ⟨h₁, h2, h3, h4, h5, h6, h7⟩ := hok
  have h3' : 248 ≤ size := h3
  obtain ⟨-, hnode, hleft, hright, hparent, hroot, hrootSize⟩ := gcInitInternal_words heap base
    size mem (by omega) (by omega) h6 (by omega)
  have hbase : (gcInitInternal heap base size mem).baseAddr = base := rfl
  have hend : (gcInitInternal heap base size mem).endAddr = base + size := rfl
  have hcur : (gcInitInternal heap base size mem).currentSize = size := rfl
  have haddr : (gcInitInternal heap base size mem).rootAddr = heap + kfcTreeRoot := rfl
  have hlists : (gcInitInternal heap base size mem).kfcNormalList = fun _ => 0 := rfl
  generalize gcInitInternal heap base size mem = h at *
  have hone : ∀ {c}, c ∈ ({(base, size)} : Multiset (ℕ × ℕ)) → c = (base, size) :=
    Multiset.mem_singleton.mp
  rw [gcHeapSize] at h6 h7
  refine ⟨⟨?_, ?_, ?_, ?_, ?_, ?_, ?_⟩, ⟨?_, ?_, ?_, ?_, ?_, ?_, ?_⟩, initLists_holds h3, ?_, ?_, ?_,
    ?_, ?_⟩
  · rw [hbase, h₁]
  · rw [hcur, h2]
  · omega
  · rw [hcur]
    exact h4
  · rw [hend]
    exact h5
  · rw [haddr, kfcTreeRoot]
    omega
  · rw [haddr, hbase, hend, kfcTreeRoot]
    omega
  · exact Multiset.nodup_singleton _
  · intro c hc
    rw [hone hc, hbase]
  · intro c hc
    rw [hone hc, hend]
  · intro c hc
    rw [hone hc]
    exact h₁
  · intro c hc
    rw [hone hc]
    exact h2
  · intro c hc
    rw [hone hc, gcSmallestSize]
    show 16 ≤ size
    omega
  · intro c hc d hd hne
    exact absurd ((hone hc).trans (hone hd).symm) hne
  · intro i
    rw [hlists]
    exact rfl
  · rw [haddr, hroot]
    exact ⟨rfl, by omega, hparent, hleft, hright⟩
  · intro c hc _
    rw [hone hc]
    exact hnode
  · rintro c hc (hne | hf)
    · rw [hone hc, hend] at hne
      exact absurd rfl hne
    · exact hf.elim
  · rw [haddr, hrootSize, hmuFcNormalMaxSize]
    norm_num

end

/-! ## A pool with the structure in it -/

/-- What an initialisation with a pool should do, for every contents of the memory: it fails, or it
writes to the buffer only, structure and chunks are in the buffer, and the header of the first chunk
has the size of the heap. -/
def RespectsBuffer (buf bufSize : ℕ) : Prop :=
  ∀ mem h, gcInitWithPool buf bufSize mem = some h →
    Mem.SameOutside (range buf bufSize) mem h.mem
      ∧ (buf ≤ h.heapId ∧ h.heapId + gcHeapSize ≤ buf + bufSize)
      ∧ (buf ≤ h.baseAddr ∧ h.endAddr ≤ buf + bufSize)
      ∧ hmuGetSize (h.u32 h.baseAddr) = h.currentSize

section

variable {buf bufSize : ℕ}

lemma hmuGetSize_initHeader (size : ℕ) : hmuGetSize (initHeader size) = size / 8 % 2 ^ 27 * 8 := by
  have hor : ((0 % 2 ^ 30 + 1 * 2 ^ 30) / 2 ^ 27 * 2 ^ 27 ||| size / 8) % 2 ^ 27
      = size / 8 % 2 ^ 27 := by
    rw [Nat.or_mod_two_pow]
    norm_num
  rw [initHeader, hmuGetSize_hmuMarkPinuse, hmuGetSize, hmuSetSize, hmuSetUt, hmuFc, hor]

/-- Where structure and pool are in a buffer that is not at the end of the address space. -/
lemma pool_addrs (hbuf : (buf + 7) / 8 * 8 + 343 < 2 ^ 64) :
    poolHeap buf = (buf + 7) / 8 * 8 ∧ poolBase buf = (buf + 7) / 8 * 8 + 340 := by
  rw [poolBase, poolHeap, gcHeapSize, gcHeadPadding]
  omega

lemma gcInitWithPool_eq (buf : ℕ) (hmin : appHeapSizeMin ≤ bufSize) (mem : Mem) :
    gcInitWithPool buf bufSize mem = some (gcInitInternal (poolHeap buf) (poolBase buf)
      (((((buf + bufSize : ℕ) : ℤ) - poolBase buf) % 2 ^ 32).toNat / 8 * 8) mem) :=
  if_neg (not_lt.mpr hmin)

/-- The last byte of the first node is written, whatever is there. -/
lemma RespectsBuffer.node_inside (h : RespectsBuffer buf bufSize) (hmin : appHeapSizeMin ≤ bufSize)
    (hheap : poolHeap buf + gcHeapSize ≤ poolBase buf) (hend : poolBase buf < 2 ^ 64) :
    poolBase buf + 32 ≤ buf + bufSize := by
  by_contra hlt
  have hout : poolBase buf + 31 ∉ range buf bufSize := by
    rintro ⟨h₁, h2⟩
    omega
  -- the word that ends there is the pointer to the parent, and does not depend on the memory
  have hword : ∀ v : UInt8, ∃ x,
      x + 256 ^ 7 * v.toNat = poolHeap buf + kfcTreeRoot ∧ x < 256 ^ 7 := by
    intro v
    obtain ⟨-, -, -, -, hparent, -, -⟩ := gcInitInternal_words (poolHeap buf) (poolBase buf)
      (((((buf + bufSize : ℕ) : ℤ) - poolBase buf) % 2 ^ 32).toNat / 8 * 8) (fun _ => v)
      (.inl hheap) hend (by omega) (by omega)
    have hbyte := (h (fun _ => v) _ (gcInitWithPool_eq buf hmin _)).1 _ hout
    rw [GcHeap.parent, GcHeap.ptr, Mem.load_succ_last, hbyte] at hparent
    exact ⟨_, hparent, Mem.load_lt⟩
  obtain ⟨x, hx, -⟩ := hword 1
  obtain ⟨y, hy, hlt'⟩ := hword 0
  have h1 : (1 : UInt8).toNat = 1 := rfl
  have h0 : (0 : UInt8).toNat = 0 := rfl
  rw [h1] at hx
  rw [h0] at hy
  omega

/-- **Where the initialisation of a pool respects the buffer.**  A buffer of less than 256 bytes is
refused.  Any other buffer has to have room for the structure and the first node, and less than
1 GiB behind the structure. -/
theorem respectsBuffer_iff (buf bufSize : ℕ) (hsize : bufSize < 2 ^ 32)
    (hbuf : buf + bufSize ≤ 2 ^ 64) :
    RespectsBuffer buf bufSize ↔ bufSize < 256
      ∨ ((buf + 7) / 8 * 8 + 372 ≤ buf + bufSize
        ∧ buf + bufSize < (buf + 7) / 8 * 8 + 340 + 2 ^ 30) := by
  by_cases hmin : appHeapSizeMin ≤ bufSize
  swap
  · have hnone : ∀ mem, gcInitWithPool buf bufSize mem = none := fun mem => if_pos (not_le.mp hmin)
    refine iff_of_true (fun mem h hh => ?_) (.inl (not_le.mp hmin))
    rw [hnone] at hh
    exact absurd hh (by simp)
  have hmin' : 256 ≤ bufSize := hmin
  constructor
  · intro hresp
    refine .inr ?_
    obtain ⟨size, hsz⟩ :
        ∃ size, ((((buf + bufSize : ℕ) : ℤ) - poolBase buf) % 2 ^ 32).toNat / 8 * 8 = size :=
      ⟨_, rfl⟩
    have mem : Mem := fun _ => 0
    have hrun := gcInitWithPool_eq buf hmin mem
    rw [hsz] at hrun
    obtain ⟨-, -, ⟨hlo, -⟩, hheader⟩ := hresp mem _ hrun
    rw [gcInitInternal_baseAddr] at hlo hheader
    rw [gcInitInternal_currentSize] at hheader
    have hwrap : (buf + 7) / 8 * 8 + 343 < 2 ^ 64 := by
      by_contra hge
      rw [poolBase, poolHeap, gcHeapSize, gcHeadPadding] at hlo
      omega
    obtain ⟨hheap, hbase⟩ := pool_addrs hwrap
    have happ : poolHeap buf + gcHeapSize ≤ poolBase buf := by
      rw [hheap, hbase, gcHeapSize]
      omega
    have hnode := hresp.node_inside hmin happ (by omega)
    obtain ⟨hword, -⟩ := gcInitInternal_words (poolHeap buf) (poolBase buf) size mem
      (.inl happ) (by omega) (by omega) (by omega)
    rw [hword, hmuGetSize_initHeader] at hheader
    rw [hbase] at hnode hsz
    constructor <;> omega
  · rintro (hlt | ⟨hlo, hhi⟩) mem h hh
    · omega
    obtain ⟨hheap, hbase⟩ := pool_addrs (show (buf + 7) / 8 * 8 + 343 < 2 ^ 64 by omega)
    obtain ⟨size, hsz⟩ :
        ∃ size, ((((buf + bufSize : ℕ) : ℤ) - poolBase buf) % 2 ^ 32).toNat / 8 * 8 = size :=
      ⟨_, rfl⟩
    have hrun := gcInitWithPool_eq buf hmin mem
    rw [hsz, hh, hheap, hbase] at hrun
    rw [hbase] at hsz
    obtain rfl := Option.some.inj hrun
    have hle : (buf + 7) / 8 * 8 + 340 + size ≤ buf + bufSize := by omega
    obtain ⟨hword, -⟩ := gcInitInternal_words ((buf + 7) / 8 * 8) ((buf + 7) / 8 * 8 + 340) size mem
      (.inl (by rw [gcHeapSize]; omega)) (by omega) (by rw [gcHeapSize]; omega) (by omega)
    rw [gcInitInternal_heapId, gcInitInternal_baseAddr, gcInitInternal_endAddr,
      gcInitInternal_currentSize, hword, hmuGetSize_initHeader, gcHeapSize]
    refine ⟨gcInitInternal_sameOutside.mono ?_, ⟨by omega, by omega⟩, ⟨by omega, hle⟩, by omega⟩
    rintro j ((⟨h₁, h2⟩ | ⟨h₁, h2⟩) | ⟨h₁, h2⟩)
    · rw [gcHeapSize] at h2
      exact ⟨by omega, by omega⟩
    · exact ⟨by omega, by omega⟩
    · exact ⟨by omega, by omega⟩

/-- A buffer of 64 KiB is respected. -/
theorem respectsBuffer_iff_sample : RespectsBuffer 4096 65536 :=
  (respectsBuffer_iff 4096 65536 (by norm_num) (by norm_num)).mpr (.inr ⟨by norm_num, by norm_num⟩)

/-- In a buffer of 256 bytes, the first chunk begins behind the end of the buffer. -/
theorem gcInitWithPool_small_buffer :
    (gcInitWithPool 4096 256 fun _ => 0).map (fun h => (h.baseAddr, h.currentSize))
        = some (4436, 2 ^ 32 - 88)
      ∧ ¬ RespectsBuffer 4096 256 := by
  refine ⟨by decide, fun hresp => ?_⟩
  obtain ⟨-, -, ⟨-, hend⟩, -⟩ := hresp (fun _ => 0) _ (gcInitWithPool_eq 4096 (by decide) _)
  exact absurd hend (by decide)

end

end Watz.Ems
