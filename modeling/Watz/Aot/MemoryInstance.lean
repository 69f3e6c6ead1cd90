import Watz.Ems.Heap

/-!
# Memory instances with an app heap

`memory_instantiate` lays out the linear memory of a module.  The app heap, from which the host
allocates memory for the module, is a part of the linear memory: it is put behind the only page, or
at `__heap_base`, which is then moved up, or on new pages.  Sizes and offsets are computed as 32-bit
numbers.

The memory itself and the structure of the app heap are allocated from the pool of the runtime.  The
data of the module's globals is taken to be a memory of its own.
-/

namespace Watz.Aot

open Lib Ems

/-! ## The allocator of the runtime -/

/-- `wasm_runtime_malloc`, with the pool. -/
def wasmRuntimeMalloc (size : ℕ) (pool : GcHeap) : ℕ × GcHeap :=
  gcAllocVo (if size = 0 then 1 else size) pool

/-- `wasm_runtime_free`. -/
def wasmRuntimeFree (ptr : ℕ) (pool : GcHeap) : GcHeap :=
  if ptr = 0 then pool else (gcFreeVo ptr pool).2

/-- `runtime_malloc`: the memory is cleared. -/
def runtimeMalloc (size : ℕ) (pool : GcHeap) : ℕ × GcHeap :=
  if size ≥ 2 ^ 32 - 1 then (0, pool)
  else
    let (mem, pool) := wasmRuntimeMalloc size pool
    if mem = 0 then (0, pool) else (mem, { pool with mem := pool.mem.clear mem size })

/-! ## Modules and instances -/

/-- What a module says about its memory (`AOTModule`, `AOTMemory`).  An index of `2 ^ 32 - 1` stands
for a missing function or global. -/
structure MemoryModule where
  numBytesPerPage : ℕ
  memInitPageCount : ℕ
  memMaxPageCount : ℕ
  mallocFuncIndex : ℕ
  freeFuncIndex : ℕ
  auxHeapBaseGlobalIndex : ℕ
  auxHeapBase : ℕ
  importGlobalCount : ℕ
  /-- `data_offset` of the globals the module defines. -/
  globalDataOffset : ℕ → ℕ

/-- `mem_bound_check_1byte` to `mem_bound_check_16bytes`. -/
structure MemBounds where
  memBoundCheck1byte : ℕ
  memBoundCheck2bytes : ℕ
  memBoundCheck4bytes : ℕ
  memBoundCheck8bytes : ℕ
  memBoundCheck16bytes : ℕ

/-- The bounds for a memory of a size. -/
def MemBounds.ofSize (totalSize : ℕ) : MemBounds where
  memBoundCheck1byte := (totalSize + 2 ^ 64 - 1) % 2 ^ 64
  memBoundCheck2bytes := (totalSize + 2 ^ 64 - 2) % 2 ^ 64
  memBoundCheck4bytes := (totalSize + 2 ^ 64 - 4) % 2 ^ 64
  memBoundCheck8bytes := (totalSize + 2 ^ 64 - 8) % 2 ^ 64
  memBoundCheck16bytes := (totalSize + 2 ^ 64 - 16) % 2 ^ 64

/-- `AOTMemoryInstance`, for a memory that is not shared.  The app heap shares its memory with the
pool. -/
structure MemoryInstance where
  numBytesPerPage : ℕ
  curPageCount : ℕ
  maxPageCount : ℕ
  memoryData : ℕ
  memoryDataEnd : ℕ
  memoryDataSize : ℕ
  heapData : ℕ
  heapDataEnd : ℕ
  heapHandle : Option GcHeap
  bounds : MemBounds

/-- The pool of the runtime, and the data of the globals of the instance. -/
structure InstanceState where
  pool : GcHeap
  globalData : Mem

/-! ## The layout -/

/-- `APP_HEAP_SIZE_MAX`. -/
def appHeapSizeMax : ℕ := 512 * 1024 * 1024

/-- The size of the app heap in `aot_instantiate`, for the size that is requested. -/
def appHeapSize (heapSize : ℕ) : ℕ :=
  let heapSize := (heapSize + 7) % 2 ^ 32 / 8 * 8
  if heapSize > appHeapSizeMax then appHeapSizeMax else heapSize

/-- Where an app heap is put, how many pages are added for it, and what `__heap_base` becomes. -/
structure HeapPlace where
  heapOffset : ℕ
  heapSize : ℕ
  incPageCount : ℕ
  auxHeapBase : Option ℕ

/-- The bytes from an offset to the end of its page; the offset of a page counts as the end of the
page before it. -/
def bytesToPageEnd (numBytesPerPage offset : ℕ) : ℕ :=
  numBytesPerPage
    - if offset % numBytesPerPage = 0 then numBytesPerPage else offset % numBytesPerPage

/-- The app heap is inserted before `__heap_base`. -/
def insertBeforeHeapBase (numBytesPerPage auxHeapBase heapSize : ℕ) : HeapPlace :=
  let incPageCount := (heapSize + 2 ^ 32 - bytesToPageEnd numBytesPerPage auxHeapBase
    + numBytesPerPage - 1) % 2 ^ 32 / numBytesPerPage
  let heapBase := (auxHeapBase + heapSize) % 2 ^ 32
  if bytesToPageEnd numBytesPerPage heapBase < 1024 then
    ⟨auxHeapBase, heapSize, (incPageCount + 1) % 2 ^ 32, some ((heapBase + 1024) % 2 ^ 32)⟩
  else ⟨auxHeapBase, heapSize, incPageCount, some heapBase⟩

/-- The app heap is put on new pages. -/
def insertOnNewPages (numBytesPerPage initPageCount heapSize : ℕ) : HeapPlace :=
  let incPageCount := (heapSize + numBytesPerPage - 1) % 2 ^ 32 / numBytesPerPage
  let heapSize := numBytesPerPage * incPageCount % 2 ^ 32
  ⟨numBytesPerPage * initPageCount % 2 ^ 32, if heapSize > 0 then heapSize - 1024 else heapSize,
    incPageCount, none⟩

/-- The place of the app heap of a module with more than one page. -/
def MemoryModule.heapPlace (m : MemoryModule) (heapSize : ℕ) : HeapPlace :=
  if m.auxHeapBaseGlobalIndex ≠ 2 ^ 32 - 1
      ∧ m.auxHeapBase < m.numBytesPerPage * m.memInitPageCount % 2 ^ 32 then
    insertBeforeHeapBase m.numBytesPerPage m.auxHeapBase heapSize
  else insertOnNewPages m.numBytesPerPage m.memInitPageCount heapSize

/-- The `__heap_base` global is given a new value. -/
def MemoryModule.adjustHeapBase (m : MemoryModule) (globalData : Mem) : Option ℕ → Mem
  | none => globalData
  | some heapBase =>
    let globalIdx := (m.auxHeapBaseGlobalIndex + 2 ^ 32 - m.importGlobalCount) % 2 ^ 32
    globalData.store (m.globalDataOffset globalIdx) 4 heapBase

/-- The pages of the linear memory, and the app heap in it. -/
structure MemoryLayout where
  numBytesPerPage : ℕ
  initPageCount : ℕ
  maxPageCount : ℕ
  heapOffset : ℕ
  heapSize : ℕ

/-- The second part of `memory_instantiate`: the memory is allocated, and the app heap in it is
initialised. -/
def createMemory (memoryInst : MemoryInstance) (l : MemoryLayout) (pool : GcHeap) :
    Option MemoryInstance × GcHeap :=
  let totalSize := l.numBytesPerPage * l.initPageCount
  let (p, pool) := if totalSize > 0 then runtimeMalloc totalSize pool else (0, pool)
  if totalSize > 0 ∧ p = 0 then (none, pool)
  else
    let memoryInst := { memoryInst with
      numBytesPerPage := l.numBytesPerPage
      curPageCount := l.initPageCount
      maxPageCount := l.maxPageCount
      memoryData := p
      memoryDataEnd := p + totalSize % 2 ^ 32
      memoryDataSize := totalSize % 2 ^ 32
      heapData := p + l.heapOffset
      heapDataEnd := p + l.heapOffset + l.heapSize
      bounds := if totalSize > 0 then .ofSize totalSize else memoryInst.bounds }
    if l.heapSize > 0 then
      let (heapHandle, pool) := runtimeMalloc gcHeapSize pool
      if heapHandle = 0 then (none, wasmRuntimeFree p pool)
      else
        match gcInitWithStructAndPool heapHandle gcHeapSize (p + l.heapOffset) l.heapSize
            pool.mem with
        | none => (none, wasmRuntimeFree p (wasmRuntimeFree heapHandle pool))
        | some heap =>
          (some { memoryInst with heapHandle := some heap }, { pool with mem := heap.mem })
    else (some memoryInst, pool)

/-- `memory_instantiate`, for a memory that is not shared. -/
def memoryInstantiate (m : MemoryModule) (memoryInst : MemoryInstance) (heapSize : ℕ)
    (st : InstanceState) : Option MemoryInstance × InstanceState :=
  let heapSize :=
    -- the module has its own functions for memory
    if heapSize > 0 ∧ m.mallocFuncIndex ≠ 2 ^ 32 - 1 ∧ m.freeFuncIndex ≠ 2 ^ 32 - 1 then 0
    else heapSize
  if m.memInitPageCount = m.memMaxPageCount ∧ m.memInitPageCount = 1 then
    let numBytesPerPage := (m.numBytesPerPage + heapSize) % 2 ^ 32
    if numBytesPerPage < heapSize then (none, st)
    else
      let (inst, pool) := createMemory memoryInst
        ⟨numBytesPerPage, m.memInitPageCount, m.memMaxPageCount, m.numBytesPerPage, heapSize⟩ st.pool
      (inst, { st with pool := pool })
  else if heapSize > 0 then
    let place := m.heapPlace heapSize
    let st := { st with globalData := m.adjustHeapBase st.globalData place.auxHeapBase }
    let initPageCount := (m.memInitPageCount + place.incPageCount) % 2 ^ 32
    let maxPageCount := (m.memMaxPageCount + place.incPageCount) % 2 ^ 32
    if initPageCount > 65536 then (none, st)
    else
      let (inst, pool) := createMemory memoryInst
        ⟨m.numBytesPerPage, initPageCount, if maxPageCount > 65536 then 65536 else maxPageCount,
          place.heapOffset, place.heapSize⟩ st.pool
      (inst, { st with pool := pool })
  else
    let (inst, pool) := createMemory memoryInst
      ⟨m.numBytesPerPage, m.memInitPageCount, m.memMaxPageCount,
        m.numBytesPerPage * m.memInitPageCount % 2 ^ 32, 0⟩ st.pool
    (inst, { st with pool := pool })

/-! ## Correctness of the layout -/

/-- The `__heap_base` global has a new value, behind the app heap and in the memory, and the other
globals are as before. -/
def HeapBaseMoved (m : MemoryModule) (inst : MemoryInstance) (globalData globalData' : Mem) : Prop :=
  ∃ offset heapBase,
    offset = m.globalDataOffset (m.auxHeapBaseGlobalIndex - m.importGlobalCount)
      ∧ Mem.SameOutside (Mem.range offset 4) globalData globalData'
      ∧ globalData'.load offset 4 = heapBase
      ∧ inst.heapDataEnd ≤ inst.memoryData + heapBase ∧ heapBase < inst.memoryDataSize

/-- The linear memory of an instance, as it should be for the module.  The app heap is inside.  It is
behind the original memory, and the globals are as before, or it is at the original `__heap_base`,
inside of the original memory, and the global is moved behind it. -/
structure LaidOut (m : MemoryModule) (inst : MemoryInstance) (globalData globalData' : Mem) :
    Prop where
  data_end : inst.memoryDataEnd = inst.memoryData + inst.memoryDataSize
  heap_inside : inst.memoryData ≤ inst.heapData ∧ inst.heapData ≤ inst.heapDataEnd
    ∧ inst.heapDataEnd ≤ inst.memoryDataEnd
  heap_place :
    inst.heapData = inst.memoryData + m.numBytesPerPage * m.memInitPageCount
        ∧ globalData' = globalData
    ∨ m.auxHeapBaseGlobalIndex ≠ 2 ^ 32 - 1
        ∧ m.auxHeapBase < m.numBytesPerPage * m.memInitPageCount
        ∧ inst.heapData = inst.memoryData + m.auxHeapBase
        ∧ HeapBaseMoved m inst globalData globalData'
  size_eq : inst.memoryDataSize = inst.numBytesPerPage * inst.curPageCount
  size_lt : inst.memoryDataSize < 2 ^ 32
  covers : m.numBytesPerPage * m.memInitPageCount ≤ inst.memoryDataSize
  bounds : inst.memoryDataSize ≠ 0 →
    inst.bounds.memBoundCheck1byte = inst.memoryDataSize - 1
      ∧ inst.bounds.memBoundCheck2bytes = inst.memoryDataSize - 2
      ∧ inst.bounds.memBoundCheck4bytes = inst.memoryDataSize - 4
      ∧ inst.bounds.memBoundCheck8bytes = inst.memoryDataSize - 8
      ∧ inst.bounds.memBoundCheck16bytes = inst.memoryDataSize - 16

/-- What a memory that has been created has to do with its layout. -/
structure Created (l : MemoryLayout) (inst : MemoryInstance) : Prop where
  size_lt : l.numBytesPerPage * l.initPageCount < 2 ^ 32 - 1
  page_eq : inst.numBytesPerPage = l.numBytesPerPage
  count_eq : inst.curPageCount = l.initPageCount
  size_eq : inst.memoryDataSize = l.numBytesPerPage * l.initPageCount
  end_eq : inst.memoryDataEnd = inst.memoryData + l.numBytesPerPage * l.initPageCount
  heap_eq : inst.heapData = inst.memoryData + l.heapOffset
  heap_end_eq : inst.heapDataEnd = inst.memoryData + l.heapOffset + l.heapSize
  bounds_eq : inst.memoryDataSize ≠ 0 →
    inst.bounds = .ofSize (l.numBytesPerPage * l.initPageCount)

variable {pool : GcHeap} {size heapSize initPageCount : ℕ} {inst : MemoryInstance}
  {l : MemoryLayout} {place : HeapPlace}

lemma runtimeMalloc_lt (h : (runtimeMalloc size pool).1 ≠ 0) :
    size < 2 ^ 32 - 1 := by
  by_contra hge
  rw [runtimeMalloc, if_pos (not_lt.mp hge)] at h
  exact h rfl

lemma createMemory_created {memoryInst : MemoryInstance} {pool' : GcHeap}
    (h : createMemory memoryInst l pool = (some inst, pool')) :
    Created l inst := by
  have hsize : l.numBytesPerPage * l.initPageCount < 2 ^ 32 - 1 := by
    by_contra hge
    have hpos : l.numBytesPerPage * l.initPageCount > 0 := by omega
    have hfail : (runtimeMalloc (l.numBytesPerPage * l.initPageCount) pool).1 = 0 :=
      of_not_not fun hne => hge (runtimeMalloc_lt hne)
    simp [createMemory, hpos, hfail] at h
  have hmod : l.numBytesPerPage * l.initPageCount % 2 ^ 32 = l.numBytesPerPage * l.initPageCount :=
    Nat.mod_eq_of_lt (by omega)
  rw [createMemory] at h
  dsimp only at h
  rw [hmod] at h
  generalize (if _ > 0 then _ else _ : ℕ × GcHeap) = start at h
  obtain ⟨p, pool₁⟩ := start
  dsimp only at h
  split at h
  · simp at h
  split at h
  · split at h
    · simp at h
    · split at h
      · simp at h
      · obtain ⟨rfl, -⟩ : _ = inst ∧ _ := by simpa only [Prod.mk.injEq, Option.some.injEq] using h
        exact ⟨hsize, rfl, rfl, rfl, rfl, rfl, rfl, fun hne => if_pos (Nat.pos_of_ne_zero hne)⟩
  · obtain ⟨rfl, -⟩ : _ = inst ∧ _ := by simpa only [Prod.mk.injEq, Option.some.injEq] using h
    exact ⟨hsize, rfl, rfl, rfl, rfl, rfl, rfl, fun hne => if_pos (Nat.pos_of_ne_zero hne)⟩

lemma MemBounds.ofSize_spec (hlo : 16 ≤ size) (hhi : size < 2 ^ 32) :
    (MemBounds.ofSize size).memBoundCheck1byte = size - 1
      ∧ (MemBounds.ofSize size).memBoundCheck2bytes = size - 2
      ∧ (MemBounds.ofSize size).memBoundCheck4bytes = size - 4
      ∧ (MemBounds.ofSize size).memBoundCheck8bytes = size - 8
      ∧ (MemBounds.ofSize size).memBoundCheck16bytes = size - 16 := by
  simp only [MemBounds.ofSize]
  omega

/-- A memory that has been created is laid out, if its layout fits. -/
lemma Created.laidOut {m : MemoryModule} {globalData globalData' : Mem} (h : Created l inst)
    (hpage : 65536 ≤ l.numBytesPerPage)
    (hheap : l.heapOffset + l.heapSize ≤ l.numBytesPerPage * l.initPageCount)
    (hcover : m.numBytesPerPage * m.memInitPageCount ≤ l.numBytesPerPage * l.initPageCount)
    (hplace : l.heapOffset = m.numBytesPerPage * m.memInitPageCount ∧ globalData' = globalData
      ∨ m.auxHeapBaseGlobalIndex ≠ 2 ^ 32 - 1
        ∧ m.auxHeapBase < m.numBytesPerPage * m.memInitPageCount
        ∧ l.heapOffset = m.auxHeapBase
        ∧ ∃ heapBase, globalData' = m.adjustHeapBase globalData (some heapBase)
          ∧ m.importGlobalCount ≤ m.auxHeapBaseGlobalIndex
          ∧ m.auxHeapBaseGlobalIndex < 2 ^ 32
          ∧ l.heapOffset + l.heapSize ≤ heapBase
          ∧ heapBase < l.numBytesPerPage * l.initPageCount) :
    LaidOut m inst globalData globalData' := by
  obtain ⟨hsize, hpage', hcount, hsize', hend, hstart', hend', hbounds⟩ := h
  refine ⟨by rw [hend, hsize'], ⟨by omega, by omega, by omega⟩, ?_, ?_, by omega, by omega, ?_⟩
  · rcases hplace with ⟨hoff, heq⟩ | ⟨hne, hbelow, hoff, heapBase, rfl, hdefined, hidx, hle, hlt⟩
    · exact .inl ⟨by rw [hstart', hoff], heq⟩
    · refine .inr ⟨hne, hbelow, by rw [hstart', hoff], _, heapBase, rfl, ?_, ?_, by omega, by omega⟩
      all_goals
        rw [MemoryModule.adjustHeapBase, show (m.auxHeapBaseGlobalIndex + 2 ^ 32
          - m.importGlobalCount) % 2 ^ 32 = m.auxHeapBaseGlobalIndex - m.importGlobalCount by omega]
      · exact Mem.sameOutside_store
      · exact Mem.load_store_self (by omega)
  · rw [hsize', hpage', hcount]
  · intro hne
    rw [hbounds hne, ← hsize']
    refine MemBounds.ofSize_spec ?_ (by omega)
    -- a memory that is not empty has at least one page
    rw [hsize'] at hne ⊢
    have hpos : 0 < l.initPageCount := Nat.pos_of_ne_zero (right_ne_zero_of_mul hne)
    have := Nat.mul_le_mul hpage hpos
    omega

lemma appHeapSize_le (requested : ℕ) : appHeapSize requested ≤ appHeapSizeMax := by
  rw [appHeapSize]
  split <;> omega

/-- An app heap inserted before `__heap_base` fits in the pages, if they are less than 4 GiB. -/
lemma insertBeforeHeapBase_spec {auxHeapBase : ℕ} (haux : auxHeapBase < 65536 * initPageCount)
    (hpos : 0 < heapSize) (hle : heapSize ≤ appHeapSizeMax)
    (hplace : place = insertBeforeHeapBase 65536 auxHeapBase heapSize)
    (hfit : initPageCount + place.incPageCount < 65536) :
    place.heapOffset = auxHeapBase ∧ ∃ heapBase, place.auxHeapBase = some heapBase
      ∧ auxHeapBase + place.heapSize ≤ heapBase
      ∧ heapBase < 65536 * (initPageCount + place.incPageCount) := by
  rw [appHeapSizeMax] at hle
  rw [insertBeforeHeapBase] at hplace
  -- the offset in the page is positive, and at most the size of the page
  have hend : ∀ a, ∃ q, a + bytesToPageEnd 65536 a = 65536 * q ∧ bytesToPageEnd 65536 a < 65536 := by
    intro a
    rw [bytesToPageEnd]
    split
    · exact ⟨a / 65536, by omega⟩
    · exact ⟨a / 65536 + 1, by omega⟩
  obtain ⟨q, hq, hq'⟩ := hend auxHeapBase
  obtain ⟨r, hr, hr'⟩ := hend ((auxHeapBase + heapSize) % 2 ^ 32)
  split at hplace <;> subst hplace <;> dsimp only at hfit ⊢
  · exact ⟨rfl, _, rfl, by omega, by omega⟩
  · exact ⟨rfl, _, rfl, by omega, by omega⟩

/-- An app heap on new pages ends before the last kilobyte of them. -/
lemma insertOnNewPages_spec (hpos : 0 < heapSize) (hle : heapSize ≤ appHeapSizeMax)
    (hinit : initPageCount < 65536)
    (hplace : place = insertOnNewPages 65536 initPageCount heapSize) :
    place.auxHeapBase = none ∧ place.heapOffset = 65536 * initPageCount
      ∧ place.heapOffset + place.heapSize < 65536 * (initPageCount + place.incPageCount) := by
  rw [appHeapSizeMax] at hle
  subst hplace
  rw [insertOnNewPages]
  dsimp only
  refine ⟨rfl, by omega, ?_⟩
  split <;> omega

lemma MemoryModule.heapPlace_incPageCount_le (m : MemoryModule) (hpage : m.numBytesPerPage = 65536)
    (heapSize : ℕ) : (m.heapPlace heapSize).incPageCount ≤ 65536 := by
  rw [heapPlace, hpage]
  split
  · rw [insertBeforeHeapBase]
    split <;> dsimp only <;> omega
  · rw [insertOnNewPages]
    dsimp only
    omega

/-- **The layout of the linear memory.**  For pages of 65536 bytes and every requested size of the app
heap: if `memory_instantiate` succeeds, the app heap lies in the linear memory, at the original
`__heap_base` or behind the original memory; in the first case, and only then, the `__heap_base`
global is adjusted, to a place behind the heap and in the memory; the size of the memory is that of its pages, without an overflow, and it
covers the original memory; and the bounds for memory accesses belong to that size. -/
theorem memoryInstantiate_laidOut (m : MemoryModule) (memoryInst inst : MemoryInstance)
    (requested : ℕ) (st st' : InstanceState) (hpage : m.numBytesPerPage = 65536)
    (hinit : m.memInitPageCount ≤ m.memMaxPageCount) (hmax : m.memMaxPageCount ≤ 65536)
    (hindex : m.auxHeapBaseGlobalIndex < 2 ^ 32)
    (hdefined : m.auxHeapBaseGlobalIndex ≠ 2 ^ 32 - 1 →
      m.importGlobalCount ≤ m.auxHeapBaseGlobalIndex)
    (hrun : memoryInstantiate m memoryInst (appHeapSize requested) st = (some inst, st')) :
    LaidOut m inst st.globalData st'.globalData := by
  have hle := appHeapSize_le requested
  rw [memoryInstantiate] at hrun
  dsimp only at hrun
  -- the app heap may be disabled
  generalize hsize : (if appHeapSize requested > 0 ∧ m.mallocFuncIndex ≠ 2 ^ 32 - 1
    ∧ m.freeFuncIndex ≠ 2 ^ 32 - 1 then 0 else appHeapSize requested) = heapSize at hrun
  replace hle : heapSize ≤ appHeapSizeMax := by
    rw [← hsize]
    split <;> omega
  clear hsize
  have hmaxSize : appHeapSizeMax = 2 ^ 29 := rfl
  split at hrun
  · -- one page, which is enlarged
    rename_i hone
    split at hrun
    · simp at hrun
    obtain ⟨hinst, rfl⟩ : _ = some inst ∧ _ = st' := by simpa only [Prod.mk.injEq] using hrun
    have hc := createMemory_created (Prod.ext_iff.mpr ⟨hinst, rfl⟩)
    have hmod : (m.numBytesPerPage + heapSize) % 2 ^ 32 = 65536 + heapSize := by
      rw [hpage]
      omega
    rw [hmod, hone.2] at hc
    refine hc.laidOut (Nat.le_add_right _ _) ?_ ?_ (.inl ⟨?_, rfl⟩) <;> dsimp only <;>
      rw [hpage] <;> omega
  split at hrun
  swap
  · -- no app heap
    obtain ⟨hinst, rfl⟩ : _ = some inst ∧ _ = st' := by simpa only [Prod.mk.injEq] using hrun
    have hc := createMemory_created (Prod.ext_iff.mpr ⟨hinst, rfl⟩)
    have hlt := hc.size_lt
    dsimp only at hlt
    have hmod : m.numBytesPerPage * m.memInitPageCount % 2 ^ 32
        = m.numBytesPerPage * m.memInitPageCount := Nat.mod_eq_of_lt (by omega)
    rw [hmod] at hc
    exact hc.laidOut hpage.ge le_rfl le_rfl (.inl ⟨rfl, rfl⟩)
  rename_i hpos
  split at hrun
  · simp at hrun
  obtain ⟨hinst, rfl⟩ : _ = some inst ∧ _ = st' := by simpa only [Prod.mk.injEq] using hrun
  have hc := createMemory_created (Prod.ext_iff.mpr ⟨hinst, rfl⟩)
  have hlt := hc.size_lt
  dsimp only at hlt
  have hinc := m.heapPlace_incPageCount_le hpage heapSize
  have hmod : (m.memInitPageCount + (m.heapPlace heapSize).incPageCount) % 2 ^ 32
      = m.memInitPageCount + (m.heapPlace heapSize).incPageCount := Nat.mod_eq_of_lt (by omega)
  rw [hmod] at hc hlt
  rw [hpage] at hlt
  by_cases haux : m.auxHeapBaseGlobalIndex ≠ 2 ^ 32 - 1
      ∧ m.auxHeapBase < m.numBytesPerPage * m.memInitPageCount % 2 ^ 32
  · -- before `__heap_base`
    have hplace : m.heapPlace heapSize = insertBeforeHeapBase 65536 m.auxHeapBase heapSize := by
      rw [MemoryModule.heapPlace, if_pos haux, hpage]
    have hbelow : m.auxHeapBase < 65536 * m.memInitPageCount := by
      have := haux.2.trans_le (Nat.mod_le _ _)
      rwa [hpage] at this
    obtain ⟨hoff, heapBase, hsome, hbehind, hinside⟩ :=
      insertBeforeHeapBase_spec hbelow hpos hle hplace (by omega)
    rw [hsome]
    rw [hpage] at hc
    refine hc.laidOut le_rfl ?_ ?_ (.inr ⟨haux.1, hpage.symm ▸ hbelow, hoff, heapBase, rfl,
      hdefined haux.1, hindex, ?_, hinside⟩)
    · dsimp only
      omega
    · rw [hpage]
      exact Nat.mul_le_mul_left _ (Nat.le_add_right _ _)
    · dsimp only
      omega
  · have hplace : m.heapPlace heapSize = insertOnNewPages 65536 m.memInitPageCount heapSize := by
      rw [MemoryModule.heapPlace, if_neg haux, hpage]
    obtain ⟨hnone, hoff, hinside⟩ := insertOnNewPages_spec hpos hle (by omega) hplace
    rw [hnone]
    rw [hpage] at hc
    refine hc.laidOut le_rfl hinside.le ?_ (.inl ⟨?_, rfl⟩)
    · rw [hpage]
      exact Nat.mul_le_mul_left _ (Nat.le_add_right _ _)
    · rw [hpage]
      exact hoff

/-- A module of two pages with `__heap_base` in the second one. -/
def sampleModule : MemoryModule where
  numBytesPerPage := 65536
  memInitPageCount := 2
  memMaxPageCount := 4
  mallocFuncIndex := 2 ^ 32 - 1
  freeFuncIndex := 2 ^ 32 - 1
  auxHeapBaseGlobalIndex := 1
  auxHeapBase := 66560
  importGlobalCount := 0
  globalDataOffset idx := 4 * idx

/-- An instance before its memory is set up. -/
def emptyInstance : MemoryInstance :=
  ⟨0, 0, 0, 0, 0, 0, 0, 0, none, ⟨0, 0, 0, 0, 0⟩⟩

/-- A pool of a megabyte. -/
def samplePool : GcHeap := gcInitInternal 8192 16388 (2 ^ 20) fun _ => 0

/-- A heap of 8 KiB that is put at `__heap_base`. -/
theorem memoryInstantiate_laidOut_sample :
    ∃ inst, (memoryInstantiate sampleModule emptyInstance (appHeapSize 8192)
        ⟨samplePool, fun _ => 0⟩).1 = some inst
      ∧ LaidOut sampleModule inst (fun _ => 0) (memoryInstantiate sampleModule emptyInstance
        (appHeapSize 8192) ⟨samplePool, fun _ => 0⟩).2.globalData := by
  have hsome : (memoryInstantiate sampleModule emptyInstance (appHeapSize 8192)
      ⟨samplePool, fun _ => 0⟩).1.isSome = true := by decide +kernel
  obtain ⟨inst, hinst⟩ := Option.isSome_iff_exists.mp hsome
  refine ⟨inst, hinst, ?_⟩
  exact memoryInstantiate_laidOut sampleModule emptyInstance inst 8192 ⟨samplePool, fun _ => 0⟩ _
    rfl (by decide) (by decide) (by decide) (by decide) (Prod.ext hinst rfl)

end Watz.Aot
