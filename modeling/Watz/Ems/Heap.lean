import Watz.Lib.Program
import Watz.Lib.Words

/-!
# The pool allocator

The memory of the Wasm runtime and of its modules is managed by the allocator of `mem-alloc/ems`.  A
heap is divided into chunks (`hmu_t`).  A chunk begins with a header word: its type, whether the
chunk before it is in use, and its size.  A free chunk also has its size in its last word, and it
is either in one of the lists for small chunks (`kfc_normal_list`, one list for a size) or in a
tree of large chunks (`kfc_tree_root`); the links of lists and tree are in the chunks.

All of this lies in one memory of bytes, together with the objects.  A loop over links is given a
number of rounds; running out of rounds is an error here, and in the source an endless loop.
-/

namespace Watz.Ems

open Lib

/-! ## The header of a chunk -/

/-- `HMU_FC`, a free chunk. -/
def hmuFc : ℕ := 1

/-- `HMU_VO`, an object. -/
def hmuVo : ℕ := 2

/-- `hmu_get_ut`: the type of a chunk is in the two highest bits. -/
def hmuGetUt (w : ℕ) : ℕ := w / 2 ^ 30

/-- `hmu_set_ut`. -/
def hmuSetUt (w type : ℕ) : ℕ := w % 2 ^ 30 + type * 2 ^ 30

/-- `hmu_get_pinuse`: bit 29. -/
def hmuGetPinuse (w : ℕ) : ℕ := w / 2 ^ 29 % 2

/-- `hmu_mark_pinuse`. -/
def hmuMarkPinuse (w : ℕ) : ℕ := w / 2 ^ 30 * 2 ^ 30 + 2 ^ 29 + w % 2 ^ 29

/-- `hmu_unmark_pinuse`. -/
def hmuUnmarkPinuse (w : ℕ) : ℕ := w / 2 ^ 30 * 2 ^ 30 + w % 2 ^ 29

/-- `hmu_is_vo_freed`: bit 28. -/
def hmuIsVoFreed (w : ℕ) : ℕ := w / 2 ^ 28 % 2

/-- `hmu_unfree_vo`. -/
def hmuUnfreeVo (w : ℕ) : ℕ := w / 2 ^ 29 * 2 ^ 29 + w % 2 ^ 28

/-- `hmu_get_size`: an eighth of the size is in the 27 lowest bits. -/
def hmuGetSize (w : ℕ) : ℕ := w % 2 ^ 27 * 8

/-- `hmu_set_size`. -/
def hmuSetSize (w size : ℕ) : ℕ := w / 2 ^ 27 * 2 ^ 27 ||| size / 8

/-- `GC_SMALLEST_SIZE`. -/
def gcSmallestSize : ℕ := 16

/-- `HMU_FC_NORMAL_MAX_SIZE`: smaller free chunks are in the lists. -/
def hmuFcNormalMaxSize : ℕ := 248

/-! ## The heap -/

/-- `gc_heap_t`, with the memory it is in.  The root of the tree, `kfc_tree_root`, is a node of the
structure that is read and written as memory; the other fields are kept here. -/
structure GcHeap where
  /-- The address of the structure. -/
  heapId : ℕ
  baseAddr : ℕ
  currentSize : ℕ
  /-- The heads of the lists; the null pointer is zero. -/
  kfcNormalList : ℕ → ℕ
  isHeapCorrupted : Bool
  totalFreeSize : ℕ
  highmarkSize : ℕ
  mem : Mem

/-- The distance from one address to another, as a word of 32 bits. -/
@[irreducible] def nodeOffset (node next : ℕ) : ℕ := (((next : ℤ) - node) % 2 ^ 32).toNat

/-- A function of the allocator that can find the heap corrupted. -/
abbrev EmsM := EStateM Unit GcHeap

/-- `sizeof(gc_heap_t)`. -/
def gcHeapSize : ℕ := 336

/-- Where `kfc_tree_root` is in the structure. -/
def kfcTreeRoot : ℕ := 288

namespace GcHeap

variable (h : GcHeap)

/-- The address of the root of the tree. -/
def rootAddr : ℕ := h.heapId + kfcTreeRoot

/-- A word of 32 bits. -/
def u32 (a : ℕ) : ℕ := h.mem.load a 4

/-- A pointer. -/
def ptr (a : ℕ) : ℕ := h.mem.load a 8

def setU32 (a v : ℕ) : GcHeap := { h with mem := h.mem.store a 4 v }

def setPtr (a v : ℕ) : GcHeap := { h with mem := h.mem.store a 8 v }

/-- The header of a chunk is changed. -/
def setHeader (a : ℕ) (f : ℕ → ℕ) : GcHeap := h.setU32 a (f (h.u32 a))

/-- The size of a chunk by its header. -/
def chunkSize (a : ℕ) : ℕ := hmuGetSize (h.u32 a)

def endAddr : ℕ := h.baseAddr + h.currentSize

/-- `hmu_is_in_heap`. -/
def InHeap (a : ℕ) : Prop := h.baseAddr ≤ a ∧ a < h.endAddr

instance (a : ℕ) : Decidable (h.InHeap a) := inferInstanceAs (Decidable (_ ∧ _))

/-! The nodes of the tree (`hmu_tree_node_t`). -/

def nodeSize (p : ℕ) : ℕ := h.u32 (p + 4)

def left (p : ℕ) : ℕ := h.ptr (p + 8)

def right (p : ℕ) : ℕ := h.ptr (p + 16)

def parent (p : ℕ) : ℕ := h.ptr (p + 24)

/-- `p->left = p->right = p->parent = NULL`. -/
def clearLinks (p : ℕ) : GcHeap := ((h.setPtr (p + 24) 0).setPtr (p + 16) 0).setPtr (p + 8) 0

/-- `get_hmu_normal_node_next`: the offset is signed. -/
def nextNode (node : ℕ) : ℕ :=
  if h.u32 (node + 4) = 0 then 0
  else if h.u32 (node + 4) < 2 ^ 31 then node + h.u32 (node + 4)
  else node - (2 ^ 32 - h.u32 (node + 4))

/-- `set_hmu_normal_node_next`. -/
def setNextNode (node next : ℕ) : GcHeap :=
  h.setU32 (node + 4) (if next = 0 then 0 else nodeOffset node next)

def setNormalList (idx p : ℕ) : GcHeap :=
  { h with kfcNormalList := Function.update h.kfcNormalList idx p }

end GcHeap

/-- The heap is found corrupted. -/
def corrupted {α : Type} : EmsM α := do
  modify fun h => { h with isHeapCorrupted := true }
  throw ()

/-- The address has to be one of the heap. -/
def checkInHeap (a : ℕ) : EmsM Unit := do
  let h ← get
  if h.InHeap a then pure () else corrupted

/-! ## The tree -/

/-- The first part of `remove_tree_node`: the slot that holds the pointer to a node. -/
def treeSlot (p : ℕ) : EmsM ℕ := do
  let h ← get
  if h.parent p = 0 ∨ p = h.rootAddr ∨ ¬ h.InHeap p
      ∨ (h.parent p ≠ h.rootAddr ∧ ¬ h.InHeap (h.parent p)) then corrupted
  else if p = h.right (h.parent p) then pure (h.parent p + 16)
  else if p = h.left (h.parent p) then pure (h.parent p + 8)
  else corrupted

/-- A node with one child at most is replaced by the child. -/
def moveUp (slot p child : ℕ) : EmsM Unit := do
  modify fun h => h.setPtr slot child
  if child = 0 then modify fun h => h.clearLinks p
  else do
    checkInHeap child
    modify fun h => h.setPtr (child + 24) (h.parent p)
    modify fun h => h.clearLinks p

/-- The loop for the predecessor: the last node on the way to the right. -/
def predecessor : ℕ → ℕ → EmsM ℕ
  | 0, _ => throw ()
  | n + 1, q => do
    checkInHeap q
    let h ← get
    if h.right q = 0 then pure q else predecessor n (h.right q)

/-- `if (q->left) q->left->parent = q`, and the same for the right child. -/
def adopt (q field : ℕ) : EmsM Unit := do
  let h ← get
  if h.ptr field = 0 then pure ()
  else do
    checkInHeap (h.ptr field)
    modify fun h => h.setPtr (h.ptr field + 24) q

/-- A node `p` with two children is replaced by `q`, which has been removed before. -/
def replaceNode (slot p q : ℕ) : EmsM Unit := do
  modify fun h => h.setPtr slot q
  modify fun h => h.setPtr (q + 24) (h.parent p)
  modify fun h => h.setPtr (q + 8) (h.left p)
  modify fun h => h.setPtr (q + 16) (h.right p)
  adopt q (q + 8)
  adopt q (q + 16)
  modify fun h => h.clearLinks p

/-- `remove_tree_node`. -/
def removeTreeNode : ℕ → ℕ → EmsM Unit
  | 0, _ => throw ()
  | n + 1, p => do
    let slot ← treeSlot p
    let h ← get
    if h.left p = 0 then moveUp slot p (h.right p)
    else if h.right p = 0 then moveUp slot p (h.left p)
    else do
      let q ← predecessor h.currentSize (h.left p)
      removeTreeNode n q
      replaceNode slot p q

/-- The loop of `gci_add_fc` over the tree, from the node `tp` on. -/
def insertNode (node size : ℕ) : ℕ → ℕ → EmsM Unit
  | 0, _ => throw ()
  | n + 1, tp => do
    let h ← get
    if h.nodeSize tp < size then
      if h.right tp = 0 then
        modify fun h => (h.setPtr (tp + 16) node).setPtr (node + 24) tp
      else do
        checkInHeap (h.right tp)
        insertNode node size n (h.right tp)
    else
      if h.left tp = 0 then
        modify fun h => (h.setPtr (tp + 8) node).setPtr (node + 24) tp
      else do
        checkInHeap (h.left tp)
        insertNode node size n (h.left tp)

/-- The loop of `alloc_hmu` over the tree: the last node on the way that is large enough. -/
def findNode (size : ℕ) : ℕ → ℕ → ℕ → EmsM ℕ
  | 0, _, _ => throw ()
  | n + 1, tp, last =>
    if tp = 0 then pure last
    else do
      checkInHeap tp
      let h ← get
      if h.nodeSize tp < size then findNode size n (h.right tp) last
      else findNode size n (h.left tp) tp

/-! ## The lists -/

/-- The loop of `unlink_hmu` over the list of a size. -/
def unlinkNormal (idx hmu : ℕ) : ℕ → ℕ → ℕ → EmsM Unit
  | 0, _, _ => throw ()
  | n + 1, nodePrev, node =>
    -- a chunk that is not in the list is only reported
    if node = 0 then pure ()
    else do
      checkInHeap node
      let h ← get
      if node = hmu then
        modify fun h => if nodePrev = 0 then h.setNormalList idx (h.nextNode node)
          else h.setNextNode nodePrev (h.nextNode node)
      else unlinkNormal idx hmu n node (h.nextNode node)

/-- `unlink_hmu`. -/
def unlinkHmu (hmu : ℕ) : EmsM Unit := do
  let h ← get
  if hmuGetUt (h.u32 hmu) ≠ hmuFc then corrupted
  else if h.chunkSize hmu < hmuFcNormalMaxSize then
    unlinkNormal (h.chunkSize hmu / 8) hmu h.currentSize 0 (h.kfcNormalList (h.chunkSize hmu / 8))
  else removeTreeNode h.currentSize hmu

/-- The header and the last word of a free chunk. -/
def GcHeap.stampFree (h : GcHeap) (hmu size : ℕ) : GcHeap :=
  let h := h.setHeader hmu fun w => hmuSetSize (hmuSetUt w hmuFc) size
  -- `hmu_set_free_size` takes the size from the header
  h.setU32 (hmu + h.chunkSize hmu - 4) (h.chunkSize hmu)

/-- `gci_add_fc`. -/
def gciAddFc (hmu size : ℕ) : EmsM Unit := do
  modify fun h => h.stampFree hmu size
  if size < hmuFcNormalMaxSize then do
    checkInHeap hmu
    modify fun h => (h.setNextNode hmu (h.kfcNormalList (size / 8))).setNormalList (size / 8) hmu
  else do
    modify fun h => (h.setU32 (hmu + 4) size).clearLinks hmu
    let h ← get
    insertNode hmu size h.currentSize h.rootAddr

/-! ## Allocation -/

/-- The memory in use is accounted for, and the size of the chunk is set. -/
def GcHeap.account (h : GcHeap) (p size : ℕ) : GcHeap :=
  let totalFreeSize := (h.totalFreeSize + 2 ^ 32 - size) % 2 ^ 32
  let used := (h.currentSize + 2 ^ 32 - totalFreeSize) % 2 ^ 32
  { h.setHeader p (fun w => hmuSetSize w size) with
    totalFreeSize := totalFreeSize
    highmarkSize := if used > h.highmarkSize then used else h.highmarkSize }

/-- The chunk behind one in use is marked, if there is one. -/
def GcHeap.markNext (h : GcHeap) (next : ℕ) : GcHeap :=
  if h.InHeap next then h.setHeader next hmuMarkPinuse else h

/-- The end of `alloc_hmu` for a chunk that has been taken from its list or the tree: what is not
needed becomes a free chunk. -/
def carve (p chunkSize size : ℕ) (split : Bool) : EmsM ℕ :=
  if split = true then do
    gciAddFc (p + size) (chunkSize - size)
    modify fun h => h.setHeader (p + size) hmuMarkPinuse
    modify fun h => h.account p size
    pure p
  else do
    modify fun h => h.markNext (p + chunkSize)
    modify fun h => h.account p chunkSize
    pure p

/-- The loop of `alloc_hmu` over the lists: the first one from an index on that is not empty. -/
def GcHeap.findNormal (h : GcHeap) : ℕ → ℕ → Option ℕ
  | 0, _ => none
  | n + 1, idx => if h.kfcNormalList idx ≠ 0 then some idx else findNormal h n (idx + 1)

/-- `alloc_hmu`, if a list has been found. -/
def allocNormal (size idx : ℕ) : EmsM ℕ := do
  let h ← get
  let p := h.kfcNormalList idx
  checkInHeap p
  modify fun h => h.setNormalList idx (h.nextNode p)
  if (p + 4) % 8 ≠ 0 then corrupted
  else carve p (idx * 8) size (idx ≠ size / 8 ∧ idx * 8 ≥ size + gcSmallestSize)

/-- `alloc_hmu`, if a chunk of the tree is needed. -/
def allocTree (size : ℕ) : EmsM ℕ := do
  let h ← get
  let last ← findNode size h.currentSize (h.right h.rootAddr) 0
  if last = 0 then pure 0
  else do
    removeTreeNode h.currentSize last
    let h ← get
    carve last (h.nodeSize last) size (h.nodeSize last ≥ (size + gcSmallestSize) % 2 ^ 32)

/-- `alloc_hmu`: the address of the chunk, or zero. -/
def allocHmu (size : ℕ) : EmsM ℕ := do
  let size := if size < gcSmallestSize then gcSmallestSize else size
  let h ← get
  if size < hmuFcNormalMaxSize then
    match h.findNormal (32 - size / 8) (size / 8) with
    | some idx => allocNormal size idx
    | none => allocTree size
  else allocTree size

/-- `HMU_SIZE + size`, as a 32-bit number. -/
def totSizeUnaligned (size : ℕ) : ℕ := (4 + size) % 2 ^ 32

/-- The size of a chunk for an object: `GC_ALIGN_8`. -/
def totSize (size : ℕ) : ℕ := (totSizeUnaligned size + 7) % 2 ^ 32 / 8 * 8

/-- The chunk is marked as an object. -/
def GcHeap.markVo (h : GcHeap) (hmu : ℕ) : GcHeap :=
  h.setHeader hmu fun w => hmuUnfreeVo (hmuSetUt w hmuVo)

/-- `gc_alloc_vo`: the object, or zero. -/
def gcAllocVo (size : ℕ) (h : GcHeap) : ℕ × GcHeap :=
  if totSize size < size then (0, h)
  else if h.isHeapCorrupted = true then (0, h)
  else
    match allocHmu (totSize size) h with
    | .error _ h => (0, h)
    | .ok hmu h =>
      if hmu = 0 then (0, h)
      else
        let tot := h.chunkSize hmu
        let h := h.markVo hmu
        -- what `GC_ALIGN_8` has added is cleared
        (hmu + 4, if tot > totSizeUnaligned size
          then { h with mem := h.mem.clear (hmu + 4 + size) (tot - totSizeUnaligned size) } else h)

/-! ## Freeing -/

/-- `hmu - *((int*)hmu - 1)`: the chunk before, by the last word of it. -/
def GcHeap.prevChunk (h : GcHeap) (hmu : ℕ) : ℕ :=
  if h.u32 (hmu - 4) < 2 ^ 31 then hmu - h.u32 (hmu - 4) else hmu + (2 ^ 32 - h.u32 (hmu - 4))

/-- A chunk becomes one with the free chunk before it. -/
def mergePrev (hmu size : ℕ) : EmsM (ℕ × ℕ) := do
  let h ← get
  if hmuGetPinuse (h.u32 hmu) = 0 ∧ h.InHeap (h.prevChunk hmu)
      ∧ hmuGetUt (h.u32 (h.prevChunk hmu)) = hmuFc then do
    unlinkHmu (h.prevChunk hmu)
    pure (h.prevChunk hmu, size + h.chunkSize (h.prevChunk hmu))
  else pure (hmu, size)

/-- A chunk becomes one with the free chunk behind it: the size of both. -/
def mergeNext (hmu size : ℕ) : EmsM ℕ := do
  let h ← get
  if h.InHeap (hmu + size) ∧ hmuGetUt (h.u32 (hmu + size)) = hmuFc then do
    unlinkHmu (hmu + size)
    pure (size + h.chunkSize (hmu + size))
  else pure size

/-- `gc_free_vo` for a chunk that is an object. -/
def freeChunk (hmu : ℕ) : EmsM Unit := do
  let h ← get
  let size := h.chunkSize hmu
  modify fun h => { h with totalFreeSize := (h.totalFreeSize + size) % 2 ^ 32 }
  let merged ← mergePrev hmu size
  let size ← mergeNext merged.1 merged.2
  gciAddFc merged.1 size
  modify fun h => if h.InHeap (merged.1 + size) then h.setHeader (merged.1 + size) hmuUnmarkPinuse
    else h

/-- `gc_free_vo`: whether it returns `GC_SUCCESS`. -/
def gcFreeVo (obj : ℕ) (h : GcHeap) : Bool × GcHeap :=
  if obj = 0 then (true, h)
  else if h.isHeapCorrupted = true then (false, h)
  else if ¬ h.InHeap (obj - 4) then (true, h)
  else if hmuGetUt (h.u32 (obj - 4)) ≠ hmuVo then (false, h)
  else if hmuIsVoFreed (h.u32 (obj - 4)) = 1 then (false, h)
  else
    match freeChunk (obj - 4) h with
    | .error _ h => (false, h)
    | .ok _ h => (true, h)

/-! ## Growing an object -/

/-- The bytes of one part of the memory are copied to another. -/
def copyBytes (m : Mem) (dest src n : ℕ) : Mem :=
  fun i => if dest ≤ i ∧ i < dest + n then m (src + (i - dest)) else m i

/-- The part of `gc_realloc_vo` for an object with a free chunk behind it that is large enough. -/
def growInPlace (hmuOld totOld totNext tot : ℕ) : EmsM Unit := do
  unlinkHmu (hmuOld + totOld)
  modify fun h => h.setHeader hmuOld fun w => hmuSetSize w tot
  modify fun h => { h with mem := h.mem.clear (hmuOld + totOld) (tot - totOld) }
  if tot < totOld + totNext then gciAddFc (hmuOld + tot) (totOld + totNext - tot) else pure ()

/-- The part of `gc_realloc_vo` that takes a new chunk, clears the object in it, and copies the old
object, if there is one.  The lock of the heap is released after it. -/
def takeObject (objOld tot totOld : ℕ) (h : GcHeap) : ℕ × GcHeap :=
  match allocHmu tot h with
  | .error _ h => (0, h)
  | .ok hmu h =>
    if hmu = 0 then (0, h)
    else
      let tot := h.chunkSize hmu
      let h := h.markVo hmu
      let h := { h with mem := h.mem.clear (hmu + 4) (tot - 4) }
      (hmu + 4, if objOld = 0 then h
        else { h with mem := copyBytes h.mem (hmu + 4) objOld (totOld - 4) })

/-- The part of `gc_realloc_vo` that moves the object to a new chunk and frees the old one. -/
def moveObject (objOld tot totOld : ℕ) (h : GcHeap) : ℕ × GcHeap :=
  let moved := takeObject objOld tot totOld h
  if moved.1 ≠ 0 ∧ objOld ≠ 0 then (moved.1, (gcFreeVo objOld moved.2).2) else moved

/-- The condition of `gc_realloc_vo` to grow an object where it is. -/
def GcHeap.CanGrow (h : GcHeap) (hmuOld tot : ℕ) : Prop :=
  h.InHeap (hmuOld + h.chunkSize hmuOld)
    ∧ hmuGetUt (h.u32 (hmuOld + h.chunkSize hmuOld)) = hmuFc
    ∧ tot ≤ h.chunkSize hmuOld + h.chunkSize (hmuOld + h.chunkSize hmuOld)

instance (h : GcHeap) (hmuOld tot : ℕ) : Decidable (h.CanGrow hmuOld tot) :=
  inferInstanceAs (Decidable (_ ∧ _))

/-- `gc_realloc_vo`: the object, or zero. -/
def gcReallocVo (objOld size : ℕ) (h : GcHeap) : ℕ × GcHeap :=
  if totSize size < size then (0, h)
  else if h.isHeapCorrupted = true then (0, h)
  else if objOld = 0 then moveObject 0 (totSize size) 0 h
  else if totSize size ≤ h.chunkSize (objOld - 4) then (objOld, h)
  else if h.CanGrow (objOld - 4) (totSize size) then
    match growInPlace (objOld - 4) (h.chunkSize (objOld - 4))
        (h.chunkSize (objOld - 4 + h.chunkSize (objOld - 4))) (totSize size) h with
    | .error _ h => (0, h)
    | .ok _ h => (objOld, h)
  else moveObject objOld (totSize size) (h.chunkSize (objOld - 4)) h

/-! ## Initialisation -/

/-- `gc_init_internal`: the whole heap becomes one free chunk in the tree.  Its last word stays zero,
and `os_mutex_init` does not fail. -/
def gcInitInternal (heap baseAddr heapMaxSize : ℕ) (mem : Mem) : GcHeap :=
  let root := heap + kfcTreeRoot
  let h : GcHeap :=
    ⟨heap, baseAddr, heapMaxSize, fun _ => 0, false, heapMaxSize, 0,
      ((mem.clear heap gcHeapSize).clear baseAddr heapMaxSize).clear root 32⟩
  let h := h.setU32 (root + 4) 32
  let h := h.setHeader root fun w => hmuSetSize (hmuSetUt w hmuFc) 32
  let h := { h with mem := h.mem.clear baseAddr 32 }
  let h := h.setHeader baseAddr fun w => hmuMarkPinuse (hmuSetSize (hmuSetUt w hmuFc) heapMaxSize)
  let h := h.setPtr (root + 16) baseAddr
  let h := h.setPtr (baseAddr + 24) root
  h.setU32 (baseAddr + 4) heapMaxSize

/-- `APP_HEAP_SIZE_MIN`. -/
def appHeapSizeMin : ℕ := 256

/-- `GC_HEAD_PADDING`. -/
def gcHeadPadding : ℕ := 4

/-- The structure of `gc_init_with_pool` is at the start of the buffer. -/
def poolHeap (buf : ℕ) : ℕ := (buf + 7) % 2 ^ 64 / 8 * 8

/-- The first chunk of `gc_init_with_pool` is behind the structure. -/
def poolBase (buf : ℕ) : ℕ := (poolHeap buf + gcHeapSize + 7) % 2 ^ 64 / 8 * 8 + gcHeadPadding

/-- `gc_init_with_pool`.  What is behind the base address is computed as a 32-bit number. -/
def gcInitWithPool (buf bufSize : ℕ) (mem : Mem) : Option GcHeap :=
  if bufSize < appHeapSizeMin then none
  else
    let heapMaxSize := (((buf + bufSize : ℕ) : ℤ) - poolBase buf) % 2 ^ 32
    some (gcInitInternal (poolHeap buf) (poolBase buf) (heapMaxSize.toNat / 8 * 8) mem)

/-- `gc_init_with_struct_and_pool`. -/
def gcInitWithStructAndPool (structBuf structBufSize poolBuf poolBufSize : ℕ) (mem : Mem) :
    Option GcHeap :=
  if structBuf % 8 ≠ 0 then none
  -- `sizeof(gc_handle_t)`, the size of a pointer
  else if structBufSize < 8 then none
  else if poolBuf % 8 ≠ 0 then none
  else if poolBufSize < appHeapSizeMin then none
  else
    some (gcInitInternal structBuf (poolBuf + gcHeadPadding)
      ((poolBufSize - gcHeadPadding) / 8 * 8) mem)

end Watz.Ems
