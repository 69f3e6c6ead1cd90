import Watz.Ems.BestFit

/-!
# Chunks one after the other

The chunks tile the heap.  Each has a header with its size, its type and the state of the chunk before
it, and two free chunks are never neighbours.  Together with the lists and the tree of the free
chunks this is the representation invariant of a heap.
-/

namespace Watz.Ems

open Lib

/-! ## Tilings -/

/-- A chunk of the heap; it is in use or free. -/
structure Chunk where
  addr : ℕ
  size : ℕ
  used : Bool
deriving DecidableEq

/-- Address and size of a chunk. -/
def Chunk.extent (c : Chunk) : ℕ × ℕ := (c.addr, c.size)

/-- The chunks follow each other from one address to another. -/
def Tiles : ℕ → List Chunk → ℕ → Prop
  | b, [], e => b = e
  | b, c :: cs, e =>
    c.addr = b ∧ gcSmallestSize ≤ c.size ∧ c.size % 8 = 0 ∧ Tiles (b + c.size) cs e

/-- The chunks in use. -/
def objects (cs : List Chunk) : List Chunk := cs.filter fun c => c.used

/-- The free chunks. -/
def freeOf (cs : List Chunk) : Multiset (ℕ × ℕ) :=
  ((cs.filter fun c => !c.used).map Chunk.extent : List (ℕ × ℕ))

/-- The number of bytes in some chunks. -/
def bytes (cs : List Chunk) : ℕ := (cs.map Chunk.size).sum

/-- What is not in some objects.  The header is not a part of an object. -/
def elsewhere (objs : List Chunk) : Set ℕ :=
  {j | ∀ d ∈ objs, j < d.addr + 4 ∨ d.addr + d.size ≤ j}

section

variable {b e a sz : ℕ} {cs ds pre post : List Chunk} {c d : Chunk}

@[simp] lemma freeOf_nil : freeOf [] = 0 := rfl

@[simp] lemma objects_append : objects (cs ++ ds) = objects cs ++ objects ds := List.filter_append ..

lemma objects_cons_used (hc : c.used = true) : objects (c :: cs) = c :: objects cs :=
  List.filter_cons_of_pos hc

lemma objects_cons_free (hc : c.used = false) : objects (c :: cs) = objects cs :=
  List.filter_cons_of_neg (by simp [hc])

lemma freeOf_cons_used (hc : c.used = true) : freeOf (c :: cs) = freeOf cs := by
  rw [freeOf, List.filter_cons_of_neg (by simp [hc]), freeOf]

lemma freeOf_cons_free (hc : c.used = false) : freeOf (c :: cs) = c.extent ::ₘ freeOf cs := by
  rw [freeOf, List.filter_cons_of_pos (by simp [hc]), List.map_cons, ← Multiset.cons_coe, freeOf]

lemma freeOf_append : freeOf (cs ++ ds) = freeOf cs + freeOf ds := by
  rw [freeOf, List.filter_append, List.map_append, ← Multiset.coe_add, freeOf, freeOf]

lemma mem_objects : c ∈ objects cs ↔ c ∈ cs ∧ c.used = true := List.mem_filter

lemma mem_freeOf {x : ℕ × ℕ} : x ∈ freeOf cs ↔ ∃ c ∈ cs, c.used = false ∧ c.extent = x := by
  simp [freeOf, and_assoc]

/-- A chunk is in use or free. -/
lemma bytes_eq : bytes cs = bytes (objects cs) + ((freeOf cs).map Prod.snd).sum := by
  induction cs with
  | nil => rfl
  | cons c cs ih =>
    have hcons : ∀ ds, bytes (c :: ds) = c.size + bytes ds := fun _ => List.sum_cons
    cases hc : c.used with
    | true => rw [objects_cons_used hc, freeOf_cons_used hc, hcons, hcons, ih, add_assoc]
    | false =>
      rw [objects_cons_free hc, freeOf_cons_free hc, Multiset.map_cons, Multiset.sum_cons, hcons, ih,
        Chunk.extent]
      omega

lemma tiles_append : Tiles b (cs ++ ds) e ↔ ∃ m, Tiles b cs m ∧ Tiles m ds e := by
  induction cs generalizing b with
  | nil => simp [Tiles]
  | cons c cs ih =>
    simp only [List.cons_append, Tiles, ih]
    constructor
    · rintro ⟨h1, h2, h3, m, h4, h5⟩
      exact ⟨m, ⟨h1, h2, h3, h4⟩, h5⟩
    · rintro ⟨m, ⟨h1, h2, h3, h4⟩, h5⟩
      exact ⟨h1, h2, h3, m, h4, h5⟩

namespace Tiles

section

variable (h : Tiles b cs e)

include h

lemma sum : b + bytes cs = e := by
  induction cs generalizing b with
  | nil => exact h
  | cons c cs ih => rw [← ih h.2.2.2, bytes, List.map_cons, List.sum_cons, ← add_assoc, bytes]

lemma le : b ≤ e := h.sum ▸ Nat.le_add_right _ _

lemma bounds (hc : c ∈ cs) :
    b ≤ c.addr ∧ c.addr + c.size ≤ e ∧ 16 ≤ c.size ∧ c.size % 8 = 0 ∧ c.addr % 8 = b % 8 := by
  induction cs generalizing b with
  | nil => exact absurd hc List.not_mem_nil
  | cons d cs ih =>
    obtain ⟨h1, h2, h3, h4⟩ := h
    rcases List.mem_cons.mp hc with rfl | hc
    · exact ⟨h1.ge, by rw [h1]; exact h4.le, h2, h3, by rw [h1]⟩
    · obtain ⟨h5, h6, h7, h8, h9⟩ := ih h4 hc
      exact ⟨by omega, h6, h7, h8, by omega⟩

lemma pairwise : cs.Pairwise fun c d => c.addr + c.size ≤ d.addr := by
  induction cs generalizing b with
  | nil => exact .nil
  | cons c cs ih =>
    obtain ⟨h1, -, -, h4⟩ := h
    refine .cons (fun d hd => ?_) (ih h4)
    rw [h1]
    exact (h4.bounds hd).1

lemma apart_of_ne (hc : c ∈ cs) (hd : d ∈ cs) (hne : c ≠ d) :
    c.addr + c.size ≤ d.addr ∨ d.addr + d.size ≤ c.addr := by
  have : Std.Symm fun c d : Chunk => c.addr + c.size ≤ d.addr ∨ d.addr + d.size ≤ c.addr :=
    ⟨fun _ _ => Or.symm⟩
  have hpair : cs.Pairwise fun c d => c.addr + c.size ≤ d.addr ∨ d.addr + d.size ≤ c.addr :=
    h.pairwise.imp Or.inl
  exact hpair.forall hc hd hne

end

/-- What lists and tree may use of the memory is neither in a header nor in a chunk in use. -/
lemma scratch_apart {h : GcHeap} {j : ℕ} (hok : HeapOk h) (ht : Tiles h.baseAddr cs h.endAddr)
    (hd : d ∈ cs) (hj : j ∈ scratch h (freeOf cs)) :
    (j < d.addr ∨ d.addr + 4 ≤ j) ∧ (d.used = true → j < d.addr ∨ d.addr + d.size ≤ j) := by
  obtain ⟨h1, h2, h3, -⟩ := ht.bounds hd
  rcases hj with ⟨h4, h5⟩ | ⟨x, hx, h4, h5⟩
  · have := hok.root_apart
    omega
  · obtain ⟨c, hc, hfree, rfl⟩ := mem_freeOf.mp hx
    rw [Chunk.extent] at h4 h5
    rcases eq_or_ne c d with rfl | hne
    · exact ⟨.inr h4, fun hused => by rw [hfree] at hused; cases hused⟩
    · have h6 := ht.apart_of_ne hc hd hne
      omega

lemma spaced {h : GcHeap} (hok : HeapOk h) (ht : Tiles h.baseAddr cs h.endAddr) :
    Spaced h (freeOf cs) := by
  have hmem : ∀ x ∈ freeOf cs, ∃ c ∈ cs, c.extent = x := fun x hx => by
    obtain ⟨c, hc, -, rfl⟩ := mem_freeOf.mp hx
    exact ⟨c, hc, rfl⟩
  refine ⟨?_, ?_, ?_, ?_, ?_, ?_, ?_⟩
  · have hpair : cs.Pairwise fun c d => c.extent ≠ d.extent := by
      refine ht.pairwise.imp_of_mem fun {c d} hc _ hle heq => ?_
      have h1 := (ht.bounds hc).2.2.1
      have h2 : c.addr = d.addr := congrArg Prod.fst heq
      omega
    exact List.pairwise_map.mpr (hpair.filter _)
  all_goals intro x hx; obtain ⟨c, hc, rfl⟩ := hmem x hx
  · exact (ht.bounds hc).1
  · exact (ht.bounds hc).2.1
  · exact (ht.bounds hc).2.2.2.2.trans hok.base_mod
  · exact (ht.bounds hc).2.2.2.1
  · exact (ht.bounds hc).2.2.1
  · intro y hy hne
    obtain ⟨d, hd, rfl⟩ := hmem y hy
    exact ht.apart_of_ne hc hd fun heq => hne (heq ▸ rfl)

end Tiles

end

/-! ## Headers -/

/-- A word is the header of a chunk; the flag tells whether the chunk before it is in use. -/
structure HeaderOk (w : ℕ) (pinuse : Bool) (c : Chunk) : Prop where
  size : hmuGetSize w = c.size
  ut : hmuGetUt w = if c.used = true then hmuVo else hmuFc
  pinuse : hmuGetPinuse w = pinuse.toNat
  live : c.used = true → hmuIsVoFreed w = 0

/-- The chunks have their headers, and two free chunks are not neighbours. -/
def Headers (w : ℕ → ℕ) : Bool → List Chunk → Prop
  | _, [] => True
  | p, c :: cs => HeaderOk (w c.addr) p c ∧ (p = true ∨ c.used = true) ∧ Headers w c.used cs

/-- Whether the last chunk is in use. -/
def lastUsed (p : Bool) : List Chunk → Bool
  | [] => p
  | c :: cs => lastUsed c.used cs

section

variable {w w' : ℕ → ℕ} {p q : Bool} {cs ds : List Chunk} {c : Chunk} {x : ℕ}

lemma lastUsed_concat : lastUsed p (cs ++ [c]) = c.used := by
  induction cs generalizing p with
  | nil => rfl
  | cons d cs ih => exact ih

lemma headers_append :
    Headers w p (cs ++ ds) ↔ Headers w p cs ∧ Headers w (lastUsed p cs) ds := by
  induction cs generalizing p with
  | nil => simp [Headers, lastUsed]
  | cons c cs ih => simp only [List.cons_append, Headers, lastUsed, ih, and_assoc]

lemma HeaderOk.mark (h : HeaderOk x p c) : HeaderOk (hmuMarkPinuse x) true c :=
  ⟨by simpa using h.size, by simpa using h.ut, by simp, fun hc => by simpa using h.live hc⟩

lemma HeaderOk.unmark (h : HeaderOk x p c) : HeaderOk (hmuUnmarkPinuse x) false c :=
  ⟨by simpa using h.size, by simpa using h.ut, by simp, fun hc => by simpa using h.live hc⟩

namespace Headers

lemma congr (h : Headers w p cs) (hw : ∀ c ∈ cs, w' c.addr = w c.addr) : Headers w' p cs := by
  induction cs generalizing p with
  | nil => trivial
  | cons c cs ih =>
    obtain ⟨h1, h2, h3⟩ := h
    refine ⟨?_, h2, ih h3 fun d hd => hw d (List.mem_cons_of_mem c hd)⟩
    rw [hw c List.mem_cons_self]
    exact h1

lemma set_head (h : Headers w p cs)
    (hhead : ∀ c ∈ cs.head?, HeaderOk (w' c.addr) q c ∧ (q = true ∨ c.used = true))
    (htail : ∀ c ∈ cs.tail, w' c.addr = w c.addr) : Headers w' q cs := by
  cases cs with
  | nil => trivial
  | cons c cs => exact ⟨(hhead c rfl).1, (hhead c rfl).2, h.2.2.congr htail⟩

lemma header (h : Headers w p (cs ++ c :: ds)) : HeaderOk (w c.addr) (lastUsed p cs) c :=
  (headers_append.mp h).2.1

end Headers

end

/-! ## The representation invariant -/

/-- A heap is represented by its chunks and by the lists and the tree of the free ones.  Nothing is
known of the last word of the heap. -/
structure HeapRep (h : GcHeap) (cs : List Chunk) (F : FreeLists) : Prop where
  ok : HeapOk h
  sound : h.isHeapCorrupted = false
  tiles : Tiles h.baseAddr cs h.endAddr
  headers : Headers h.u32 true cs
  free : FreeRep False h F (freeOf cs)

section

variable {h h' : GcHeap} {cs pre post : List Chunk} {F : FreeLists} {c d : Chunk} {R : Set ℕ}

namespace HeapRep

/-- The bytes of objects may be changed. -/
lemma frame (hrep : HeapRep h cs F) (hc : Changed R h h')
    (hlists : h'.kfcNormalList = h.kfcNormalList)
    (hR : ∀ j ∈ R, ∃ c ∈ cs, c.used = true ∧ c.addr + 4 ≤ j ∧ j < c.addr + c.size) :
    HeapRep h' cs F := by
  refine ⟨hc.heapOk hrep.ok, hc.sound.trans hrep.sound, ?_, ?_, ?_⟩
  · rw [hc.base, hc.endAddr]
    exact hrep.tiles
  · refine hrep.headers.congr fun d hd => hc.mem.load fun j hj => ?_
    obtain ⟨c, hc, -, h1, h2⟩ := hR j hj
    rcases eq_or_ne c d with rfl | hne
    · exact .inr h1
    · have h3 := hrep.tiles.apart_of_ne hc hd hne
      have h4 := (hrep.tiles.bounds hd).2.2.1
      omega
  · refine hrep.free.frame hc hlists (fun x hx j hj => ?_) fun j hj => ?_
    · obtain ⟨d, hd, hfree, rfl⟩ := mem_freeOf.mp hx
      obtain ⟨c, hc, hused, h1, h2⟩ := hR j hj
      have hne : c ≠ d := fun heq => by rw [heq, hfree] at hused; cases hused
      have h3 := hrep.tiles.apart_of_ne hc hd hne
      rw [Chunk.extent]
      omega
    · obtain ⟨c, hc, -, h1, h2⟩ := hR j hj
      obtain ⟨h3, h4, -⟩ := hrep.tiles.bounds hc
      have := hrep.ok.root_apart
      omega

lemma counted (hrep : HeapRep h cs F) (total high : ℕ) : HeapRep (h.counted total high) cs F :=
  ⟨⟨hrep.ok.base_mod, hrep.ok.size_mod, hrep.ok.size_pos, hrep.ok.size_lt, hrep.ok.end_le,
    hrep.ok.root_le, hrep.ok.root_apart⟩, hrep.sound, hrep.tiles, hrep.headers,
    hrep.free.counted total high⟩

lemma addr_ne_zero (hrep : HeapRep h cs F) (hc : c ∈ cs) : c.addr ≠ 0 := by
  have h1 := (hrep.tiles.bounds hc).2.2.2.2
  have h2 := hrep.ok.base_mod
  omega

lemma sum (hrep : HeapRep h cs F) :
    bytes (objects cs) + ((freeOf cs).map Prod.snd).sum = h.currentSize := by
  have h1 := hrep.tiles.sum
  rw [GcHeap.endAddr, bytes_eq] at h1
  omega

end HeapRep

end

/-! ## The walk over the headers -/

/-- A walk from header to header, as in `gc_migrate`. -/
def GcHeap.walk (h : GcHeap) : ℕ → ℕ → List Chunk
  | 0, _ => []
  | n + 1, a =>
    if h.InHeap a then
      ⟨a, h.chunkSize a, hmuGetUt (h.u32 a) ≠ hmuFc⟩ :: h.walk n (a + h.chunkSize a)
    else []

/-- What the walk reads in a header. -/
def HeaderOf (w : ℕ) (c : Chunk) : Prop :=
  hmuGetSize w = c.size ∧ hmuGetUt w = if c.used = true then hmuVo else hmuFc

/-- The chunks by their headers. -/
def GcHeap.chunks (h : GcHeap) : List Chunk := h.walk h.currentSize h.baseAddr

section

variable {h : GcHeap} {cs : List Chunk} {F : FreeLists}

lemma walk_cons {c : Chunk} {n : ℕ} (hin : h.InHeap c.addr) (hpos : 0 < c.size)
    (hc : HeaderOf (h.u32 c.addr) c) (hn : h.endAddr ≤ c.addr + n) :
    ∃ k, h.endAddr ≤ c.addr + c.size + k ∧ h.walk n c.addr = c :: h.walk k (c.addr + c.size) := by
  have hlt := hin.2
  obtain ⟨n, rfl⟩ : ∃ k, n = k + 1 := ⟨n - 1, by omega⟩
  have hsize : h.chunkSize c.addr = c.size := hc.1
  have hut : decide (hmuGetUt (h.u32 c.addr) ≠ hmuFc) = c.used := by
    rw [hc.2]
    cases c.used <;> rfl
  exact ⟨n, by omega, by rw [GcHeap.walk, if_pos hin, hsize, hut]⟩

lemma walk_tiles {n b m : ℕ} (htiles : Tiles b cs m) (hw : ∀ c ∈ cs, HeaderOf (h.u32 c.addr) c)
    (hlo : h.baseAddr ≤ b) (hm : m ≤ h.endAddr) (hn : h.endAddr ≤ b + n) :
    ∃ k, h.endAddr ≤ m + k ∧ h.walk n b = cs ++ h.walk k m := by
  induction cs generalizing n b with
  | nil =>
    obtain rfl : b = m := htiles
    exact ⟨n, hn, rfl⟩
  | cons c cs ih =>
    obtain ⟨rfl, h16, -, htiles⟩ := htiles
    have hle := htiles.le
    rw [gcSmallestSize] at h16
    obtain ⟨k, hk, hrun⟩ := walk_cons ⟨hlo, by omega⟩ (by omega) (hw c List.mem_cons_self) hn
    obtain ⟨k', hk', hrun'⟩ := ih htiles (fun d hd => hw d (List.mem_cons_of_mem c hd)) (by omega) hk
    exact ⟨k', hk', by rw [hrun, hrun', List.cons_append]⟩

lemma walk_endAddr (n : ℕ) : h.walk n h.endAddr = [] := by
  cases n with
  | zero => rfl
  | succ n => exact if_neg fun hin => lt_irrefl _ hin.2

lemma Headers.headerOf {w : ℕ → ℕ} {p : Bool} (hw : Headers w p cs) :
    ∀ c ∈ cs, HeaderOf (w c.addr) c := fun c hc => by
  obtain ⟨pre, post, rfl⟩ := List.append_of_mem hc
  exact ⟨hw.header.size, hw.header.ut⟩

/-- The walk finds the chunks. -/
lemma HeapRep.chunks_eq (hrep : HeapRep h cs F) : h.chunks = cs := by
  obtain ⟨k, -, hrun⟩ := walk_tiles hrep.tiles hrep.headers.headerOf le_rfl le_rfl le_rfl
  exact hrun.trans (by rw [walk_endAddr, List.append_nil])

end

end Watz.Ems
