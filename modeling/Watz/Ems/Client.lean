import Watz.Ems.Free

/-!
# Runs of the allocator

A client takes objects and gives them back, any number of times, and it writes to its objects in
between.  It gives an object back only while it is live.  What a step does to the representation of
the heap is shown for one step and carried along the run: the chunks in use are the live objects.
-/

namespace Watz.Ems

open Lib

/-! ## The client -/

/-- A part of the allocator that holds its lock, or a write to an object.  `copy` is the first half of
a `gc_realloc_vo` that moves an object; the second half is a `free`. -/
inductive Op
  | alloc (size : ℕ)
  | copy (obj size : ℕ)
  | free (obj : ℕ)
  | write (obj : ℕ) (content : Mem)

/-- The object that a step is about. -/
def Op.target : Op → Option ℕ
  | .free obj => some obj
  | .write obj _ => some obj
  | _ => none

/-- A heap, and the live objects with the sizes that have been requested for them. -/
structure Client where
  heap : GcHeap
  live : ℕ → Option ℕ

namespace Client

/-- A heap without objects. -/
def start (h : GcHeap) : Client := ⟨h, fun _ => none⟩

/-- The pointer that has been returned is an object, if it is not null. -/
def handOut (s : Client) (size : ℕ) (r : ℕ × GcHeap) : Client :=
  ⟨r.2, if r.1 = 0 then s.live else Function.update s.live r.1 (some size)⟩

/-- An object can be moved to a chunk for the size, since its own is too small. -/
def CanCopy (s : Client) (obj size : ℕ) : Prop :=
  (s.live obj).isSome = true ∧ ¬ totSize size < size ∧ s.heap.chunkSize (obj - 4) < totSize size

instance (s : Client) (obj size : ℕ) : Decidable (s.CanCopy obj size) :=
  inferInstanceAs (Decidable (_ ∧ _))

/-- An object gets other bytes. -/
def writeObject (s : Client) (obj n : ℕ) (content : Mem) : Client :=
  { s with heap := { s.heap with mem := fun i =>
      if obj ≤ i ∧ i < obj + n then content i else s.heap.mem i } }

/-- One step of a run.  What concerns an object that is not live is not done. -/
def step (s : Client) : Op → Client
  | .alloc size => s.handOut size (gcAllocVo size s.heap)
  | .copy obj size =>
    if s.CanCopy obj size then
      s.handOut size (takeObject obj (totSize size) (s.heap.chunkSize (obj - 4)) s.heap)
    else s
  | .free obj =>
    if (s.live obj).isSome = true then
      ⟨(gcFreeVo obj s.heap).2, Function.update s.live obj none⟩
    else s
  | .write obj content =>
    match s.live obj with
    | some n => s.writeObject obj n content
    | none => s

def run (s : Client) (ops : List Op) : Client := ops.foldl step s

end Client

/-! ## Chunks and objects -/

/-- The chunks in use are the live objects, with enough bytes for them. -/
structure Tracks (objs : List Chunk) (live : ℕ → Option ℕ) : Prop where
  object : ∀ p n, live p = some n → ∃ c ∈ objs, p = c.addr + 4 ∧ n + 4 ≤ c.size
  owned : ∀ c ∈ objs, ∃ n, live (c.addr + 4) = some n

section

variable {objs objs' : List Chunk} {live : ℕ → Option ℕ} {n : ℕ} {c : Chunk}

lemma Tracks.take (h : Tracks objs live) (hobjs : objs'.Perm (c :: objs))
    (hne : ∀ d ∈ objs, d.addr ≠ c.addr) (hn : n + 4 ≤ c.size) :
    Tracks objs' (Function.update live (c.addr + 4) (some n)) := by
  constructor
  · intro p m hp
    by_cases hpa : p = c.addr + 4
    · subst hpa
      rw [Function.update_self] at hp
      obtain rfl := Option.some.inj hp
      exact ⟨c, hobjs.mem_iff.mpr List.mem_cons_self, rfl, hn⟩
    · rw [Function.update_of_ne hpa] at hp
      obtain ⟨d, hd, hrest⟩ := h.object p m hp
      exact ⟨d, hobjs.mem_iff.mpr (List.mem_cons_of_mem c hd), hrest⟩
  · intro d hd
    rcases List.mem_cons.mp (hobjs.mem_iff.mp hd) with rfl | hd
    · exact ⟨n, Function.update_self ..⟩
    · have := hne d hd
      rw [Function.update_of_ne (by omega)]
      exact h.owned d hd

lemma Tracks.release (h : Tracks objs live) (hobjs : objs.Perm (c :: objs'))
    (hne : ∀ d ∈ objs', d.addr ≠ c.addr) :
    Tracks objs' (Function.update live (c.addr + 4) none) := by
  constructor
  · intro p m hp
    by_cases hpa : p = c.addr + 4
    · rw [hpa, Function.update_self] at hp
      cases hp
    · rw [Function.update_of_ne hpa] at hp
      obtain ⟨d, hd, rfl, hsize⟩ := h.object p m hp
      rcases List.mem_cons.mp (hobjs.mem_iff.mp hd) with rfl | hd
      · exact absurd rfl hpa
      · exact ⟨d, hd, rfl, hsize⟩
  · intro d hd
    have := hne d hd
    rw [Function.update_of_ne (by omega)]
    exact h.owned d (hobjs.mem_iff.mpr (List.mem_cons_of_mem c hd))

end

/-! ## What holds along a run -/

/-- A client with its chunks: they represent the heap, those in use are the live objects, and the
counters are right. -/
structure ClientRep (s : Client) (cs : List Chunk) (F : FreeLists) : Prop where
  rep : HeapRep s.heap cs F
  tracks : Tracks (objects cs) s.live
  total : s.heap.totalFreeSize + bytes (objects cs) = s.heap.currentSize
  high : bytes (objects cs) ≤ s.heap.highmarkSize

/-- What a step keeps: the place of the heap, and the objects it is not about.  The number of bytes in
use is compared with the largest so far. -/
structure Kept (s : Client) (op : Op) (s' : Client) (cs' : List Chunk) : Prop where
  base : s'.heap.baseAddr = s.heap.baseAddr
  size : s'.heap.currentSize = s.heap.currentSize
  live : ∀ p n, s.live p = some n → op.target ≠ some p → s'.live p = some n
    ∧ ∀ i < n, s'.heap.mem (p + i) = s.heap.mem (p + i)
  high : s'.heap.highmarkSize = max s.heap.highmarkSize (bytes (objects cs'))

section

variable {s : Client} {h' : GcHeap} {cs cs' : List Chunk} {F F' : FreeLists} {p n a k t u size : ℕ}
  {op : Op}

lemma Changed.counters {R : Set ℕ} {h : GcHeap} (hc : Changed R (h.counted t u) h') :
    h'.totalFreeSize = t ∧ h'.highmarkSize = u ∧ h'.baseAddr = h.baseAddr
      ∧ h'.currentSize = h.currentSize ∧ Mem.SameOutside R h.mem h'.mem :=
  ⟨hc.total, hc.high, hc.base, hc.size, hc.mem⟩

lemma bytes_perm {objs objs' : List Chunk} {c : Chunk} (h : objs'.Perm (c :: objs)) :
    bytes objs' = c.size + bytes objs := (h.map Chunk.size).sum_eq

namespace ClientRep

/-- The bytes of an object are kept by what does not concern it. -/
lemma bytes_kept {objs : List Chunk} {m' : Mem} (hsame : Mem.SameOutside (elsewhere objs) s.heap.mem m')
    (hobj : ∃ c ∈ objs, p = c.addr + 4 ∧ n + 4 ≤ c.size) :
    ∀ i < n, m' (p + i) = s.heap.mem (p + i) := by
  intro i hi
  obtain ⟨c, hc, rfl, hsize⟩ := hobj
  refine hsame _ fun helse => ?_
  have := helse c hc
  omega

lemma take (hrep : ClientRep s cs F) (htaken : Taken s.heap cs a k h' cs' F') (hn : size + 4 ≤ k) :
    s.live (a + 4) = none ∧ ClientRep (s.handOut size (a + 4, h')) cs' F'
      ∧ Kept s op (s.handOut size (a + 4, h')) cs' := by
  obtain ⟨htotal, hhigh, hbase, hsize, hmem⟩ := htaken.changed.counters
  have hne := htaken.rep.addr_ne htaken.objs
  have hlive : s.live (a + 4) = none := by
    rw [Option.eq_none_iff_forall_ne_some]
    intro m hm
    obtain ⟨c, hc, hca, -⟩ := hrep.tracks.object _ _ hm
    exact hne c hc (by dsimp only; omega)
  have hhand : s.handOut size (a + 4, h') = ⟨h', Function.update s.live (a + 4) (some size)⟩ := by
    rw [Client.handOut, if_neg (by dsimp only; omega)]
  -- the two counters do not wrap, since all chunks are in the heap
  have hbytes : bytes (objects cs') = k + bytes (objects cs) := bytes_perm htaken.objs
  have hlt := hrep.rep.ok.size_lt
  have hsum := hrep.total
  have hsum' := htaken.rep.sum
  rw [hsize] at hsum'
  have htotal' : h'.totalFreeSize + bytes (objects cs') = s.heap.currentSize := by
    rw [htotal, GcHeap.totalTaken, hbytes]
    omega
  have hhigh' : h'.highmarkSize = max s.heap.highmarkSize (bytes (objects cs')) := by
    have hused : (s.heap.currentSize + 2 ^ 32 - s.heap.totalTaken k) % 2 ^ 32
        = bytes (objects cs') := by
      rw [← htotal]
      omega
    rw [hhigh, GcHeap.highTaken, hused]
    split <;> omega
  rw [hhand]
  refine ⟨hlive, ⟨htaken.rep, hrep.tracks.take htaken.objs hne hn, ?_, ?_⟩, hbase, hsize,
    fun p n hp _ => ?_, hhigh'⟩
  · rw [hsize]
    exact htotal'
  · rw [hhigh']
    exact le_max_right _ _
  · have hpa : p ≠ a + 4 := fun heq => by
      rw [heq, hlive] at hp
      cases hp
    exact ⟨(Function.update_of_ne hpa ..).trans hp, bytes_kept hmem (hrep.tracks.object p n hp)⟩

lemma release (hrep : ClientRep s cs F) (hp : s.live p = some n) :
    ∃ h' cs' F', gcFreeVo p s.heap = (true, h')
      ∧ ClientRep ⟨h', Function.update s.live p none⟩ cs' F'
      ∧ Kept s (.free p) ⟨h', Function.update s.live p none⟩ cs' := by
  obtain ⟨c, hc, rfl, -⟩ := hrep.tracks.object p n hp
  obtain ⟨h', cs', F', hrun, hfreed⟩ := gcFreeVo_spec hrep.rep hc
  obtain ⟨htotal, hhigh, hbase, hsize, hmem⟩ := hfreed.changed.counters
  have hne := hrep.rep.addr_ne hfreed.objs
  have hbytes := bytes_perm hfreed.objs
  have hlt := hrep.rep.ok.size_lt
  have hsum := hrep.total
  have hle := hrep.high
  have hhigh' : h'.highmarkSize = max s.heap.highmarkSize (bytes (objects cs')) := by
    rw [hhigh]
    omega
  refine ⟨h', cs', F', hrun, ⟨hfreed.rep, hrep.tracks.release hfreed.objs hne, ?_, ?_⟩, hbase, hsize,
    fun q m hq hop => ?_, hhigh'⟩
  · dsimp only
    rw [htotal, hsize, GcHeap.totalFreed]
    omega
  · rw [hhigh']
    exact le_max_right _ _
  · have hqa : q ≠ c.addr + 4 := fun heq => hop (heq ▸ rfl)
    have hq' := (Function.update_of_ne hqa none s.live).trans hq
    refine ⟨hq', bytes_kept hmem ((hrep.tracks.release hfreed.objs hne).object q m hq')⟩

lemma write (hrep : ClientRep s cs F) (hp : s.live p = some n) (content : Mem) :
    ClientRep (s.writeObject p n content) cs F
      ∧ Kept s (.write p content) (s.writeObject p n content) cs := by
  obtain ⟨c, hc, rfl, hsize⟩ := hrep.tracks.object p n hp
  obtain ⟨hmem, hused⟩ := mem_objects.mp hc
  have hwrite : Mem.SameOutside (Mem.range (c.addr + 4) n) s.heap.mem
      (s.writeObject (c.addr + 4) n content).heap.mem := fun i hi => if_neg hi
  refine ⟨⟨hrep.rep.frame (.of_mem hwrite) rfl ?_, hrep.tracks, hrep.total, hrep.high⟩, rfl, rfl,
    fun q m hq hop => ⟨hq, fun i hi => hwrite _ ?_⟩, (max_eq_left hrep.high).symm⟩
  · rintro j ⟨h1, h2⟩
    exact ⟨c, hmem, hused, h1, by omega⟩
  · rintro ⟨h1, h2⟩
    obtain ⟨d, hd, rfl, hsize'⟩ := hrep.tracks.object q m hq
    have hne : c ≠ d := fun heq => hop (heq ▸ rfl)
    have := hrep.rep.tiles.apart_of_ne hmem (mem_objects.mp hd).1 hne
    omega

end ClientRep

end

end Watz.Ems
