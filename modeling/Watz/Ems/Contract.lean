import Watz.Ems.Client

/-!
# What the allocator guarantees

After the initialisation of a pool, and after any number of steps of a client, the heap is
represented by its chunks, and the chunks in use are the live objects.  From this follow the contract
of `malloc` and `free`, the counters, when a request is refused, what freeing an object twice does,
and what a `gc_realloc_vo` does that moves its object.
-/

namespace Watz.Ems

open Lib

/-! ## One step -/

section

variable {s : Client} {h : GcHeap} {cs : List Chunk} {F : FreeLists} {n : ℕ} {c : Chunk} {op : Op}

lemma takeObject_spec (hrep : HeapRep h cs F) (hn : n % 8 = 0) (hc : c ∈ objects cs)
    (hlt : c.size < n) :
    ¬ HasRoom cs n ∧ takeObject (c.addr + 4) n c.size h = (0, h)
      ∨ HasRoom cs n ∧ ∃ a k h' cs' F', takeObject (c.addr + 4) n c.size h = (a + 4, h') ∧ n ≤ k
        ∧ Taken h cs a k h' cs' F'
        ∧ ∀ i < c.size - 4, h'.mem (a + 4 + i) = h.mem (c.addr + 4 + i) := by
  rw [takeObject]
  rcases hrep.alloc hn with
    ⟨hroom, hrun⟩ | ⟨hroom, a, k, h1, cs', F', ha, hk, hrun, hchunk, htaken⟩
  · exact .inl ⟨hroom, by rw [hrun]; exact if_pos rfl⟩
  refine .inr ⟨hroom, a, k, ?_⟩
  rw [hrun]
  dsimp only
  rw [if_neg ha, if_neg (by omega), hchunk]
  generalize h1.markVo a = h2 at *
  have hclear : Mem.SameOutside (Mem.range (a + 4) (k - 4)) h2.mem
      (h2.mem.clear (a + 4) (k - 4)) := Mem.sameOutside_clear
  have hcopy : Mem.SameOutside (Mem.range (a + 4) (k - 4)) (h2.mem.clear (a + 4) (k - 4))
      (copyBytes (h2.mem.clear (a + 4) (k - 4)) (a + 4) (c.addr + 4) (c.size - 4)) :=
    fun j hj => if_neg fun hmem => hj ⟨hmem.1, by omega⟩
  refine ⟨_, cs', F', rfl, hk, htaken.set (hclear.trans hcopy), fun i hi => ?_⟩
  -- the old object is not in what has been changed before the copy
  have hapart := htaken.apart hc
  have hsame := htaken.changed.counters.2.2.2.2 (c.addr + 4 + i) fun helse => by
    have := helse c hc
    omega
  have hout : c.addr + 4 + i ∉ Mem.range (a + 4) (k - 4) := by
    rintro ⟨h3, h4⟩
    omega
  refine (if_pos ⟨by omega, by omega⟩).trans ?_
  rw [Nat.add_sub_cancel_left, hclear _ hout, hsame]

variable (hrep : ClientRep s cs F)

include hrep

lemma ClientRep.chunk {p : ℕ} (hp : s.live p = some n) :
    ∃ c ∈ objects cs, p = c.addr + 4 ∧ n + 4 ≤ c.size ∧ s.heap.chunkSize (p - 4) = c.size := by
  obtain ⟨c, hc, rfl, hsize⟩ := hrep.tracks.object p n hp
  obtain ⟨pre, post, hcs⟩ := List.append_of_mem (mem_objects.mp hc).1
  have hheaders := hrep.rep.headers
  rw [hcs] at hheaders
  exact ⟨c, hc, rfl, hsize, hheaders.header.size⟩

/-- A move of an object, as far as the new object: it is refused, or the new one is the old one with
more room. -/
lemma ClientRep.copy {obj size : ℕ} (hcopy : s.CanCopy obj size) :
    ¬ HasRoom cs (totSize size)
        ∧ takeObject obj (totSize size) (s.heap.chunkSize (obj - 4)) s.heap = (0, s.heap)
      ∨ HasRoom cs (totSize size) ∧ ∃ p h' cs' F',
        takeObject obj (totSize size) (s.heap.chunkSize (obj - 4)) s.heap = (p, h')
        ∧ p ≠ 0 ∧ s.live p = none ∧ ClientRep (s.handOut size (p, h')) cs' F'
        ∧ Kept s (.copy obj size) (s.handOut size (p, h')) cs'
        ∧ ∀ n, s.live obj = some n → ∀ i < n, h'.mem (p + i) = s.heap.mem (obj + i) := by
  obtain ⟨hlive, hsize, hlt⟩ := hcopy
  obtain ⟨n, hn⟩ := Option.isSome_iff_exists.mp hlive
  obtain ⟨c, hc, rfl, hle, hchunk⟩ := hrep.chunk hn
  obtain ⟨-, hle', hmod⟩ := totSize_spec hsize
  rw [hchunk] at hlt ⊢
  rcases takeObject_spec hrep.rep hmod hc hlt with
    hrun | ⟨hroom, a, k, h', cs', F', hrun, hk, htaken, hcopied⟩
  · exact .inl hrun
  · obtain ⟨hnone, hrep', hkept⟩ := hrep.take htaken (hle'.trans hk)
    refine .inr ⟨hroom, a + 4, h', cs', F', hrun, by omega, hnone, hrep', hkept, fun m hm i hi => ?_⟩
    obtain rfl := Option.some.inj (hn.symm.trans hm)
    exact hcopied i (by omega)

lemma Kept.refl : Kept s op s cs :=
  ⟨rfl, rfl, fun _ _ hp _ => ⟨hp, fun _ _ => rfl⟩, (max_eq_left hrep.high).symm⟩

lemma ClientRep.step (op : Op) :
    ∃ cs' F', ClientRep (s.step op) cs' F' ∧ Kept s op (s.step op) cs' := by
  have hsame : ∀ size, s.handOut size (0, s.heap) = s := fun _ => by
    rw [Client.handOut, if_pos rfl]
  cases op with
  | alloc size =>
    rw [Client.step]
    rcases gcAllocVo_spec hrep.rep size with ⟨-, hrun⟩ | ⟨-, a, k, h', cs', F', hrun, hk, htaken⟩
    · rw [hrun, hsame]
      exact ⟨cs, F, hrep, .refl hrep⟩
    · rw [hrun]
      exact ⟨cs', F', (hrep.take htaken hk).2⟩
  | copy obj size =>
    rw [Client.step]
    split
    · next hcopy =>
      rcases hrep.copy hcopy with ⟨-, hrun⟩ | ⟨-, p, h', cs', F', hrun, -, -, hrep', hkept, -⟩
      · rw [hrun, hsame]
        exact ⟨cs, F, hrep, .refl hrep⟩
      · rw [hrun]
        exact ⟨cs', F', hrep', hkept⟩
    · exact ⟨cs, F, hrep, .refl hrep⟩
  | free obj =>
    cases hp : s.live obj with
    | none =>
      rw [Client.step, hp, if_neg (by simp)]
      exact ⟨cs, F, hrep, .refl hrep⟩
    | some n =>
      obtain ⟨h', cs', F', hrun, hrest⟩ := hrep.release hp
      rw [Client.step, hp, if_pos (Option.isSome_some), hrun]
      exact ⟨cs', F', hrest⟩
  | write obj content =>
    cases hp : s.live obj with
    | none =>
      rw [Client.step, hp]
      exact ⟨cs, F, hrep, .refl hrep⟩
    | some n =>
      rw [Client.step, hp]
      exact ⟨cs, F, hrep.write hp content⟩

lemma ClientRep.run (ops : List Op) :
    (s.run ops).heap.baseAddr = s.heap.baseAddr ∧ (s.run ops).heap.currentSize = s.heap.currentSize
      ∧ ∃ cs' F', ClientRep (s.run ops) cs' F' := by
  induction ops generalizing s cs F with
  | nil => exact ⟨rfl, rfl, cs, F, hrep⟩
  | cons op ops ih =>
    obtain ⟨cs₁, F₁, hrep1, hkept⟩ := hrep.step op
    obtain ⟨hbase, hsize, hrest⟩ := ih hrep1
    exact ⟨hbase.trans hkept.base, hsize.trans hkept.size, hrest⟩

lemma ClientRep.kept_run {ops : List Op} {p : ℕ} (hp : s.live p = some n)
    (hops : ∀ op ∈ ops, op.target ≠ some p) : (s.run ops).live p = some n
      ∧ ∀ i < n, (s.run ops).heap.mem (p + i) = s.heap.mem (p + i) := by
  induction ops generalizing s cs F with
  | nil => exact ⟨hp, fun _ _ => rfl⟩
  | cons op ops ih =>
    obtain ⟨hop, hops⟩ := List.forall_mem_cons.mp hops
    obtain ⟨cs₁, F₁, hrep1, hkept⟩ := hrep.step op
    obtain ⟨hlive1, hbytes1⟩ := hkept.live p n hp hop
    obtain ⟨hlive, hbytes⟩ := ih hrep1 hlive1 hops
    exact ⟨hlive, fun i hi => (hbytes i hi).trans (hbytes1 i hi)⟩

/-- The bytes in use, by the headers. -/
def GcHeap.inUse (h : GcHeap) : ℕ := bytes (objects h.chunks)

lemma ClientRep.inUse_eq : s.heap.inUse = bytes (objects cs) := by
  rw [GcHeap.inUse, hrep.rep.chunks_eq]

lemma ClientRep.peak (ops : List Op) :
    s.heap.highmarkSize ≤ (s.run ops).heap.highmarkSize
      ∧ (∀ k, (s.run (ops.take k)).heap.inUse ≤ (s.run ops).heap.highmarkSize)
      ∧ ((s.run ops).heap.highmarkSize = s.heap.highmarkSize
        ∨ ∃ k, (s.run ops).heap.highmarkSize = (s.run (ops.take k)).heap.inUse) := by
  have hhigh : s.heap.inUse ≤ s.heap.highmarkSize := hrep.inUse_eq ▸ hrep.high
  induction ops generalizing s cs F with
  | nil => exact ⟨le_rfl, fun k => by rw [List.take_nil]; exact hhigh, .inl rfl⟩
  | cons op ops ih =>
    obtain ⟨cs₁, F₁, hrep1, hkept⟩ := hrep.step op
    have hstep := hkept.high
    rw [← hrep1.inUse_eq] at hstep
    obtain ⟨hle, hall, hpeak⟩ := ih hrep1 (hrep1.inUse_eq ▸ hrep1.high)
    refine ⟨(le_max_left _ _).trans (hstep.ge.trans hle), fun k => ?_, ?_⟩
    · cases k with
      | zero => exact hhigh.trans ((le_max_left _ _).trans (hstep.ge.trans hle))
      | succ k => exact hall k
    · rcases hpeak with heq | ⟨k, heq⟩
      · rcases max_choice s.heap.highmarkSize (s.step op).heap.inUse with hmax | hmax
        · exact .inl (heq.trans (hstep.trans hmax))
        · exact .inr ⟨1, heq.trans (hstep.trans hmax)⟩
      · exact .inr ⟨k + 1, heq⟩

end

/-! ## Runs from the initialisation on -/

/-- A pool of at most one gigabyte, apart from the structure of the heap. -/
structure PoolOk (structBuf poolBuf poolBufSize : ℕ) : Prop where
  size_le : poolBufSize ≤ 2 ^ 30
  pool_le : poolBuf + poolBufSize ≤ 2 ^ 64
  struct_le : structBuf + gcHeapSize ≤ 2 ^ 64
  apart : structBuf + gcHeapSize ≤ poolBuf ∨ poolBuf + poolBufSize ≤ structBuf

/-- A client of a heap that has just been initialised. -/
def Initial (poolBuf poolBufSize : ℕ) (s : Client) : Prop :=
  ∃ structBuf structBufSize mem h, PoolOk structBuf poolBuf poolBufSize
    ∧ gcInitWithStructAndPool structBuf structBufSize poolBuf poolBufSize mem = some h
    ∧ s = Client.start h

section

variable {poolBuf poolBufSize : ℕ} {s : Client} {cs : List Chunk} {F : FreeLists}

lemma clientRep_start {heap base size : ℕ} (mem : Mem) (hok : InitOk heap base size) :
    ClientRep (Client.start (gcInitInternal heap base size mem)) [⟨base, size, false⟩]
      (initLists base size) := by
  obtain ⟨hheap, hfree⟩ := gcInitInternal_freeRep mem hok
  have h248 : 248 ≤ size := hok.size_large
  have hlt := hok.size_lt
  have hend := hok.end_le
  have hapart := hok.apart
  have hword := (gcInitInternal_words heap base size mem (by omega) (by omega) hok.heap_le
    (by omega)).1
  refine ⟨⟨hheap, rfl, ⟨rfl, by show 16 ≤ size; omega, hok.size_mod, rfl⟩, ⟨?_, .inl rfl, trivial⟩,
    hfree⟩, ⟨fun p n hp => absurd hp (by simp [Client.start]), fun c hc => ?_⟩, rfl, Nat.zero_le _⟩
  rotate_left
  · exact absurd hc List.not_mem_nil
  show HeaderOk ((gcInitInternal heap base size mem).u32 base) _ _
  rw [hword]
  exact (HeaderOk.free (p := false) (by decide) hlt hok.size_mod).mark

lemma Initial.run (hs : Initial poolBuf poolBufSize s) (ops : List Op) :
    poolBuf % 8 = 0 ∧ (s.run ops).heap.baseAddr = poolBuf + 4
      ∧ (s.run ops).heap.endAddr ≤ poolBuf + poolBufSize ∧ s.heap.highmarkSize = 0
      ∧ ∃ cs F, ClientRep (s.run ops) cs F := by
  obtain ⟨structBuf, structBufSize, mem, h, ⟨h5, h6, h7, h8⟩, hinit, rfl⟩ := hs
  rw [gcInitWithStructAndPool] at hinit
  split_ifs at hinit with h1 h2 h3 h4
  obtain rfl := Option.some.inj hinit
  rw [gcHeapSize] at h7 h8
  rw [appHeapSizeMin] at h4
  have hok : InitOk structBuf (poolBuf + gcHeadPadding)
      ((poolBufSize - gcHeadPadding) / 8 * 8) := by
    constructor <;> simp only [gcHeadPadding, hmuFcNormalMaxSize, gcHeapSize] <;> omega
  obtain ⟨hbase, hsize, hrest⟩ := (clientRep_start mem hok).run ops
  refine ⟨by omega, hbase, ?_, rfl, hrest⟩
  rw [GcHeap.endAddr, hbase, hsize]
  show poolBuf + 4 + (poolBufSize - 4) / 8 * 8 ≤ _
  omega

/-- A client of a pool of a thousand bytes. -/
def sampleClient : Client := Client.start (gcInitInternal 8192 16388 1016 fun _ => 0)

lemma initial_sampleClient : Initial 16384 1024 sampleClient :=
  ⟨8192, 336, fun _ => 0, _, by constructor <;> decide, rfl, rfl⟩

/-- **The heap is well formed after every run.**  It is represented by the chunks that a walk over the
headers finds: they tile the pool, each header is right, two free chunks are never neighbours, and the
free chunks are those of the lists and of the tree. -/
theorem heapRep_run (hs : Initial poolBuf poolBufSize s) (ops : List Op) :
    ∃ F, HeapRep (s.run ops).heap (s.run ops).heap.chunks F := by
  obtain ⟨-, -, -, -, cs, F, hrep⟩ := hs.run ops
  rw [hrep.rep.chunks_eq]
  exact ⟨F, hrep.rep⟩

/-- A run that ends with two objects between two free chunks. -/
def sampleOps : List Op := [.alloc 24, .alloc 100, .alloc 24, .free 16392]

/-- A run that leaves free chunks before and behind its objects. -/
theorem heapRep_run_sample :
    ((sampleClient.run sampleOps).heap.chunks.map fun c => (c.size, c.used))
        = [(32, false), (104, true), (32, true), (848, false)]
      ∧ ∃ F, HeapRep (sampleClient.run sampleOps).heap (sampleClient.run sampleOps).heap.chunks F :=
  ⟨by decide +kernel, heapRep_run initial_sampleClient _⟩

/-- What a client can rely on. -/
structure Contract (poolBuf poolBufSize : ℕ) (s : Client) : Prop where
  aligned : ∀ p n, s.live p = some n → p % 8 = 0
  inside : ∀ p n, s.live p = some n → poolBuf ≤ p ∧ p + n ≤ poolBuf + poolBufSize
  disjoint : ∀ p n q m, s.live p = some n → s.live q = some m → p ≠ q → p + n ≤ q ∨ q + m ≤ p
  refused : ∀ size, (gcAllocVo size s.heap).1 = 0 ↔ Refused s.heap.chunks size
  /-- What is handed out was not live before. -/
  fresh : ∀ size, (gcAllocVo size s.heap).1 ≠ 0 → s.live (gcAllocVo size s.heap).1 = none
  /-- A step does not concern the objects it is not about. -/
  kept : ∀ op p n, s.live p = some n → op.target ≠ some p → (s.step op).live p = some n
    ∧ ∀ i < n, (s.step op).heap.mem (p + i) = s.heap.mem (p + i)
  freed : ∀ p n, s.live p = some n → (gcFreeVo p s.heap).1 = true
  /-- When all objects have been freed, the heap is one free chunk again. -/
  coalesced : (∀ p, s.live p = none) →
    s.heap.chunks = [⟨s.heap.baseAddr, s.heap.currentSize, false⟩]

/-- A heap without objects is one free chunk, since two free chunks are not neighbours. -/
lemma HeapRep.eq_singleton {h : GcHeap} (hrep : HeapRep h cs F) (hnone : objects cs = []) :
    cs = [⟨h.baseAddr, h.currentSize, false⟩] := by
  have hfree : ∀ c ∈ cs, c.used = false := fun c hc => by
    by_contra hused
    have hmem : c ∈ objects cs := mem_objects.mpr ⟨hc, by simpa using hused⟩
    rw [hnone] at hmem
    cases hmem
  have hpos := hrep.ok.size_pos
  obtain ⟨-, -, htiles, hheaders, -⟩ := hrep
  rw [GcHeap.endAddr] at htiles
  rcases cs with - | ⟨⟨a, sz, used⟩, - | ⟨d, rest⟩⟩
  · have hend : h.baseAddr = h.baseAddr + h.currentSize := htiles
    omega
  · obtain ⟨rfl, -, -, hend⟩ := htiles
    obtain rfl : used = false := hfree _ List.mem_cons_self
    have : h.baseAddr + sz = h.baseAddr + h.currentSize := hend
    rw [Nat.add_left_cancel this]
  · have h1 := hfree _ List.mem_cons_self
    have h2 := hfree d (by simp)
    have h3 := hheaders.2.2.2.1
    rw [h1, h2] at h3
    exact absurd h3 (by decide)

lemma ClientRep.coalesced (hrep : ClientRep s cs F) (hnone : ∀ p, s.live p = none) :
    s.heap.chunks = [⟨s.heap.baseAddr, s.heap.currentSize, false⟩] := by
  rw [hrep.rep.chunks_eq]
  refine hrep.rep.eq_singleton (List.eq_nil_iff_forall_not_mem.mpr fun c hc => ?_)
  obtain ⟨n, hn⟩ := hrep.tracks.owned c hc
  rw [hnone] at hn
  cases hn

/-- Where the live objects are. -/
lemma Initial.placed (hs : Initial poolBuf poolBufSize s) {ops : List Op} {p n : ℕ}
    (hp : (s.run ops).live p = some n) :
    p % 8 = 0 ∧ (poolBuf ≤ p ∧ p + n ≤ poolBuf + poolBufSize)
      ∧ ∀ q m, (s.run ops).live q = some m → p ≠ q → p + n ≤ q ∨ q + m ≤ p := by
  obtain ⟨hmod, hbase, hend, -, cs, F, hrep⟩ := hs.run ops
  have htiles := hrep.rep.tiles
  obtain ⟨c, hc, rfl, hsize⟩ := hrep.tracks.object p n hp
  have hc := (mem_objects.mp hc).1
  have hbounds := htiles.bounds hc
  refine ⟨by omega, by omega, fun q m hq hne => ?_⟩
  obtain ⟨d, hd, rfl, hsize'⟩ := hrep.tracks.object q m hq
  have := htiles.apart_of_ne hc (mem_objects.mp hd).1 fun heq => hne (by rw [heq])
  omega

/-- **The contract of `malloc` and `free`.**  After every run on a pool of at most one gigabyte, live
objects are aligned, in the pool and disjoint; a request is refused exactly if it overflows or no
free chunk is large enough, and is otherwise given an object that is not live; a step keeps the bytes
of the objects it is not about; live objects can be freed; and when all of them have been freed, the
heap is one free chunk. -/
theorem contract_run (hs : Initial poolBuf poolBufSize s) (ops : List Op) :
    Contract poolBuf poolBufSize (s.run ops) := by
  obtain ⟨-, -, -, -, cs, F, hrep⟩ := hs.run ops
  refine ⟨fun p n hp => (hs.placed hp).1, fun p n hp => (hs.placed hp).2.1,
    fun p n q m hp hq hne => (hs.placed hp).2.2 q m hq hne, fun size => ?_,
    fun size hne => ?_, fun op p n hp hop => ?_, fun p n hp => ?_, fun hnone => ?_⟩
  · rw [hrep.rep.chunks_eq]
    rcases gcAllocVo_spec hrep.rep size with ⟨href, hrun⟩ | ⟨href, a, k, h', cs', F', hrun, -⟩
    · exact iff_of_true (by rw [hrun]) href
    · exact iff_of_false (by rw [hrun]; exact Nat.succ_ne_zero _) href
  · rcases gcAllocVo_spec hrep.rep size with ⟨-, hrun⟩ | ⟨-, a, k, h', cs', F', hrun, hk, htaken⟩
    · exact absurd (by rw [hrun]) hne
    · obtain ⟨hnone, -, (_ : Kept _ (.alloc size) _ _)⟩ := hrep.take htaken hk
      rwa [hrun]
  · obtain ⟨cs', F', -, hkept⟩ := hrep.step op
    exact hkept.live p n hp hop
  · obtain ⟨h', cs', F', hrun, -⟩ := hrep.release hp
    rw [hrun]
  · exact hrep.coalesced hnone

/-- The same run keeps the contract. -/
theorem contract_run_sample : Contract 16384 1024 (sampleClient.run sampleOps) :=
  contract_run initial_sampleClient _

/-- **Objects stay intact.**  What a `gc_alloc_vo` of a run returns is aligned, in the pool and apart
from the other live objects, and no later step changes its bytes, up to one that frees or writes it.
When all objects have been freed, the heap is one free chunk. -/
theorem gcAllocVo_intact (hs : Initial poolBuf poolBufSize s) :
    (∀ pre size post p t, (gcAllocVo size (s.run pre).heap).1 = p → p ≠ 0 →
      (∀ op ∈ post, op.target ≠ some p) → s.run (pre ++ .alloc size :: post) = t →
      t.live p = some size ∧ p % 8 = 0 ∧ (poolBuf ≤ p ∧ p + size ≤ poolBuf + poolBufSize)
        ∧ (∀ q n, t.live q = some n → p ≠ q → p + size ≤ q ∨ q + n ≤ p)
        ∧ ∀ i < size, t.heap.mem (p + i) = (s.run (pre ++ [.alloc size])).heap.mem (p + i))
      ∧ ∀ ops t, s.run ops = t → (∀ p, t.live p = none) →
        t.heap.chunks = [⟨t.heap.baseAddr, t.heap.currentSize, false⟩] := by
  constructor
  · rintro pre size post p t hp hne hpost rfl
    obtain ⟨-, -, -, -, cs, F, hrep⟩ := hs.run (pre ++ [.alloc size])
    have hfirst : s.run (pre ++ [.alloc size]) = (s.run pre).step (.alloc size) :=
      List.foldl_append ..
    have hlive : (s.run (pre ++ [.alloc size])).live p = some size := by
      rw [hfirst, Client.step, Client.handOut, hp, if_neg hne]
      exact Function.update_self ..
    have hrun : s.run (pre ++ .alloc size :: post) = (s.run (pre ++ [.alloc size])).run post := by
      rw [Client.run, Client.run, Client.run, ← List.foldl_append, List.append_assoc,
        List.singleton_append]
    obtain ⟨hlive', hbytes⟩ := hrep.kept_run hlive hpost
    rw [← hrun] at hlive' hbytes
    obtain ⟨hmod, hinside, hapart⟩ := hs.placed hlive'
    exact ⟨hlive', hmod, hinside, hapart, hbytes⟩
  · rintro ops t rfl hnone
    obtain ⟨-, -, -, -, cs, F, hrep⟩ := hs.run ops
    exact hrep.coalesced hnone

/-- The second object of a run, while the first one is freed. -/
theorem gcAllocVo_intact_sample : (sampleClient.run sampleOps).live 16424 = some 100 := by
  have hret : (gcAllocVo 100 (sampleClient.run [.alloc 24]).heap).1 = 16424 := by decide +kernel
  exact ((gcAllocVo_intact initial_sampleClient).1 [.alloc 24] 100 [.alloc 24, .free 16392] 16424 _
    hret (by decide) (by simp [Op.target]) rfl).1

/-- **Freeing twice.**  After every run, `gc_free_vo` of a pointer that is not live is an error that
changes nothing, if there is still a chunk at its header.  When an object has been merged with a free
chunk in front of it, its header remains inside the larger chunk and is that of an object in use. -/
theorem gcFreeVo_again (hs : Initial poolBuf poolBufSize s) (ops : List Op) (p : ℕ)
    (hp : (s.run ops).live p = none) (hchunk : ∃ c ∈ (s.run ops).heap.chunks, p = c.addr + 4) :
    gcFreeVo p (s.run ops).heap = (false, (s.run ops).heap) := by
  obtain ⟨-, -, -, -, cs, F, hrep⟩ := hs.run ops
  rw [hrep.rep.chunks_eq] at hchunk
  obtain ⟨c, hc, rfl⟩ := hchunk
  have hfree : ¬ c.used = true := fun hused => by
    obtain ⟨n, hn⟩ := hrep.tracks.owned c (mem_objects.mpr ⟨hc, hused⟩)
    rw [hp] at hn
    cases hn
  obtain ⟨hlo, hhi, h16, -⟩ := hrep.rep.tiles.bounds hc
  have hin : (s.run ops).heap.InHeap c.addr := ⟨hlo, by omega⟩
  obtain ⟨pre, post, rfl⟩ := List.append_of_mem hc
  have hut := hrep.rep.headers.header.ut
  rw [if_neg hfree] at hut
  rw [gcFreeVo, if_neg (Nat.succ_ne_zero _), if_neg (by rw [hrep.rep.sound]; decide),
    Nat.add_sub_cancel, if_neg (not_not.mpr hin), if_pos (by rw [hut]; decide)]

/-- The first of two objects is freed twice. -/
theorem gcFreeVo_again_sample :
    gcFreeVo 16392 (sampleClient.run [.alloc 24, .alloc 24, .free 16392]).heap
      = (false, (sampleClient.run [.alloc 24, .alloc 24, .free 16392]).heap) :=
  gcFreeVo_again initial_sampleClient _ _ (by decide +kernel) (by decide +kernel)

/-- The second of three objects is merged with the first one and freed once more: the third one, which
is live, is in a free chunk then. -/
theorem gcFreeVo_again_merged :
    ∃ t, sampleClient.run [.alloc 24, .alloc 24, .alloc 24, .free 16392, .free 16424] = t
      ∧ t.live 16424 = none ∧ t.live 16456 = some 24
      ∧ (gcFreeVo 16424 t.heap).2.totalFreeSize = t.heap.totalFreeSize + 32
      ∧ (gcFreeVo 16424 t.heap).2.chunks = [⟨16388, 1016, false⟩] :=
  ⟨_, rfl, by decide +kernel⟩

/-- **The counters are exact.**  After every run, `total_free_size` is the sum of the sizes of the free
chunks, and `highmark_size` is the largest number of bytes that have been in use. -/
theorem counters_run (hs : Initial poolBuf poolBufSize s) (ops : List Op) :
    (s.run ops).heap.totalFreeSize = ((freeOf (s.run ops).heap.chunks).map Prod.snd).sum
      ∧ (∀ k, (s.run (ops.take k)).heap.inUse ≤ (s.run ops).heap.highmarkSize)
      ∧ ∃ k, (s.run ops).heap.highmarkSize = (s.run (ops.take k)).heap.inUse := by
  obtain ⟨-, -, -, -, cs, F, hrep⟩ := hs.run ops
  obtain ⟨-, -, -, hzero, cs₀, F₀, hrep0⟩ := hs.run []
  obtain ⟨-, hall, hpeak⟩ := hrep0.peak ops
  refine ⟨?_, hall, hpeak.elim (fun heq => ⟨0, ?_⟩) id⟩
  · have h1 := hrep.rep.sum
    have h2 := hrep.total
    rw [hrep.rep.chunks_eq]
    omega
  · have h1 : s.heap.inUse ≤ (s.run ops).heap.highmarkSize := hall 0
    have h2 : (s.run ops).heap.highmarkSize = s.heap.highmarkSize := heq
    show (s.run ops).heap.highmarkSize = s.heap.inUse
    omega

/-- The object freed at the end counts for the peak. -/
theorem counters_run_sample :
    ((freeOf (sampleClient.run sampleOps).heap.chunks).map Prod.snd).sum = 880
      ∧ (∀ k, (sampleClient.run (sampleOps.take k)).heap.inUse ≤ 168)
      ∧ ∃ k, 168 = (sampleClient.run (sampleOps.take k)).heap.inUse := by
  have hhigh : (sampleClient.run sampleOps).heap.highmarkSize = 168 := by decide +kernel
  have htotal : (sampleClient.run sampleOps).heap.totalFreeSize = 880 := by decide +kernel
  rw [← hhigh, ← htotal]
  obtain ⟨hsum, hpeak⟩ := counters_run initial_sampleClient sampleOps
  exact ⟨hsum.symm, hpeak⟩

/-- **A move keeps the object.**  After every run, a `gc_realloc_vo` of a live object that does not grow
it in place is a `copy` and a `free`: if no free chunk is large enough, nothing changes and the null
pointer is returned, otherwise a new object is returned, and the bytes of the old one are in it. -/
theorem gcReallocVo_moves (hs : Initial poolBuf poolBufSize s) (ops : List Op) (obj n size : ℕ)
    (hobj : (s.run ops).live obj = some n) (hcopy : (s.run ops).CanCopy obj size)
    (hgrow : ¬ (s.run ops).heap.CanGrow (obj - 4) (totSize size)) :
    ¬ HasRoom (s.run ops).heap.chunks (totSize size)
        ∧ gcReallocVo obj size (s.run ops).heap = (0, (s.run ops).heap)
      ∨ HasRoom (s.run ops).heap.chunks (totSize size) ∧ ∃ p, p ≠ 0 ∧ (s.run ops).live p = none
        ∧ gcReallocVo obj size (s.run ops).heap
          = (p, (s.run (ops ++ [.copy obj size, .free obj])).heap)
        ∧ (s.run (ops ++ [.copy obj size, .free obj])).live p = some size
        ∧ ∀ i < n, (s.run (ops ++ [.copy obj size, .free obj])).heap.mem (p + i)
          = (s.run ops).heap.mem (obj + i) := by
  obtain ⟨-, -, -, -, cs, F, hrep⟩ := hs.run ops
  have hrun : s.run (ops ++ [.copy obj size, .free obj])
      = ((s.run ops).step (.copy obj size)).step (.free obj) := List.foldl_append ..
  rw [hrun]
  generalize s.run ops = t at *
  obtain ⟨c, hc, hp, hn, hchunk⟩ := hrep.chunk hobj
  have hsize := hcopy.2.1
  have hlt := hcopy.2.2
  rw [gcReallocVo, if_neg hsize, if_neg (by rw [hrep.rep.sound]; decide), if_neg (by omega),
    if_neg (not_le.mpr hlt), if_neg hgrow, moveObject]
  rw [hrep.rep.chunks_eq]
  rcases hrep.copy hcopy with
    ⟨hroom, htake⟩ | ⟨hroom, p, h', cs', F', htake, hp, hnone, hrep', hkept, hbytes⟩
  · rw [htake]
    exact .inl ⟨hroom, if_neg (by simp)⟩
  have hne : p ≠ obj := fun heq => by
    rw [heq, hobj] at hnone
    cases hnone
  have hcopied : t.step (.copy obj size) = t.handOut size (p, h') := by
    rw [Client.step, if_pos hcopy, htake]
  have hlive : (t.handOut size (p, h')).live p = some size := by
    rw [Client.handOut, if_neg hp]
    exact Function.update_self ..
  have hold := (hkept.live obj n hobj (by simp [Op.target])).1
  obtain ⟨h2, cs₂, F₂, hfree, -, hkept2⟩ := hrep'.release hold
  obtain ⟨hlive2, hbytes2⟩ := hkept2.live p size hlive (by simpa [Op.target] using hne.symm)
  have hfreed : (t.handOut size (p, h')).step (.free obj)
      = ⟨h2, Function.update (t.handOut size (p, h')).live obj none⟩ := by
    rw [Client.step, if_pos (by rw [hold]; rfl), hfree]
  refine .inr ⟨hroom, p, hp, hnone, ?_⟩
  rw [hcopied, hfreed, htake, if_pos ⟨hp, by omega⟩]
  refine ⟨?_, hlive2, fun i hi => ?_⟩
  · have : gcFreeVo obj h' = (true, h2) := hfree
    rw [this]
  · have hle : n ≤ size := by
      have h1 := (totSize_spec hsize).2.2
      have h2 := (hrep.rep.tiles.bounds (mem_objects.mp hc).1).2.2.2.1
      rw [totSize, totSizeUnaligned] at h1 hlt
      omega
    exact (hbytes2 i (by omega)).trans (hbytes n hobj i hi)

/-- The second object is behind the first one, which is moved. -/
theorem gcReallocVo_moves_sample :
    ∃ p, (sampleClient.run [.alloc 24, .alloc 24, .copy 16392 300, .free 16392]).live p
      = some 300 := by
  rcases gcReallocVo_moves initial_sampleClient [.alloc 24, .alloc 24] 16392 24 300
    (by decide +kernel) (by decide +kernel) (by decide +kernel) with
    ⟨-, hnone⟩ | ⟨-, p, -, -, -, hlive, -⟩
  · have hmoved : (gcReallocVo 16392 300 (sampleClient.run [.alloc 24, .alloc 24]).heap).1 ≠ 0 := by
      decide +kernel
    exact absurd (congrArg Prod.fst hnone) hmoved
  · exact ⟨p, hlive⟩

end

end Watz.Ems
