import Watz.Lib.History
import Watz.Lib.Memory
import Watz.Attester.SharedBuffers

/-!
# The output of the module

The trusted runtime has one way to write: `writev` on the standard descriptors.  It puts the
vectors of the call together in a buffer from `os_malloc`, prints that buffer on the secure console
and appends it to the buffer shared with the normal world, if it fits there.  The total is a
`size_t`, but `os_malloc` takes 32 bits of it, and its result is not checked.  Here `writev` works
on a flat memory, so that it can be said where it copies to and what a run of calls leaves in the
shared buffer.
-/

namespace Watz.Attester.Output

open Lib

/-! ## The call and its memory -/

/-- `struct iovec`. -/
structure Iovec where
  iovBase : ℕ
  iovLen : ℕ

/-- The count of the characters, in a `size_t`. -/
def nchars (iov : List Iovec) : ℕ := iov.foldl (fun n v => (n + v.iovLen) % 2 ^ 64) 0

/-- The number of bytes that the vectors describe. -/
def total (iov : List Iovec) : ℕ := (iov.map Iovec.iovLen).sum

/-- The bytes that the vectors describe. -/
def contents (m : Mem) (iov : List Iovec) : List UInt8 :=
  iov.flatMap fun v => m.read v.iovBase v.iovLen

/-- Two ranges of addresses have nothing in common. -/
def Apart (a n b k : ℕ) : Prop := a + n ≤ b ∨ b + k ≤ a

/-- Where the linear memory of the module, the heap of `os_malloc` and the shared buffer are. -/
structure AddressSpace where
  linear : ℕ
  linearSize : ℕ
  heap : ℕ
  heapSize : ℕ
  output : ℕ
  outputSize : ℕ
  /-- A linear memory has at most 65536 pages of 64 KiB. -/
  linearSize_le : linearSize ≤ 2 ^ 32
  /-- The size that `vedliot_set_output_buffer` takes is a `uint32_t`. -/
  outputSize_lt : outputSize < 2 ^ 32
  linear_heap : Apart linear linearSize heap heapSize
  heap_output : Apart heap heapSize output outputSize

/-- A call of `writev`, with what `os_malloc` returns in it. -/
structure Call (sp : AddressSpace) where
  fd : ℤ
  iov : List Iovec
  /-- The null pointer is `none`. -/
  osMalloc : Option ℕ
  /-- `iovcnt` is an `int`. -/
  iovcnt_lt : iov.length < 2 ^ 31
  readable : ∀ v ∈ iov, sp.linear ≤ v.iovBase ∧ v.iovBase + v.iovLen ≤ sp.linear + sp.linearSize
  /-- The block that was allocated; its size is an `unsigned`. -/
  allocated : ∀ a, osMalloc = some a →
    sp.heap ≤ a ∧ a + nchars iov % 2 ^ 32 ≤ sp.heap + sp.heapSize

/-- What a call does that can be seen from outside. -/
inductive Event where
  /-- A vector is copied to an address. -/
  | copy (dst len : ℕ)
  /-- A line goes to the secure console: its text, without the prefix and the end of the line. -/
  | print (text : List UInt8)
  /-- A message with conversions is formatted, for which no arguments were passed. -/
  | format (msg : List UInt8)
  /-- Bytes are stored for the normal world. -/
  | store (dst : ℕ) (bytes : List UInt8)

/-- The memory, the globals of the runtime and what was done so far. -/
structure Tz where
  mem : Mem
  outputBuffer : ℕ
  outputBufferSize : ℕ
  events : List Event

/-! ## `writev` -/

def Tz.note (e : Event) (s : Tz) : Tz := { s with events := s.events ++ [e] }

def Tz.memcpy (dst src n : ℕ) (s : Tz) : Tz := { s with mem := s.mem.write dst (s.mem.read src n) }

/-- The loop that copies the vectors.  Nothing is mapped at the null pointer. -/
def assemble (buffer : Option ℕ) : List Iovec → ℕ → EStateM Stop Tz Unit
  | [], _ => pure ()
  | v :: iov, bufferIter => do
    modify (Tz.note (.copy bufferIter v.iovLen))
    failIf (buffer = none ∧ v.iovLen ≠ 0) .panic
    modify (Tz.memcpy bufferIter v.iovBase v.iovLen)
    assemble buffer iov (bufferIter + v.iovLen)

/-- The number of characters that fit in the static `msg` of `os_printf`, with its end. -/
def msgSize : ℕ := 511

/-- How far `%.*s` looks: the precision is taken as an `int`, and a negative one is none. -/
def precision (n : ℕ) : ℕ := if n % 2 ^ 32 < 2 ^ 31 then min (n % 2 ^ 32) msgSize else msgSize

/-- The number of bytes of a message for which `trace_vprintf` has room, between the prefix `I/TA: `
and the end of the line. -/
def traceSize : ℕ := 504

/-- `IMSG(msg)`, with the levels of the default build: `msg` is itself a format, and `trace_vprintf`
ends the line where the message does, or where its buffer is full, and leaves out the newlines
before.  A message with a `%` is never printed as it stands, since a conversion that prints one has
two of them; what its conversions print depends on arguments that nobody passed, and they are taken
to leave the memory alone, which `%n` does not. -/
def imsg (msg : List UInt8) : Event :=
  if 37 ∈ msg then .format msg else .print ((msg.take traceSize).rdropWhile (· = 10))

/-- `os_printf` with the format `%.*s`: the message ends at a zero byte, or where `msg` is full. -/
def Tz.osPrintf (n buffer : ℕ) (s : Tz) : Tz :=
  s.note (imsg ((s.mem.read buffer (precision n)).takeWhile (· ≠ 0)))

/-- The output is appended, unless it would fill the shared buffer. -/
def Tz.storeOutput (n buffer : ℕ) (s : Tz) : Tz :=
  if s.outputBufferSize > n then
    { (s.note (.store s.outputBuffer (s.mem.read buffer n))).memcpy s.outputBuffer buffer n with
      outputBuffer := s.outputBuffer + n
      outputBufferSize := s.outputBufferSize - n }
  else s

variable {sp : AddressSpace}

def Call.buffer (c : Call sp) : ℕ := c.osMalloc.getD 0

/-- `writev`. -/
def writev (c : Call sp) : EStateM Stop Tz ℤ :=
  if c.fd = 1 ∨ c.fd = 2 then do
    assemble c.osMalloc c.iov c.buffer
    modify (Tz.osPrintf (nchars c.iov) c.buffer)
    modify (Tz.storeOutput (nchars c.iov) c.buffer)
    pure (nchars c.iov)
  else pure (-1)

/-- `vedliot_set_output_buffer`. -/
def vedliotSetOutputBuffer (sp : AddressSpace) (m : Mem) : Tz := ⟨m, sp.output, sp.outputSize, []⟩

/-! ## The count and the contents -/

lemma length_contents (m : Mem) (iov : List Iovec) : (contents m iov).length = total iov := by
  rw [contents, total, List.length_flatMap]
  simp only [Mem.read_length]

lemma total_cons (v : Iovec) (iov : List Iovec) : total (v :: iov) = v.iovLen + total iov := by
  simp [total]

lemma foldl_nchars (iov : List Iovec) (n : ℕ) (hn : n < 2 ^ 64) :
    iov.foldl (fun n v => (n + v.iovLen) % 2 ^ 64) n = (n + total iov) % 2 ^ 64 := by
  induction iov generalizing n with
  | nil => simpa [total] using (Nat.mod_eq_of_lt hn).symm
  | cons v iov ih =>
    rw [List.foldl_cons, ih _ (Nat.mod_lt _ (by norm_num)), total_cons, Nat.mod_add_mod,
      Nat.add_assoc]

variable {v : Iovec} {iter len : ℕ} {e : Event} {msg bytes text : List UInt8} {p : Progress}

namespace Call

lemma iovLen_le (c : Call sp) (hv : v ∈ c.iov) : v.iovLen ≤ 2 ^ 32 := by
  have hread := c.readable v hv
  have hsize := sp.linearSize_le
  omega

lemma nchars_eq (c : Call sp) : nchars c.iov = total c.iov := by
  have hle : total c.iov ≤ c.iov.length * 2 ^ 32 := by
    have hsum := List.sum_le_card_nsmul (c.iov.map Iovec.iovLen) (2 ^ 32) (by
      intro n hn
      obtain ⟨v, hv, rfl⟩ := List.mem_map.mp hn
      exact c.iovLen_le hv)
    simpa [total] using hsum
  have hcnt := c.iovcnt_lt
  rw [nchars, foldl_nchars _ _ (by norm_num), Nat.zero_add, Nat.mod_eq_of_lt (by omega)]

/-- The bytes that the call is to write. -/
def output (c : Call sp) (m : Mem) : List UInt8 :=
  if c.fd = 1 ∨ c.fd = 2 then contents m c.iov else []

/-- A call that gets no memory has nothing to put there. -/
def Placed (c : Call sp) : Prop := c.osMalloc = none → total c.iov = 0

end Call

variable {iov : List Iovec} {l : List UInt8} {buffer : Option ℕ} {dst : ℕ} {c : Call sp}

lemma contents_write {m : Mem} {b : ℕ} (h : ∀ v ∈ iov, Apart v.iovBase v.iovLen b l.length) :
    contents (m.write b l) iov = contents m iov := by
  rw [contents, contents, List.flatMap_def, List.flatMap_def]
  refine congrArg List.flatten (List.map_congr_left fun v hv => ?_)
  exact Mem.read_write_of_disjoint (h v hv)

/-! ## The loop -/

/-- What the loop copies, and where to. -/
def copies : List Iovec → ℕ → List Event
  | [], _ => []
  | v :: iov, bufferIter => .copy bufferIter v.iovLen :: copies iov (bufferIter + v.iovLen)

lemma goes_on (h : buffer = none → total (v :: iov) = 0) :
    ¬ (buffer = none ∧ v.iovLen ≠ 0) ∧ (buffer = none → total iov = 0) := by
  rw [total_cons] at h
  constructor
  · rintro ⟨hnone, hlen⟩
    have := h hnone
    omega
  · intro hnone
    have := h hnone
    omega

lemma assemble_eq_ok (iov : List Iovec) (iter : ℕ) (s : Tz) (h : buffer = none → total iov = 0) :
    ∃ m, assemble buffer iov iter s
      = .ok () { s with mem := m, events := s.events ++ copies iov iter } := by
  induction iov generalizing iter s with
  | nil => exact ⟨s.mem, by rw [copies, List.append_nil]; rfl⟩
  | cons v iov ih =>
    obtain ⟨hgo, hrest⟩ := goes_on h
    rw [assemble, run_modify_bind, failIf_of_neg hgo]
    obtain ⟨m, hm⟩ := ih (iter + v.iovLen)
      ((s.note (.copy iter v.iovLen)).memcpy iter v.iovBase v.iovLen) hrest
    refine ⟨m, hm.trans ?_⟩
    simp [Tz.note, Tz.memcpy, copies]

lemma assemble_of_apart (iov : List Iovec) (iter : ℕ) (s : Tz) (h : buffer = none → total iov = 0)
    (hapart : ∀ v ∈ iov, Apart v.iovBase v.iovLen iter (total iov)) :
    assemble buffer iov iter s = .ok ()
      { s with mem := s.mem.write iter (contents s.mem iov)
               events := s.events ++ copies iov iter } := by
  induction iov generalizing iter s with
  | nil =>
    rw [copies, List.append_nil, contents, List.flatMap_nil, Mem.write_nil]
    rfl
  | cons v iov ih =>
    obtain ⟨hgo, hrest⟩ := goes_on h
    have hlater : ∀ w ∈ iov, Apart w.iovBase w.iovLen (iter + v.iovLen) (total iov) := by
      intro w hw
      have hw' := hapart w (List.mem_cons_of_mem _ hw)
      rw [Apart, total_cons] at hw'
      rw [Apart]
      omega
    have hhere : ∀ w ∈ iov, Apart w.iovBase w.iovLen iter
        (s.mem.read v.iovBase v.iovLen).length := by
      intro w hw
      have hw' := hapart w (List.mem_cons_of_mem _ hw)
      rw [Apart, total_cons] at hw'
      rw [Apart, Mem.read_length]
      omega
    rw [assemble, run_modify_bind, failIf_of_neg hgo]
    refine (ih (iter + v.iovLen)
      ((s.note (.copy iter v.iovLen)).memcpy iter v.iovBase v.iovLen) hrest hlater).trans ?_
    have hwrite := Mem.write_write s.mem iter (s.mem.read v.iovBase v.iovLen) (contents s.mem iov)
    rw [Mem.read_length] at hwrite
    simp only [Tz.note, Tz.memcpy, copies, contents_write hhere, hwrite, List.append_assoc]
    rfl

lemma assemble_eq_error (iov : List Iovec) (iter : ℕ) (s : Tz) (h : total iov ≠ 0) :
    ∃ es, (∀ e ∈ es, ∃ dst len, e = .copy dst len)
      ∧ assemble none iov iter s = .error .panic { s with events := s.events ++ es } := by
  induction iov generalizing iter s with
  | nil => exact absurd rfl h
  | cons v iov ih =>
    rw [assemble, run_modify_bind]
    by_cases hv : v.iovLen = 0
    · -- an empty vector is copied without harm
      have hrest : total iov ≠ 0 := by
        rw [total_cons] at h
        omega
      obtain ⟨es, hes, herr⟩ := ih (iter + v.iovLen)
        ((s.note (.copy iter v.iovLen)).memcpy iter v.iovBase v.iovLen) hrest
      refine ⟨.copy iter v.iovLen :: es, ?_, ?_⟩
      · intro e he
        rcases List.mem_cons.mp he with rfl | he
        · exact ⟨_, _, rfl⟩
        · exact hes e he
      · rw [failIf_of_neg (fun hstop => hstop.2 hv)]
        refine herr.trans ?_
        have hempty : s.mem.read v.iovBase 0 = [] := rfl
        simp [Tz.note, Tz.memcpy, hv, hempty, Mem.write_nil]
    · refine ⟨[.copy iter v.iovLen], ?_, ?_⟩
      · intro e he
        exact ⟨_, _, List.mem_singleton.mp he⟩
      · exact bind_of_error (failIf_of_pos ⟨rfl, hv⟩)

lemma copies_within (h : Event.copy dst len ∈ copies iov iter) :
    iter ≤ dst ∧ dst + len ≤ iter + total iov := by
  induction iov generalizing iter with
  | nil => simp [copies] at h
  | cons v iov ih =>
    rw [total_cons]
    rcases List.mem_cons.mp h with heq | hmem
    · obtain ⟨rfl, rfl⟩ := Event.copy.inj heq
      omega
    · have hrest := ih hmem
      omega

lemma exists_copies_end (iter : ℕ) (h : total iov ≠ 0) :
    ∃ dst len, Event.copy dst len ∈ copies iov iter ∧ len ≠ 0
      ∧ dst + len = iter + total iov := by
  induction iov generalizing iter with
  | nil => exact absurd rfl h
  | cons v iov ih =>
    by_cases hrest : total iov = 0
    · refine ⟨iter, v.iovLen, List.mem_cons_self, ?_, ?_⟩
      · rw [total_cons] at h
        omega
      · rw [total_cons]
        omega
    · obtain ⟨dst, len, hmem, hlen, hend⟩ := ih (iter + v.iovLen) hrest
      refine ⟨dst, len, List.mem_cons_of_mem _ hmem, hlen, ?_⟩
      rw [total_cons]
      omega

lemma eq_copy_of_mem_copies (h : e ∈ copies iov iter) :
    ∃ dst len, e = .copy dst len := by
  induction iov generalizing iter with
  | nil => simp [copies] at h
  | cons v iov ih =>
    rcases List.mem_cons.mp h with rfl | h
    · exact ⟨_, _, rfl⟩
    · exact ih h

/-! ## One call -/

namespace Call

lemma apart_linear (c : Call sp) (hp : c.Placed) (hlt : total c.iov < 2 ^ 32) :
    ∀ v ∈ c.iov, Apart v.iovBase v.iovLen c.buffer (total c.iov) := by
  intro v hv
  cases hm : c.osMalloc with
  | none =>
    rw [Apart, hp hm, buffer, hm]
    exact Or.inr (Nat.zero_le _)
  | some a =>
    have hblock := c.allocated a hm
    rw [c.nchars_eq, Nat.mod_eq_of_lt hlt] at hblock
    have hread := c.readable v hv
    have hsp := sp.linear_heap
    rw [Apart] at hsp
    rw [Apart, buffer, hm, Option.getD_some]
    omega

lemma apart_output (c : Call sp) (hp : c.Placed) (hlt : total c.iov < 2 ^ 32) :
    total c.iov = 0 ∨ Apart c.buffer (total c.iov) sp.output sp.outputSize := by
  cases hm : c.osMalloc with
  | none => exact Or.inl (hp hm)
  | some a =>
    have hblock := c.allocated a hm
    rw [c.nchars_eq, Nat.mod_eq_of_lt hlt] at hblock
    have hsp := sp.heap_output
    rw [Apart] at hsp
    rw [Apart, buffer, hm, Option.getD_some]
    omega

/-- The state when the vectors have been put together. -/
def assembled (c : Call sp) (s : Tz) : Tz :=
  { s with mem := s.mem.write c.buffer (contents s.mem c.iov)
           events := s.events ++ copies c.iov c.buffer }

lemma read_assembled (c : Call sp) (s : Tz) :
    (c.assembled s).mem.read c.buffer (total c.iov) = contents s.mem c.iov := by
  have hread := Mem.read_write (m := s.mem) (a := c.buffer) (l := contents s.mem c.iov)
  rwa [length_contents] at hread

end Call

lemma precision_le (n : ℕ) (h : n < 2 ^ 32) : precision n = min n msgSize := by
  rw [precision, Nat.mod_eq_of_lt h]
  by_cases hint : n < 2 ^ 31
  · rw [if_pos hint]
  · rw [if_neg hint, msgSize]
    omega

/-- The message that `os_printf` makes of a text. -/
def message (l : List UInt8) : List UInt8 := (l.take msgSize).takeWhile (· ≠ 0)

lemma imsg_ne_copy : imsg msg ≠ .copy dst len := by
  rw [imsg]
  split <;> simp

lemma imsg_ne_store : imsg msg ≠ .store dst bytes := by
  rw [imsg]
  split <;> simp

lemma writev_of_placed (hfd : c.fd = 1 ∨ c.fd = 2) (hp : c.Placed) (hlt : total c.iov < 2 ^ 32)
    (s : Tz) :
    writev c s = .ok (total c.iov : ℤ) (((c.assembled s).note
      (imsg (message (contents s.mem c.iov)))).storeOutput (total c.iov) c.buffer) := by
  have hasm := assemble_of_apart c.iov c.buffer s hp (c.apart_linear hp hlt)
  have hread : (c.assembled s).mem.read c.buffer (precision (total c.iov))
      = (contents s.mem c.iov).take msgSize := by
    rw [precision_le _ hlt, ← Mem.read_take (Nat.min_le_left _ _), c.read_assembled,
      ← length_contents s.mem, Nat.min_comm, ← List.take_eq_take_min]
  have hprint : (c.assembled s).osPrintf (total c.iov) c.buffer
      = (c.assembled s).note (imsg (message (contents s.mem c.iov))) := by
    rw [Tz.osPrintf, hread, message]
  rw [writev, if_pos hfd, bind_of_ok hasm, run_modify_bind, run_modify_bind, c.nchars_eq]
  exact congrArg (fun t => EStateM.Result.ok (total c.iov : ℤ)
    (Tz.storeOutput (total c.iov) c.buffer t)) hprint

lemma writev_of_fd (hfd : ¬ (c.fd = 1 ∨ c.fd = 2)) (s : Tz) :
    writev c s = .ok (-1) s := by
  rw [writev, if_neg hfd]
  rfl

lemma writev_of_not_placed (hfd : c.fd = 1 ∨ c.fd = 2) (hp : ¬ c.Placed) (s : Tz) :
    ∃ es, (∀ e ∈ es, ∃ dst len, e = .copy dst len)
      ∧ writev c s = .error .panic { s with events := s.events ++ es } := by
  rw [Call.Placed, Classical.not_imp] at hp
  obtain ⟨es, hes, herr⟩ := assemble_eq_error c.iov c.buffer s hp.2
  refine ⟨es, hes, ?_⟩
  rw [writev, if_pos hfd, hp.1]
  exact bind_of_error herr

/-! ## The vectors are put together in allocated memory -/

/-- What `writev` should do with its vectors: it copies only to the block that was allocated, what
goes to the console and to the shared buffer is all that the vectors describe, or nothing, and the
number of these bytes is returned, or an error.  On the console a newline at the end of the text may
be the end of the line. -/
structure Assembles (c : Call sp) (s : Tz) : Prop where
  inside : ∀ dst len, .copy dst len ∈ (final (writev c { s with events := [] })).events →
    len = 0 ∨ ∃ a, c.osMalloc = some a ∧ a ≤ dst ∧ dst + len ≤ a + nchars c.iov % 2 ^ 32
  console : ∀ text, .print text ∈ (final (writev c { s with events := [] })).events →
    contents s.mem c.iov = text ∨ contents s.mem c.iov = text ++ [10] ∨ text = []
  literal : ∀ msg, .format msg ∉ (final (writev c { s with events := [] })).events
  shared : ∀ dst bytes, .store dst bytes ∈ (final (writev c { s with events := [] })).events →
    bytes = contents s.mem c.iov
  returns : ∃ n t, writev c { s with events := [] } = .ok n t
    ∧ (n = (contents s.mem c.iov).length ∨ n = -1)

/-- A text without a `%` that the console gets as a whole, or of which it gets nothing: one that has
only newlines where a line has room, or one that fills at most a line, has no zero byte, and ends in
one newline at most. -/
def Printable (l : List UInt8) : Prop :=
  37 ∉ message l ∧ ((∀ x ∈ (message l).take traceSize, x = 10)
    ∨ ∃ text, (l = text ∨ l = text ++ [10])
      ∧ text.length ≤ traceSize ∧ 0 ∉ text ∧ text.getLast? ≠ some 10)

/-- The call is not on a standard descriptor; or it gets memory for its vectors, their total fits
in 32 bits, and the text can be printed. -/
def AssemblesWhen (c : Call sp) (m : Mem) : Prop :=
  ¬ (c.fd = 1 ∨ c.fd = 2) ∨
    (c.Placed ∧ total c.iov < 2 ^ 32 ∧ Printable (contents m c.iov))

lemma message_eq_self (hlen : l.length ≤ msgSize) (hzero : 0 ∉ l) :
    message l = l := by
  rw [message, List.take_of_length_le hlen, List.takeWhile_eq_self_iff]
  intro x hx
  simpa using fun h : x = 0 => hzero (h ▸ hx)

lemma zero_notMem_message (l : List UInt8) : 0 ∉ message l := by
  intro hzero
  have := List.mem_takeWhile_imp hzero
  simp at this

lemma rdropWhile_eq_self (h : text.getLast? ≠ some 10) :
    text.rdropWhile (· = 10) = text := by
  refine List.rdropWhile_eq_self_iff.mpr fun hne => ?_
  rw [List.getLast?_eq_some_getLast hne] at h
  simpa using h

/-- A line that takes a text with at most one newline at its end. -/
lemma line_eq (h : l = text ∨ l = text ++ [10]) (hlen : text.length ≤ traceSize)
    (hzero : 0 ∉ text) (hlast : text.getLast? ≠ some 10) :
    ((message l).take traceSize).rdropWhile (· = 10) = text := by
  have hl : message l = l := by
    rcases h with rfl | rfl
    · exact message_eq_self (hlen.trans (by decide)) hzero
    · refine message_eq_self ?_ (by simpa using hzero)
      rw [List.length_append]
      exact Nat.add_le_add_right hlen 1 |>.trans (by decide)
  rw [hl]
  rcases h with rfl | rfl
  · rw [List.take_of_length_le hlen, rdropWhile_eq_self hlast]
  · rcases hlen.lt_or_eq with hlt | heq
    · rw [List.take_of_length_le (by rw [List.length_append]; exact hlt),
        List.rdropWhile_concat_pos _ _ _ (by simp), rdropWhile_eq_self hlast]
    · -- the newline no longer fits, and is the end of the line
      rw [← heq, List.take_left, rdropWhile_eq_self hlast]

lemma printable_iff (l : List UInt8) : Printable l ↔ 37 ∉ message l ∧
    (l = ((message l).take traceSize).rdropWhile (· = 10)
      ∨ l = ((message l).take traceSize).rdropWhile (· = 10) ++ [10]
      ∨ ((message l).take traceSize).rdropWhile (· = 10) = []) := by
  refine and_congr_right fun _ => ?_
  constructor
  · rintro (hempty | ⟨text, h, hlen, hzero, hlast⟩)
    · exact Or.inr (Or.inr (List.rdropWhile_eq_nil_iff.mpr fun x hx => by simpa using hempty x hx))
    · rw [line_eq h hlen hzero hlast]
      exact h.elim Or.inl fun h => Or.inr (Or.inl h)
  · rw [← or_assoc]
    rintro (h | hempty)
    · refine Or.inr ⟨_, h, ?_, ?_, ?_⟩
      · exact (List.rdropWhile_prefix _ _).length_le.trans (List.length_take_le _ _)
      · exact fun hzero => zero_notMem_message l
          (List.mem_of_mem_take ((List.rdropWhile_prefix _ _).subset hzero))
      · intro hlast
        obtain ⟨hne, hten⟩ := List.mem_getLast?_eq_getLast hlast
        exact List.rdropWhile_last_not _ _ hne (by simp [← hten])
    · refine Or.inl fun x hx => ?_
      simpa using List.rdropWhile_eq_nil_iff.mp hempty x hx

lemma storeOutput_events (n b : ℕ) (s : Tz) :
    (s.storeOutput n b).events
      = s.events ++ if s.outputBufferSize > n then [.store s.outputBuffer (s.mem.read b n)]
        else [] := by
  rw [Tz.storeOutput]
  split_ifs with h
  · rfl
  · exact (List.append_nil _).symm

section

variable (hfd : c.fd = 1 ∨ c.fd = 2)

include hfd

lemma mem_events_writev (hp : c.Placed) (hlt : total c.iov < 2 ^ 32) {s : Tz}
    (he : e ∈ (final (writev c { s with events := [] })).events) :
    e ∈ copies c.iov c.buffer ∨ e = imsg (message (contents s.mem c.iov))
      ∨ e = .store s.outputBuffer (contents s.mem c.iov) := by
  rw [writev_of_placed hfd hp hlt, final_ok, storeOutput_events] at he
  have hread := c.read_assembled { s with events := [] }
  rcases List.mem_append.mp he with he | he
  · rcases List.mem_append.mp he with he | he
    · exact Or.inl he
    · exact Or.inr (Or.inl (List.mem_singleton.mp he))
  · split_ifs at he
    · refine Or.inr (Or.inr ((List.mem_singleton.mp he).trans ?_))
      exact congrArg _ hread
    · exact absurd he List.not_mem_nil

lemma assembles_of_placed {s : Tz} (hp : c.Placed) (hlt : total c.iov < 2 ^ 32)
    (hprint : Printable (contents s.mem c.iov)) : Assembles c s := by
  constructor
  · intro dst len he
    rcases mem_events_writev hfd hp hlt he with hcopy | heq | heq
    · obtain ⟨hfrom, hto⟩ := copies_within hcopy
      cases hm : c.osMalloc with
      | none =>
        have hzero := hp hm
        omega
      | some a =>
        rw [Call.buffer, hm, Option.getD_some] at hfrom hto
        exact Or.inr ⟨a, rfl, hfrom, by rwa [c.nchars_eq, Nat.mod_eq_of_lt hlt]⟩
    · exact absurd heq.symm imsg_ne_copy
    · cases heq
  · intro text he
    rcases mem_events_writev hfd hp hlt he with hcopy | heq | heq
    · obtain ⟨_, _, heq⟩ := eq_copy_of_mem_copies hcopy
      cases heq
    · rw [imsg, if_neg hprint.1] at heq
      obtain rfl := Event.print.inj heq
      exact ((printable_iff _).mp hprint).2
    · cases heq
  · intro msg he
    rcases mem_events_writev hfd hp hlt he with hcopy | heq | heq
    · obtain ⟨_, _, heq⟩ := eq_copy_of_mem_copies hcopy
      cases heq
    · rw [imsg, if_neg hprint.1] at heq
      cases heq
    · cases heq
  · intro dst bytes he
    rcases mem_events_writev hfd hp hlt he with hcopy | heq | heq
    · obtain ⟨_, _, heq⟩ := eq_copy_of_mem_copies hcopy
      cases heq
    · exact absurd heq.symm imsg_ne_store
    · exact (Event.store.inj heq).2
  · exact ⟨_, _, writev_of_placed hfd hp hlt _, Or.inl (by rw [length_contents])⟩

lemma not_assembles_of_not_placed {s : Tz} (hp : ¬ c.Placed) :
    ¬ Assembles c s := by
  intro h
  obtain ⟨n, t, hok, -⟩ := h.returns
  obtain ⟨es, -, herr⟩ := writev_of_not_placed hfd hp { s with events := [] }
  rw [herr] at hok
  cases hok

/-- With a total that does not fit in 32 bits, the last vector is copied past the block. -/
lemma not_assembles_of_large {s : Tz} (hp : c.Placed) (hlarge : 2 ^ 32 ≤ total c.iov) :
    ¬ Assembles c s := by
  intro h
  have hne : total c.iov ≠ 0 := by omega
  obtain ⟨dst, len, hmem, hlen, hend⟩ := exists_copies_end c.buffer hne
  have hevent : .copy dst len ∈ (final (writev c { s with events := [] })).events := by
    obtain ⟨m, hm⟩ := assemble_eq_ok c.iov c.buffer { s with events := [] } hp
    rw [writev, if_pos hfd, bind_of_ok hm, run_modify_bind, run_modify_bind]
    change _ ∈ (Tz.storeOutput _ _ _).events
    rw [storeOutput_events]
    exact List.mem_append_left _ (List.mem_append_left _ hmem)
  rcases h.inside dst len hevent with hzero | ⟨a, ha, -, hto⟩
  · exact hlen hzero
  · rw [Call.buffer, ha, Option.getD_some] at hend
    rw [c.nchars_eq] at hto
    omega

end

/-- **When a call puts its vectors together where it should.**  A call on a standard descriptor stays
in its block and passes its text on, to the console and to the shared buffer, exactly if it gets the
memory that it asks for, asks for all that it needs, and has a text that the console takes. -/
theorem assembles_iff (c : Call sp) (s : Tz) : Assembles c s ↔ AssemblesWhen c s.mem := by
  by_cases hfd : c.fd = 1 ∨ c.fd = 2
  · constructor
    · intro h
      by_cases hp : c.Placed
      · by_cases hlt : total c.iov < 2 ^ 32
        · have himsg : imsg (message (contents s.mem c.iov))
              ∈ (final (writev c { s with events := [] })).events := by
            rw [writev_of_placed hfd hp hlt, final_ok, storeOutput_events]
            exact List.mem_append_left _ (List.mem_append_right _ List.mem_cons_self)
          rw [imsg] at himsg
          refine Or.inr ⟨hp, hlt, (printable_iff _).mpr ?_⟩
          split_ifs at himsg with hpercent
          · exact absurd himsg (h.literal _)
          · exact ⟨hpercent, h.console _ himsg⟩
        · exact absurd h (not_assembles_of_large hfd hp (Nat.le_of_not_lt hlt))
      · exact absurd h (not_assembles_of_not_placed hfd hp)
    · rintro (hno | ⟨hp, hlt, hprint⟩)
      · exact absurd hfd hno
      · exact assembles_of_placed hfd hp hlt hprint
  · -- on another descriptor nothing is done
    refine ⟨fun _ => Or.inl hfd, fun _ => ?_⟩
    have hrun := writev_of_fd hfd { s with events := [] }
    refine ⟨?_, ?_, ?_, ?_, ⟨-1, _, hrun, Or.inr rfl⟩⟩
    all_goals
      rw [hrun, final_ok]
      simp

/-! Two calls of the sample space: one for which there is no memory, and one whose vectors are the
same two gigabytes twice. -/

/-- A linear memory of two gigabytes, a heap and a shared buffer of four bytes. -/
def sampleSpace : AddressSpace where
  linear := 2 ^ 32
  linearSize := 2 ^ 31
  heap := 2 ^ 16
  heapSize := 2 ^ 16
  output := 2 ^ 20
  outputSize := 4
  linearSize_le := by norm_num
  outputSize_lt := by norm_num
  linear_heap := Or.inr (by norm_num)
  heap_output := Or.inl (by norm_num)

/-- A memory in which the bytes of a page count up. -/
def sampleMem : Mem := fun a => UInt8.ofNat (a % 256)

def starved : Call sampleSpace where
  fd := 1
  iov := [⟨2 ^ 32, 1⟩]
  osMalloc := none
  iovcnt_lt := by norm_num
  readable := by simp [sampleSpace]
  allocated := by simp

def oversized : Call sampleSpace where
  fd := 1
  iov := [⟨2 ^ 32, 2 ^ 31⟩, ⟨2 ^ 32, 2 ^ 31⟩]
  osMalloc := some (2 ^ 16)
  iovcnt_lt := by norm_num
  readable := by simp [sampleSpace]
  allocated := by simp [sampleSpace, nchars]

/-- A write for which there is no memory, and one of `2 ^ 32` bytes. -/
theorem starved_oversized_not_assembles :
    ¬ Assembles starved (vedliotSetOutputBuffer sampleSpace sampleMem)
      ∧ ¬ Assembles oversized (vedliotSetOutputBuffer sampleSpace sampleMem) := by
  refine ⟨not_assembles_of_not_placed (Or.inl rfl) ?_, not_assembles_of_large (Or.inl rfl) ?_ ?_⟩
  · intro hp
    exact absurd (hp rfl) (by decide)
  · intro hnone
    cases hnone
  · decide

/-! ## A run -/

/-- The runtime between two calls: its state, all that it was given to write, and whether it has
faulted. -/
structure Stdout where
  tz : Tz
  written : List UInt8
  stopped : Bool

/-- A call, and the memory as the module has left it. -/
structure Round (sp : AddressSpace) where
  call : Call sp
  memory : Mem

/-- Between two calls everything may change but the shared buffer. -/
def Tz.enter (sp : AddressSpace) (m : Mem) (s : Tz) : Tz :=
  { s with mem := fun a =>
      if sp.output ≤ a ∧ a < sp.output + sp.outputSize then s.mem a else m a }

def step (s : Stdout) (r : Round sp) : Option ℤ × Stdout :=
  if s.stopped then (none, s)
  else
    let t := s.tz.enter sp r.memory
    match writev r.call t with
    | .ok n t' => (some n, ⟨t', s.written ++ r.call.output t.mem, false⟩)
    | .error _ t' => (none, ⟨t', s.written ++ r.call.output t.mem, true⟩)

def start (sp : AddressSpace) (m : Mem) : Stdout := ⟨vedliotSetOutputBuffer sp m, [], false⟩

/-- The stores to the shared buffer, with their addresses. -/
def stores (es : List Event) : List (ℕ × List UInt8) :=
  es.filterMap fun
    | .store dst bytes => some (dst, bytes)
    | _ => none

/-- The bytes that were stored. -/
def Stdout.stored (s : Stdout) : List UInt8 := (stores s.tz.events).flatMap Prod.snd

/-- What the shared buffer should be: its bytes are what was stored, and a beginning of all that
was written; nothing was stored outside; what was stored and what remains add up; and there is a
byte that was not written. -/
structure OutputLaw (sp : AddressSpace) (s : Stdout) : Prop where
  content : s.stored <+: s.written
  inMemory : s.tz.mem.read sp.output s.stored.length = s.stored
  inside : ∀ p ∈ stores s.tz.events,
    sp.output ≤ p.1 ∧ p.1 + p.2.length ≤ sp.output + sp.outputSize
  balance : s.stored.length + s.tz.outputBufferSize = sp.outputSize
  spare : ∃ a, sp.output ≤ a ∧ a < sp.output + sp.outputSize ∧
    ∀ p ∈ stores s.tz.events, ¬ (p.1 ≤ a ∧ a < p.1 + p.2.length)

/-- The total of the call fits in 32 bits; and if the call is stored and not empty, then everything
before it was stored. -/
def InOrder (s : Stdout) (r : Round sp) : Prop :=
  total r.call.iov < 2 ^ 32 ∧
    (sp.outputSize - s.tz.outputBufferSize = s.written.length
      ∨ s.tz.outputBufferSize ≤ total r.call.iov ∨ total r.call.iov = 0)

/-! ### What a call does to the shared buffer -/

@[simp] lemma stores_append (es es' : List Event) : stores (es ++ es') = stores es ++ stores es' :=
  List.filterMap_append

lemma stores_of_copies {es : List Event} (h : ∀ e ∈ es, ∃ dst len, e = .copy dst len) :
    stores es = [] := by
  refine List.filterMap_eq_nil_iff.mpr fun e he => ?_
  obtain ⟨dst, len, rfl⟩ := h e he
  rfl

lemma stores_imsg (msg : List UInt8) : stores [imsg msg] = [] := by
  rw [imsg]
  split <;> rfl

/-- The addresses of the shared buffer. -/
def AddressSpace.shared (sp : AddressSpace) : Set ℕ := Mem.range sp.output sp.outputSize

/-- The shared buffer and the globals are as before. -/
structure Untouched (sp : AddressSpace) (s t : Tz) : Prop where
  mem : Mem.SameOn sp.shared t.mem s.mem
  outputBuffer : t.outputBuffer = s.outputBuffer
  outputBufferSize : t.outputBufferSize = s.outputBufferSize
  stores : stores t.events = stores s.events

/-- The bytes are appended to the shared buffer. -/
structure Appended (sp : AddressSpace) (s : Tz) (bytes : List UInt8) (t : Tz) : Prop where
  fits : bytes.length < s.outputBufferSize
  mem : ∃ m, Mem.SameOn sp.shared m s.mem ∧ t.mem = m.write s.outputBuffer bytes
  outputBuffer : t.outputBuffer = s.outputBuffer + bytes.length
  outputBufferSize : t.outputBufferSize = s.outputBufferSize - bytes.length
  stores : stores t.events = stores s.events ++ [(s.outputBuffer, bytes)]

lemma sameOn_assembled (c : Call sp) (s : Tz) (hp : c.Placed) (hlt : total c.iov < 2 ^ 32) :
    Mem.SameOn sp.shared (c.assembled s).mem s.mem := by
  rintro i ⟨hfrom, hto⟩
  refine Mem.write_of_notMem ?_
  rw [length_contents]
  rcases c.apart_output hp hlt with hzero | hapart
  · omega
  · rw [Apart] at hapart
    omega

lemma writev_shared (c : Call sp) (s : Tz) (hlt : total c.iov < 2 ^ 32) :
    Untouched sp s (final (writev c s)) ∨
      Appended sp s (c.output s.mem) (final (writev c s)) := by
  by_cases hfd : c.fd = 1 ∨ c.fd = 2
  · by_cases hp : c.Placed
    · have hnone : stores (s.events ++ copies c.iov c.buffer
          ++ [imsg (message (contents s.mem c.iov))]) = stores s.events := by
        rw [stores_append, stores_append, stores_of_copies fun e he => eq_copy_of_mem_copies he,
          stores_imsg, List.append_nil, List.append_nil]
      have hsame := sameOn_assembled c s hp hlt
      rw [writev_of_placed hfd hp hlt, final_ok, Tz.storeOutput]
      by_cases hfits : s.outputBufferSize > total c.iov
      · refine Or.inr ?_
        rw [Call.output, if_pos hfd]
        have hread := c.read_assembled s
        rw [if_pos (show ((c.assembled s).note
          (imsg (message (contents s.mem c.iov)))).outputBufferSize > total c.iov from hfits)]
        refine ⟨by rwa [length_contents], ⟨(c.assembled s).mem, hsame, ?_⟩, ?_, ?_, ?_⟩
        · exact congrArg ((c.assembled s).mem.write s.outputBuffer) hread
        · rw [length_contents]
          rfl
        · rw [length_contents]
          rfl
        · refine (stores_append _ _).trans (congrArg₂ _ hnone ?_)
          exact congrArg (fun l => [(s.outputBuffer, l)]) hread
      · refine Or.inl ?_
        rw [if_neg (show ¬ ((c.assembled s).note
          (imsg (message (contents s.mem c.iov)))).outputBufferSize > total c.iov from hfits)]
        exact ⟨hsame, rfl, rfl, hnone⟩
    · obtain ⟨es, hes, herr⟩ := writev_of_not_placed hfd hp s
      refine Or.inl ?_
      rw [herr, final_error]
      refine ⟨fun i _ => rfl, rfl, rfl, ?_⟩
      rw [stores_append, stores_of_copies hes, List.append_nil]
  · rw [writev_of_fd hfd, final_ok]
    exact Or.inl ⟨fun i _ => rfl, rfl, rfl, rfl⟩

/-! ### What holds along a run -/

/-- What the runtime keeps about its cursor, whatever it is given to write. -/
structure Tally (sp : AddressSpace) (s : Stdout) : Prop where
  cursor : s.tz.outputBuffer = sp.output + s.stored.length
  balance : s.stored.length + s.tz.outputBufferSize = sp.outputSize
  remains : 0 < s.tz.outputBufferSize
  inMemory : s.tz.mem.read sp.output s.stored.length = s.stored
  below : ∀ p ∈ stores s.tz.events, sp.output ≤ p.1 ∧ p.1 + p.2.length ≤ s.tz.outputBuffer

/-- The invariant of a run in order. -/
structure Orderly (sp : AddressSpace) (s : Stdout) : Prop where
  tally : Tally sp s
  content : s.stored <+: s.written

variable {s : Stdout}

lemma Orderly.outputLaw (h : Orderly sp s) : OutputLaw sp s := by
  have hcursor := h.tally.cursor
  have hbalance := h.tally.balance
  have hremains := h.tally.remains
  refine ⟨h.content, h.tally.inMemory, fun p hp => ?_, hbalance,
    s.tz.outputBuffer, by omega, by omega, fun p hp hin => ?_⟩
  · have hbelow := h.tally.below p hp
    omega
  · have hbelow := h.tally.below p hp
    omega

lemma orderly_start (sp : AddressSpace) (m : Mem) (h : 0 < sp.outputSize) :
    Orderly sp (start sp m) := by
  refine ⟨⟨rfl, Nat.zero_add _, h, rfl, ?_⟩, List.nil_prefix⟩
  intro p hp
  exact absurd hp List.not_mem_nil

lemma step_eq (s : Stdout) (r : Round sp) (h : s.stopped = false) :
    (step s r).2.tz = final (writev r.call (s.tz.enter sp r.memory)) ∧
      (step s r).2.written
        = s.written ++ r.call.output (s.tz.enter sp r.memory).mem := by
  rw [step, if_neg (by simp [h])]
  dsimp only
  cases writev r.call (s.tz.enter sp r.memory) <;> exact ⟨rfl, rfl⟩

lemma sameOn_enter (s : Tz) (m : Mem) : Mem.SameOn sp.shared (s.enter sp m).mem s.mem :=
  fun _ hi => if_pos hi

lemma shared_of_le {n : ℕ} (h : n ≤ sp.outputSize) : Mem.range sp.output n ⊆ sp.shared := by
  rintro i ⟨hfrom, hto⟩
  exact ⟨hfrom, by omega⟩

variable {s' : Stdout}

/-- A step that leaves the shared buffer alone only adds to what was written. -/
lemma Orderly.of_untouched (h : Orderly sp s) (hu : Untouched sp s.tz s'.tz)
    (hw : s.written <+: s'.written) : Orderly sp s' := by
  have hstored : s'.stored = s.stored := congrArg (List.flatMap Prod.snd) hu.stores
  obtain ⟨hcursor, hbalance, hremains, hmem, hbelow⟩ := h.tally
  refine ⟨⟨?_, ?_, ?_, ?_, ?_⟩, ?_⟩
  · rw [hu.outputBuffer, hstored, hcursor]
  · rw [hu.outputBufferSize, hstored, hbalance]
  · rwa [hu.outputBufferSize]
  · rw [hstored, hu.mem.read (shared_of_le (by omega)), hmem]
  · rw [hu.stores, hu.outputBuffer]
    exact hbelow
  · rw [hstored]
    exact h.content.trans hw

lemma Orderly.of_appended (h : Orderly sp s) (ha : Appended sp s.tz bytes s'.tz)
    (hw : s'.written = s.written ++ bytes) (hin : s.stored.length = s.written.length ∨ bytes = []) :
    Orderly sp s' := by
  have hstored : s'.stored = s.stored ++ bytes := by
    rw [Stdout.stored, ha.stores, List.flatMap_append, ← Stdout.stored]
    simp
  have hfits := ha.fits
  obtain ⟨hcursor, hbalance, hremains, hmem, hbelow⟩ := h.tally
  refine ⟨⟨?_, ?_, ?_, ?_, ?_⟩, ?_⟩
  · rw [ha.outputBuffer, hstored, hcursor, List.length_append, Nat.add_assoc]
  · rw [ha.outputBufferSize, hstored, List.length_append]
    omega
  · rw [ha.outputBufferSize]
    omega
  · -- the new bytes stand behind the old ones
    obtain ⟨m, hsame, hwrite⟩ := ha.mem
    rw [hstored, List.length_append, Mem.read_add, hwrite, hcursor, Mem.read_write,
      Mem.read_write_of_disjoint (Or.inl le_rfl), hsame.read (shared_of_le (by omega)), hmem]
  · intro p hp
    rw [ha.stores] at hp
    rw [ha.outputBuffer]
    rcases List.mem_append.mp hp with hp | hp
    · have hold := hbelow p hp
      omega
    · obtain rfl := List.mem_singleton.mp hp
      exact ⟨by rw [hcursor]; exact Nat.le_add_right _ _, le_rfl⟩
  · rw [hstored, hw]
    rcases hin with hall | rfl
    · rw [h.content.eq_of_length hall]
    · rw [List.append_nil, List.append_nil]
      exact h.content

lemma orderly_step (s : Stdout) (r : Round sp) (h : Orderly sp s) (hin : InOrder s r) :
    Orderly sp (step s r).2 := by
  cases hstop : s.stopped with
  | true =>
    rw [step, if_pos hstop]
    exact h
  | false =>
    obtain ⟨htz, hwritten⟩ := step_eq s r hstop
    have hsame : Mem.SameOn sp.shared (s.tz.enter sp r.memory).mem s.tz.mem := sameOn_enter _ _
    -- entering the call is a step of its own that leaves the shared buffer alone
    have hentered : Orderly sp { s with tz := s.tz.enter sp r.memory } :=
      h.of_untouched ⟨hsame, rfl, rfl, rfl⟩ (List.prefix_refl _)
    rcases writev_shared r.call (s.tz.enter sp r.memory) hin.1 with hu | ha
    · refine hentered.of_untouched (by rwa [htz]) ?_
      rw [hwritten]
      exact List.prefix_append _ _
    · refine hentered.of_appended (by rwa [htz]) hwritten ?_
      by_cases hfd : r.call.fd = 1 ∨ r.call.fd = 2
      · have hlen : (r.call.output (s.tz.enter sp r.memory).mem).length = total r.call.iov := by
          rw [Call.output, if_pos hfd, length_contents]
        have hfits : total r.call.iov < s.tz.outputBufferSize := hlen ▸ ha.fits
        have hbalance := h.tally.balance
        rcases hin.2 with hall | hfull | hempty
        · refine Or.inl (show s.stored.length = s.written.length from ?_)
          omega
        · omega
        · exact Or.inr (List.eq_nil_of_length_eq_zero (hlen.trans hempty))
      · refine Or.inr ?_
        rw [Call.output, if_neg hfd]

/-- **What the shared buffer holds.**  Over every run whose calls come in order, whatever else they
do, the shared buffer holds a beginning of all that the module has written, nothing is stored
outside of it, what is stored and what remains add up, and at least one byte of it stays free. -/
theorem outputLaw_of_inOrder (sp : AddressSpace) (m : Mem) (rounds : List (Round sp))
    (hsize : 0 < sp.outputSize)
    (h : ∀ e ∈ history step (start sp m) rounds, InOrder e.before e.input) :
    OutputLaw sp (finalState step (start sp m) rounds) :=
  (invariant_finalState orderly_step (orderly_start sp m hsize) h).outputLaw

/-- A call that writes the `n` bytes from an offset of the linear memory on. -/
def writes (offset n : ℕ) (h : offset + n ≤ 256) : Round sampleSpace where
  call :=
    { fd := 1
      iov := [⟨2 ^ 32 + offset, n⟩]
      osMalloc := some (2 ^ 16)
      iovcnt_lt := by norm_num
      readable := by
        intro v hv
        obtain rfl := List.mem_singleton.mp hv
        simp only [sampleSpace]
        omega
      allocated := by
        intro a ha
        obtain rfl := Option.some.inj ha
        simp only [sampleSpace, nchars, List.foldl_cons, List.foldl_nil]
        omega }
  memory := sampleMem

/-- Two bytes, one more, and five that no longer fit. -/
def sampleRounds : List (Round sampleSpace) :=
  [writes 1 2 (by norm_num), writes 7 1 (by norm_num), writes 0 5 (by norm_num)]

/-- The first two of three rounds are stored, and the last one does not fit. -/
theorem outputLaw_of_inOrder_sample :
    OutputLaw sampleSpace (finalState step (start sampleSpace sampleMem) sampleRounds)
      ∧ (finalState step (start sampleSpace sampleMem) sampleRounds).stored = [1, 2, 7] := by
  refine ⟨outputLaw_of_inOrder sampleSpace sampleMem _ (by decide) ?_, by decide⟩
  refine List.forall_mem_cons.mpr ⟨⟨by decide, Or.inl (by decide)⟩, ?_⟩
  refine List.forall_mem_cons.mpr ⟨⟨by decide, Or.inl (by decide)⟩, ?_⟩
  exact List.forall_mem_singleton.mpr ⟨by decide, Or.inl (by decide)⟩

/-- Five bytes do not fit and are left out; the two bytes that follow are stored. -/
theorem later_write_stored :
    ¬ OutputLaw sampleSpace (finalState step (start sampleSpace sampleMem)
      [writes 0 5 (by norm_num), writes 1 2 (by norm_num)]) := by
  intro h
  exact absurd h.content (by decide)

/-! ## The coarser model -/

/-- The call as the model of the shared buffers has it. -/
def Call.toWritev (c : Call sp) (m : Mem) : Attester.Writev :=
  ⟨c.fd.toNat, c.iov.map fun v => m.read v.iovBase v.iovLen, c.osMalloc.isSome⟩

/-- The globals, with the cursor counted from the start of the shared buffer. -/
structure Matches (sp : AddressSpace) (s : Tz) (p : Progress) : Prop where
  outputBuffer : s.outputBuffer = sp.output + p.outputBuffer
  outputBufferSize : s.outputBufferSize = p.outputBufferSize

lemma Matches.storeOutput {s : Tz} (h : Matches sp s p) (n b : ℕ) :
    Matches sp (s.storeOutput n b) (p.print n) := by
  rw [Tz.storeOutput, Progress.print, h.outputBufferSize]
  split_ifs
  · exact ⟨by rw [h.outputBuffer, Nat.add_assoc], rfl⟩
  · exact h

lemma Call.length_toWritev (c : Call sp) (m : Mem) :
    ((c.toWritev m).iov.map List.length).sum = total c.iov := by
  rw [toWritev, List.map_map, total]
  exact congrArg List.sum (List.map_congr_left fun v _ => Mem.read_length)

/-- A call that is not stopped leaves the globals to the end, also where its vectors go past the
block. -/
lemma writev_eq_ok (hfd : c.fd = 1 ∨ c.fd = 2) (hp : c.Placed) (s : Tz) :
    ∃ t : Tz, writev c s = .ok (total c.iov : ℤ) (t.storeOutput (total c.iov) c.buffer)
      ∧ t.outputBuffer = s.outputBuffer ∧ t.outputBufferSize = s.outputBufferSize := by
  obtain ⟨m, hm⟩ := assemble_eq_ok c.iov c.buffer s hp
  rw [writev, if_pos hfd, bind_of_ok hm, run_modify_bind, run_modify_bind, c.nchars_eq]
  exact ⟨_, rfl, rfl, rfl⟩

/-- The calls of the two models end the same way, with the same globals. -/
lemma writev_matches (c : Call sp) {s : Tz} (h : Matches sp s p) :
    (∃ n t q, writev c s = .ok n t ∧ Attester.writev (c.toWritev s.mem) p = .ok () q
        ∧ Matches sp t q)
      ∨ ∃ t q, writev c s = .error .panic t
        ∧ Attester.writev (c.toWritev s.mem) p = .error .panic q ∧ Matches sp t q := by
  have hfd' : (c.fd = 1 ∨ c.fd = 2) ↔ (c.toWritev s.mem).fd = 1 ∨ (c.toWritev s.mem).fd = 2 := by
    simp only [Call.toWritev]
    omega
  by_cases hfd : c.fd = 1 ∨ c.fd = 2
  · rw [Attester.writev, if_pos (hfd'.mp hfd), c.length_toWritev]
    by_cases hp : c.Placed
    · have hgo : ¬ ((c.toWritev s.mem).osMalloc = false ∧ total c.iov ≠ 0) := by
        rintro ⟨hnone, hne⟩
        exact hne (hp (Option.isNone_iff_eq_none.mp (by simpa [Call.toWritev] using hnone)))
      obtain ⟨t, hrun, hbuffer, hsize⟩ := writev_eq_ok hfd hp s
      have ht : Matches sp t p :=
        ⟨hbuffer.trans h.outputBuffer, hsize.trans h.outputBufferSize⟩
      rw [failIf_of_neg hgo]
      exact Or.inl ⟨_, _, _, hrun, rfl, ht.storeOutput _ _⟩
    · obtain ⟨es, -, herr⟩ := writev_of_not_placed hfd hp s
      rw [Call.Placed, Classical.not_imp] at hp
      refine Or.inr ⟨_, p, herr, bind_of_error (failIf_of_pos ⟨?_, hp.2⟩), ?_⟩
      · rw [Call.toWritev, hp.1]
        rfl
      · exact ⟨h.outputBuffer, h.outputBufferSize⟩
  · rw [Attester.writev, if_neg (mt hfd'.mpr hfd)]
    exact Or.inl ⟨_, _, _, writev_of_fd hfd s, rfl, h⟩

/-- The calls of a run as the model of the shared buffers has them. -/
def writevsOf : Stdout → List (Round sp) → List Attester.Writev
  | _, [] => []
  | s, r :: rounds =>
    r.call.toWritev (s.tz.enter sp r.memory).mem :: writevsOf (step s r).2 rounds

lemma finalState_of_stopped (h : s.stopped = true) (rounds : List (Round sp)) :
    finalState step s rounds = s := by
  induction rounds with
  | nil => rfl
  | cons r rounds ih => rw [finalState, step, if_pos h, ih]

/-- **The two models of the output agree.**  In every run, the calls move the cursor of the shared
buffer in the same way in both, and one of them faults in both or in none. -/
theorem writevs_matches (rounds : List (Round sp)) (s : Stdout) (p : Progress)
    (hs : s.stopped = false) (h : Matches sp s.tz p) :
    ∃ q, Matches sp (finalState step s rounds).tz q ∧ Attester.writevs (writevsOf s rounds) p
      = if (finalState step s rounds).stopped = true then .error .panic q else .ok () q := by
  induction rounds generalizing s p with
  | nil => exact ⟨p, h, by rw [finalState, hs]; rfl⟩
  | cons r rounds ih =>
    have hentered : Matches sp (s.tz.enter sp r.memory) p := ⟨h.outputBuffer, h.outputBufferSize⟩
    rw [finalState, writevsOf, Attester.writevs]
    rcases writev_matches r.call hentered with
      ⟨n, t, q, hfine, hcoarse, hq⟩ | ⟨t, q, hfine, hcoarse, hq⟩
    · have hstep : (step s r).2
          = ⟨t, s.written ++ r.call.output (s.tz.enter sp r.memory).mem, false⟩ := by
        simp only [step, hs, hfine, Bool.false_eq_true, if_false]
      rw [bind_of_ok hcoarse, hstep]
      exact ih _ q rfl hq
    · have hstep : (step s r).2
          = ⟨t, s.written ++ r.call.output (s.tz.enter sp r.memory).mem, true⟩ := by
        simp only [step, hs, hfine, Bool.false_eq_true, if_false]
      rw [bind_of_error hcoarse, hstep, finalState_of_stopped rfl]
      exact ⟨q, hq, rfl⟩

/-- The calls of the sample run, and then one that gets no memory and faults. -/
theorem writevs_matches_sample : ∃ q,
    Matches sampleSpace (finalState step (start sampleSpace sampleMem)
        (sampleRounds ++ [⟨starved, sampleMem⟩])).tz q
      ∧ Attester.writevs (writevsOf (start sampleSpace sampleMem)
          (sampleRounds ++ [⟨starved, sampleMem⟩]))
          { Progress.start (fun _ => 0) with outputBufferSize := 4 } = .error .panic q := by
  obtain ⟨q, hq, hrun⟩ := writevs_matches (sampleRounds ++ [⟨starved, sampleMem⟩])
    (start sampleSpace sampleMem) { Progress.start (fun _ => 0) with outputBufferSize := 4 }
    rfl ⟨rfl, rfl⟩
  rw [if_pos (by decide)] at hrun
  exact ⟨q, hq, hrun⟩

end Watz.Attester.Output
