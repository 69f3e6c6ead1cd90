import Watz.Attester.Spec

/-!
# Receiving from the socket

The loop of `receive_socket_per_chunk` asks each time for as many bytes as the last `recv` has
returned, whatever space is left in the buffer.  This module says where the bytes go, for which
sequences of results they stay in the buffer, and what the parser of `msg3` may then rely on.
-/

namespace Watz.Attester

open Lib
open List (append_assoc append_nil cons_append flatten_cons length_append map_cons nil_prefix
  prefix_append replicate take_of_length_le)

/-! ## The stores of the loop -/

/-- The bytes a call of `recv` has put into the buffer, at an offset from its beginning. -/
structure Store where
  offset : ℕ
  bytes : List UInt8
deriving DecidableEq, Repr

/-- What `receive_socket_per_chunk` has done: its stores, and its result with
`transfered_data_out`. -/
structure Transfer where
  stores : List Store
  result : Except Stop ℕ

/-- `receive_socket_per_chunk` from any state of its loop, `cursor` being the distance of
`data_cursor` from `data`. -/
def transferPerChunk (dataSize : ℕ) :
    List (Except Stop (List UInt8)) → ℕ → ℕ → ℕ → Transfer
  | [], _, _, transfered => ⟨[], .ok transfered⟩
  | recv :: rest, chunkSize, cursor, transfered =>
    if 0 < chunkSize ∧ transfered < dataSize then
      if dataSize < transfered then ⟨[], .error (.error .shortBuffer)⟩
      else
        match recv with
        | .error stop => ⟨[], .error stop⟩
        | .ok bs =>
          let t := transferPerChunk dataSize rest bs.length (cursor + bs.length)
            ((transfered + bs.length) % 2 ^ 32)
          ⟨⟨cursor, bs⟩ :: t.stores, t.result⟩
    else ⟨[], .ok transfered⟩

/-- Each `recv` returns at most as many bytes as it was asked for. -/
def Admissible : ℕ → List (List UInt8) → Prop
  | _, [] => True
  | chunkSize, bs :: rest => bs.length ≤ chunkSize ∧ Admissible bs.length rest

instance : ∀ chunkSize pieces, Decidable (Admissible chunkSize pieces)
  | _, [] => isTrue trivial
  | chunkSize, bs :: rest =>
    have := instDecidableAdmissible bs.length rest
    inferInstanceAs (Decidable (bs.length ≤ chunkSize ∧ Admissible bs.length rest))

/-- The stores lie one behind the other, from an offset on. -/
def Consecutive : ℕ → List Store → Prop
  | _, [] => True
  | offset, st :: rest => st.offset = offset ∧ Consecutive (offset + st.bytes.length) rest

/-- The bytes stored, in the order in which they lie in the buffer. -/
def Transfer.bytes (t : Transfer) : List UInt8 := (t.stores.map Store.bytes).flatten

/-- Every byte is stored at an offset below the size of the buffer. -/
def Transfer.InBuffer (t : Transfer) (dataSize : ℕ) : Prop :=
  ∀ st ∈ t.stores, ∀ i < st.bytes.length, st.offset + i < dataSize

/-- The stores stay in the buffer, the reported size is that of what has been stored and not above
that of the buffer, and the buffer holds a prefix of the stream. -/
structure Transfer.Sound (t : Transfer) (dataSize : ℕ) (stream : List UInt8) : Prop where
  inBuffer : t.InBuffer dataSize
  reported : ∀ n, t.result = .ok n → n = t.bytes.length ∧ n ≤ dataSize
  consecutive : Consecutive 0 t.stores
  isPrefix : t.bytes <+: stream

/-- As long as the results before have left space and the peer has not closed the connection, the
next result fits into the space left. -/
def FitsFrom (dataSize : ℕ) (pieces : List (List UInt8)) (transfered : ℕ) : Prop :=
  ∀ earlier bs, earlier ++ [bs] <+: pieces → [] ∉ earlier →
    transfered + earlier.flatten.length < dataSize →
      transfered + earlier.flatten.length + bs.length ≤ dataSize

variable {chunkSize : ℕ} {inbox : List (Except Stop (List UInt8))} {data : List UInt8}

section

variable {dataSize : ℕ} {pieces : List (List UInt8)}

lemma fitsFrom_nil (transfered : ℕ) : FitsFrom dataSize [] transfered := by
  intro earlier bs hbegin
  simp at hbegin

variable {bs : List UInt8} {transfered : ℕ}

lemma fitsFrom_cons (h : transfered < dataSize) :
    FitsFrom dataSize (bs :: pieces) transfered ↔
      transfered + bs.length ≤ dataSize
        ∧ (bs ≠ [] → FitsFrom dataSize pieces (transfered + bs.length)) := by
  constructor
  · intro hfits
    refine ⟨?_, fun hne earlier next hbegin hmem hlt => ?_⟩
    · have hfirst := hfits [] bs (by simp) (by simp)
      simpa using hfirst (by simpa using h)
    · have hnext := hfits (bs :: earlier) next (by simpa using hbegin) (by simp [hmem, Ne.symm hne])
      simp only [flatten_cons, length_append] at hnext
      have := hnext (by omega)
      omega
  · rintro ⟨hfirst, hrest⟩ earlier next hbegin hmem hlt
    cases earlier with
    | nil =>
      obtain ⟨rfl, -⟩ := List.cons_prefix_cons.mp hbegin
      simpa using hfirst
    | cons first earlier =>
      obtain ⟨rfl, htail⟩ := List.cons_prefix_cons.mp hbegin
      have hne : first ≠ [] := fun h => hmem (by rw [h]; exact List.mem_cons_self)
      simp only [flatten_cons, length_append] at hlt ⊢
      have := hrest hne earlier next htail (fun h => hmem (List.mem_cons_of_mem _ h)) (by omega)
      omega

/-! ## Where the bytes go -/

lemma transferPerChunk_stop {cursor : ℕ} (h : ¬ (0 < chunkSize ∧ transfered < dataSize)) :
    transferPerChunk dataSize inbox chunkSize cursor transfered = ⟨[], .ok transfered⟩ := by
  cases inbox with
  | nil => rfl
  | cons recv rest => cases recv <;> rw [transferPerChunk, if_neg h]

lemma transferPerChunk_ok {cursor : ℕ} (h : 0 < chunkSize ∧ transfered < dataSize) :
    transferPerChunk dataSize (.ok bs :: inbox) chunkSize cursor transfered =
      ⟨⟨cursor, bs⟩ :: (transferPerChunk dataSize inbox bs.length (cursor + bs.length)
          ((transfered + bs.length) % 2 ^ 32)).stores,
        (transferPerChunk dataSize inbox bs.length (cursor + bs.length)
          ((transfered + bs.length) % 2 ^ 32)).result⟩ := by
  rw [transferPerChunk, if_pos h, if_neg (by omega)]

lemma consecutive_transferPerChunk (dataSize : ℕ) (pieces : List (List UInt8))
    (chunkSize cursor transfered : ℕ) :
    Consecutive cursor
        (transferPerChunk dataSize (pieces.map .ok) chunkSize cursor transfered).stores
      ∧ (transferPerChunk dataSize (pieces.map .ok) chunkSize cursor transfered).bytes
        <+: pieces.flatten := by
  induction pieces generalizing chunkSize cursor transfered with
  | nil => exact ⟨trivial, List.prefix_rfl⟩
  | cons bs pieces ih =>
    by_cases h : 0 < chunkSize ∧ transfered < dataSize
    · obtain ⟨hconsecutive, hbegin⟩ := ih bs.length (cursor + bs.length)
        ((transfered + bs.length) % 2 ^ 32)
      rw [map_cons, transferPerChunk_ok h]
      exact ⟨⟨rfl, hconsecutive⟩, (List.prefix_append_right_inj bs).mpr hbegin⟩
    · rw [transferPerChunk_stop h]
      exact ⟨trivial, nil_prefix⟩

lemma inBuffer_transferPerChunk_iff (hsize : dataSize < 2 ^ 32)
    (hadm : Admissible chunkSize pieces) (hle : transfered ≤ dataSize) :
    (transferPerChunk dataSize (pieces.map .ok) chunkSize transfered transfered).InBuffer dataSize
      ↔ FitsFrom dataSize pieces transfered := by
  induction pieces generalizing chunkSize transfered with
  | nil => exact iff_of_true (fun _ h => nomatch h) (fitsFrom_nil transfered)
  | cons bs pieces ih =>
    obtain ⟨hbs, hadm⟩ := hadm
    by_cases h : 0 < chunkSize ∧ transfered < dataSize
    · rw [map_cons, transferPerChunk_ok h, fitsFrom_cons h.2, Transfer.InBuffer,
        List.forall_mem_cons]
      have hfirst : (∀ i < bs.length, transfered + i < dataSize)
          ↔ transfered + bs.length ≤ dataSize := by
        constructor
        · intro hall
          by_contra hover
          exact absurd (hall (dataSize - transfered) (by omega)) (by omega)
        · intro hle i hi
          omega
      rw [hfirst]
      refine and_congr_right fun hle' => ?_
      rw [Nat.mod_eq_of_lt (by omega)]
      rcases eq_or_ne bs [] with rfl | hne
      · rw [transferPerChunk_stop (by simp)]
        exact iff_of_true (fun _ h => nomatch h) (fun h => absurd rfl h)
      · rw [imp_iff_right hne]
        exact ih hadm hle'
    · rw [transferPerChunk_stop h]
      refine iff_of_true (fun _ h => nomatch h) ?_
      by_cases hlt : transfered < dataSize
      · -- nothing was asked for, so nothing has come
        obtain rfl : bs = [] := List.length_eq_zero_iff.mp (by omega)
        exact (fitsFrom_cons hlt).mpr ⟨hle, fun h => absurd rfl h⟩
      · intro earlier next _ _ hspace
        omega

/-- The results of `recv` before one fails. -/
def delivered : List (Except Stop (List UInt8)) → List (List UInt8)
  | .ok bs :: rest => bs :: delivered rest
  | _ => []

lemma inBuffer_of_fitsFrom (hsize : dataSize < 2 ^ 32)
    (hfits : FitsFrom dataSize (delivered inbox) transfered) :
    (transferPerChunk dataSize inbox chunkSize transfered transfered).InBuffer dataSize := by
  induction inbox generalizing chunkSize transfered with
  | nil => exact fun _ h => nomatch h
  | cons recv inbox ih =>
    by_cases h : 0 < chunkSize ∧ transfered < dataSize
    · cases recv with
      | error stop =>
        rw [transferPerChunk, if_pos h, if_neg (by omega)]
        exact fun _ h => nomatch h
      | ok bs =>
        obtain ⟨hle, hrest⟩ := (fitsFrom_cons h.2).mp hfits
        rw [transferPerChunk_ok h, Nat.mod_eq_of_lt (by omega), Transfer.InBuffer,
          List.forall_mem_cons]
        refine ⟨fun i hi => by dsimp only at hi ⊢; omega, ?_⟩
        rcases eq_or_ne bs [] with rfl | hne
        · rw [transferPerChunk_stop (by simp)]
          exact fun _ h => nomatch h
        · exact ih (hrest hne)
    · rw [transferPerChunk_stop h]
      exact fun _ h => nomatch h

lemma result_transferPerChunk (hsize : dataSize < 2 ^ 32) {n : ℕ}
    (hfits : FitsFrom dataSize pieces transfered) (hle : transfered ≤ dataSize)
    (hn : (transferPerChunk dataSize (pieces.map .ok) chunkSize transfered transfered).result
      = .ok n) :
    n = transfered + (transferPerChunk dataSize (pieces.map .ok) chunkSize transfered
        transfered).bytes.length
      ∧ n ≤ dataSize := by
  induction pieces generalizing chunkSize transfered with
  | nil =>
    cases hn
    exact ⟨rfl, hle⟩
  | cons bs pieces ih =>
    by_cases h : 0 < chunkSize ∧ transfered < dataSize
    · obtain ⟨hle', hrest⟩ := (fitsFrom_cons h.2).mp hfits
      rw [map_cons, transferPerChunk_ok h, Nat.mod_eq_of_lt (by omega)] at hn ⊢
      rcases eq_or_ne bs [] with rfl | hne
      · rw [transferPerChunk_stop (by simp)] at hn ⊢
        cases hn
        exact ⟨rfl, hle'⟩
      · obtain ⟨hlen, hn⟩ := ih (hrest hne) hle' hn
        refine ⟨hlen.trans ?_, hn⟩
        simp only [Transfer.bytes, map_cons, flatten_cons, length_append]
        omega
    · rw [transferPerChunk_stop h] at hn ⊢
      cases hn
      exact ⟨rfl, hle⟩

lemma sound_transferPerChunk_iff (hsize : dataSize < 2 ^ 32) (hadm : Admissible chunkSize pieces) :
    (transferPerChunk dataSize (pieces.map .ok) chunkSize 0 0).Sound dataSize pieces.flatten
      ↔ FitsFrom dataSize pieces 0 := by
  have hbuffer := inBuffer_transferPerChunk_iff hsize hadm (Nat.zero_le dataSize)
  obtain ⟨hconsecutive, hbegin⟩ :=
    consecutive_transferPerChunk dataSize pieces chunkSize 0 0
  constructor
  · intro hsound
    exact hbuffer.mp hsound.inBuffer
  · intro hfits
    refine ⟨hbuffer.mpr hfits, fun n hn => ?_, hconsecutive, hbegin⟩
    simpa using result_transferPerChunk hsize hfits (Nat.zero_le _) hn

/-! ## The sizes for which nothing can go wrong -/

/-- The results before a result are at least as long, and none is longer than the first
request. -/
lemma Admissible.length_le {earlier later : List (List UInt8)}
    (h : Admissible chunkSize (earlier ++ bs :: later)) :
    bs.length ≤ chunkSize ∧ ∀ x ∈ earlier, bs.length ≤ x.length ∧ x.length ≤ chunkSize := by
  induction earlier generalizing chunkSize with
  | nil => exact ⟨h.1, fun _ h => nomatch h⟩
  | cons first earlier ih =>
    obtain ⟨hfirst, hrest⟩ := h
    obtain ⟨hbs, hearlier⟩ := ih hrest
    refine ⟨hbs.trans hfirst, List.forall_mem_cons.mpr ⟨⟨hbs, hfirst⟩, fun x hx => ?_⟩⟩
    exact ⟨(hearlier x hx).1, (hearlier x hx).2.trans hfirst⟩

lemma admissible_replicate (h : bs.length ≤ chunkSize) (m : ℕ) :
    Admissible chunkSize (replicate m bs) := by
  induction m generalizing chunkSize with
  | zero => trivial
  | succ m ih => exact ⟨h, ih le_rfl⟩

lemma flatten_length_of_forall {l : List (List UInt8)} {k : ℕ} (h : ∀ x ∈ l, x.length = k) :
    l.flatten.length = l.length * k := by
  rw [List.length_flatten, List.sum_eq_card_nsmul _ k (by simpa using h), List.length_map,
    smul_eq_mul]

/-- The sizes for which the results of every peer fit. -/
def AlwaysFits (chunkSize dataSize : ℕ) : Prop :=
  dataSize = 0 ∨ chunkSize ≤ 1 ∨ (chunkSize = 2 ∧ 2 ∣ dataSize)

lemma AlwaysFits.fitsFrom (h : AlwaysFits chunkSize dataSize) (hadm : Admissible chunkSize pieces) :
    FitsFrom dataSize pieces 0 := by
  rintro earlier bs ⟨later, rfl⟩ - hlt
  rw [append_assoc, List.singleton_append] at hadm
  obtain ⟨hbs, hearlier⟩ := hadm.length_le
  rw [Nat.zero_add] at hlt ⊢
  rcases h with rfl | hone | ⟨rfl, heven⟩
  · omega
  · omega
  · -- before a result of two bytes all results were of two bytes
    rcases (by omega : bs.length = 2 ∨ bs.length ≤ 1) with htwo | hshort
    · have hlen := flatten_length_of_forall (k := 2) fun x hx =>
        le_antisymm (hearlier x hx).2 (htwo ▸ (hearlier x hx).1)
      omega
    · omega

lemma not_fitsFrom_concat {earlier : List (List UInt8)} (hne : [] ∉ earlier)
    (hlt : earlier.flatten.length < dataSize)
    (hover : dataSize < earlier.flatten.length + bs.length) :
    ¬ FitsFrom dataSize (earlier ++ [bs]) 0 := by
  intro hfits
  have hle := hfits earlier bs List.prefix_rfl hne (by omega)
  omega

/-- For all other sizes a peer can bring the loop to one byte before the end of the buffer and
then deliver two or three bytes. -/
lemma exists_not_fitsFrom (h : ¬ AlwaysFits chunkSize dataSize) :
    ∃ pieces, Admissible chunkSize pieces ∧ ¬ FitsFrom dataSize pieces 0 := by
  have hpos : dataSize ≠ 0 := fun h0 => h (.inl h0)
  have hchunk : 2 ≤ chunkSize := by
    by_contra hc
    exact h (.inr (.inl (by omega)))
  rcases Nat.even_or_odd' dataSize with ⟨k, hk | hk⟩
  · have hthree : 3 ≤ chunkSize := by
      by_contra hc
      exact h (.inr (.inr ⟨by omega, ⟨k, hk⟩⟩))
    obtain ⟨j, rfl | rfl⟩ : ∃ j, k = 1 ∨ k = j + 2 := ⟨k - 2, by omega⟩
    · exact ⟨[] ++ [[0, 0, 0]], by simpa [Admissible] using hthree, not_fitsFrom_concat (by simp)
        (by simp [hk]) (by simp [hk])⟩
    · refine ⟨[0, 0, 0] :: replicate j [0, 0] ++ [[0, 0]], ?_, not_fitsFrom_concat (by simp)
        (by simp; omega) (by simp; omega)⟩
      rw [cons_append, ← List.replicate_succ']
      exact ⟨hthree, admissible_replicate (by simp) _⟩
  · refine ⟨replicate k [0, 0] ++ [[0, 0]], ?_, not_fitsFrom_concat (by simp)
      (by simp; omega) (by simp; omega)⟩
    rw [← List.replicate_succ']
    exact admissible_replicate hchunk _

end

/-- For every chunk size and buffer size and all results of `recv`, the loop keeps to its buffer
exactly if the results fit into it one after the other.  So it does for every peer, only if there
is nothing to receive, one byte is asked for at a time, or two and the buffer is even. -/
theorem receive_inBuffer_iff (chunkSize dataSize : UInt32) :
    (∀ pieces, Admissible chunkSize.toNat pieces →
      ((transferPerChunk dataSize.toNat (pieces.map .ok) chunkSize.toNat 0 0).Sound dataSize.toNat
          pieces.flatten
        ↔ FitsFrom dataSize.toNat pieces 0))
      ∧ ((∀ pieces, Admissible chunkSize.toNat pieces →
          (transferPerChunk dataSize.toNat (pieces.map .ok) chunkSize.toNat 0 0).Sound
            dataSize.toNat pieces.flatten)
        ↔ AlwaysFits chunkSize.toNat dataSize.toNat) := by
  have hiff : ∀ pieces, Admissible chunkSize.toNat pieces →
      ((transferPerChunk dataSize.toNat (pieces.map .ok) chunkSize.toNat 0 0).Sound dataSize.toNat
          pieces.flatten
        ↔ FitsFrom dataSize.toNat pieces 0) :=
    fun pieces hadm => sound_transferPerChunk_iff dataSize.toNat_lt hadm
  refine ⟨hiff, fun hall => ?_, fun hsizes pieces hadm => ?_⟩
  · by_contra hsizes
    obtain ⟨pieces, hadm, hfits⟩ := exists_not_fitsFrom hsizes
    exact hfits ((hiff pieces hadm).mp (hall pieces hadm))
  · exact (hiff pieces hadm).mpr (hsizes.fitsFrom hadm)

/-- A `msg1` in two pieces that fill its buffer. -/
theorem receive_inBuffer_msg1 :
    (transferPerChunk 224 ([replicate 112 1, replicate 112 2].map .ok) 224 0 0).Sound 224
      [replicate 112 1, replicate 112 2].flatten := by
  refine ((receive_inBuffer_iff 224 224).1 _ (by decide)).mpr ?_
  refine (fitsFrom_cons (by decide)).mpr ⟨by decide, fun _ => ?_⟩
  exact (fitsFrom_cons (by decide)).mpr ⟨by decide, fun _ => fitsFrom_nil _⟩

/-- `receive_msg3` for an empty secret, with a peer that sends one byte too much: the byte is
stored behind the buffer of 68 bytes. -/
theorem receive_msg3_overruns :
    Admissible (256 * 1024) [replicate 69 7]
      ∧ ¬ (transferPerChunk 68 ([replicate 69 7].map .ok) (256 * 1024) 0 0).Sound 68
        [replicate 69 7].flatten := by
  refine ⟨by decide, fun hsound => ?_⟩
  have hstore := hsound.inBuffer ⟨0, replicate 69 7⟩ (by decide) 68 (by decide)
  exact absurd hstore (by decide)

/-! ## What has been received -/

section

variable {dataSize : ℕ} {pieces : List (List UInt8)}

lemma receiveSocketPerChunk_full (h : dataSize ≤ data.length) :
    receiveSocketPerChunk inbox chunkSize dataSize data = .ok data := by
  cases inbox with
  | nil => rfl
  | cons recv rest => cases recv <;> rw [receiveSocketPerChunk, if_neg (by omega)]

/-- What the attester takes for the received data are the bytes that the loop has stored, unless
the running total wraps around. -/
theorem receiveSocketPerChunk_eq_bytes {chunkSize : ℕ} {data : List UInt8}
    (hadm : Admissible chunkSize pieces) (hwrap : dataSize + chunkSize ≤ 2 ^ 32) :
    receiveSocketPerChunk (pieces.map .ok) chunkSize dataSize data
      = .ok (data ++ (transferPerChunk dataSize (pieces.map .ok) chunkSize data.length
          data.length).bytes) := by
  induction pieces generalizing chunkSize data with
  | nil => exact congrArg _ (append_nil _).symm
  | cons bs pieces ih =>
    obtain ⟨hbs, hadm⟩ := hadm
    by_cases h : 0 < chunkSize ∧ data.length < dataSize
    · rw [map_cons, receiveSocketPerChunk, if_pos h, take_of_length_le hbs,
        ih hadm (by omega), transferPerChunk_ok h, Nat.mod_eq_of_lt (by omega),
        length_append, append_assoc]
      rfl
    · rw [map_cons, receiveSocketPerChunk, if_neg h, transferPerChunk_stop h]
      exact congrArg _ (append_nil _).symm

/-- Two pieces that are shorter than a chunk. -/
theorem receiveSocketPerChunk_eq_bytes_sample :
    receiveSocketPerChunk ([[1, 2], [3]].map .ok) 4 16 []
      = .ok ([] ++ (transferPerChunk 16 ([[1, 2], [3]].map .ok) 4 0 0).bytes) :=
  receiveSocketPerChunk_eq_bytes (by decide) (by norm_num)

lemma receiveSocketPerChunk_prefix {received : List UInt8}
    (hadm : Admissible chunkSize (delivered inbox))
    (h : receiveSocketPerChunk inbox chunkSize dataSize data = .ok received) :
    received <+: data ++ (delivered inbox).flatten := by
  induction inbox generalizing chunkSize data with
  | nil =>
    cases h
    exact prefix_append _ _
  | cons recv inbox ih =>
    by_cases hgo : 0 < chunkSize ∧ data.length < dataSize
    · cases recv with
      | error stop =>
        rw [receiveSocketPerChunk, if_pos hgo] at h
        cases h
      | ok bs =>
        obtain ⟨hbs, hadm⟩ := hadm
        rw [receiveSocketPerChunk, if_pos hgo] at h
        rw [take_of_length_le hbs] at h
        rw [delivered, flatten_cons, ← append_assoc]
        exact ih hadm h
    · cases recv with
      | error stop =>
        rw [receiveSocketPerChunk, if_neg hgo] at h
        cases h
        exact prefix_append _ _
      | ok bs =>
        rw [receiveSocketPerChunk, if_neg hgo] at h
        cases h
        exact prefix_append _ _

lemma receiveSocketPerChunk_append (later : List (Except Stop (List UInt8))) (data : List UInt8)
    (hadm : Admissible chunkSize pieces) (hne : [] ∉ pieces) (hchunk : 0 < chunkSize)
    (hle : data.length + pieces.flatten.length ≤ dataSize) :
    ∃ chunk, 0 < chunk
      ∧ receiveSocketPerChunk (pieces.map .ok ++ later) chunkSize dataSize data
        = receiveSocketPerChunk later chunk dataSize (data ++ pieces.flatten) := by
  induction pieces generalizing chunkSize data with
  | nil => exact ⟨chunkSize, hchunk, by simp⟩
  | cons bs pieces ih =>
    obtain ⟨hbs, hadm⟩ := hadm
    have hpos : 0 < bs.length := List.length_pos_iff.mpr fun h => hne (by simp [h])
    rw [flatten_cons, length_append] at hle
    obtain ⟨chunk, hchunk', h⟩ := ih (data ++ bs) hadm (fun h => hne (by simp [h])) hpos
      (by rw [length_append]; omega)
    refine ⟨chunk, hchunk', ?_⟩
    rw [map_cons, cons_append, receiveSocketPerChunk, if_pos ⟨hchunk, by omega⟩,
      take_of_length_le hbs, h, flatten_cons, append_assoc]

lemma receiveSocketPerChunk_long (later : List (Except Stop (List UInt8))) (data : List UInt8)
    (hadm : Admissible chunkSize pieces) (hne : [] ∉ pieces)
    (hle : dataSize ≤ data.length + pieces.flatten.length) :
    ∃ received, received <+: pieces.flatten ∧ dataSize ≤ data.length + received.length
      ∧ receiveSocketPerChunk (pieces.map .ok ++ later) chunkSize dataSize data
        = .ok (data ++ received) := by
  induction pieces generalizing chunkSize data with
  | nil =>
    have hfull : dataSize ≤ data.length := by simpa using hle
    exact ⟨[], nil_prefix, by simpa using hfull,
      by rw [receiveSocketPerChunk_full hfull, append_nil]⟩
  | cons bs pieces ih =>
    obtain ⟨hbs, hadm⟩ := hadm
    have hpos : 0 < bs.length := List.length_pos_iff.mpr fun h => hne (by simp [h])
    rcases le_or_gt dataSize data.length with hfull | hlt
    · exact ⟨[], nil_prefix, by simpa using hfull,
        by rw [receiveSocketPerChunk_full hfull, append_nil]⟩
    · rw [flatten_cons, length_append] at hle
      obtain ⟨received, hbegin, hlen, h⟩ := ih (data ++ bs) hadm
        (fun h => hne (by simp [h])) (by rw [length_append]; omega)
      refine ⟨bs ++ received, (List.prefix_append_right_inj bs).mpr hbegin, ?_, ?_⟩
      · rw [length_append] at hlen ⊢
        omega
      · rw [map_cons, cons_append, receiveSocketPerChunk, if_pos ⟨by omega, hlt⟩,
          take_of_length_le hbs, h, append_assoc]

end

/-! ## The parser of `msg3` -/

/-- The peer delivers the pieces and then closes the connection, or a `recv` fails. -/
def inboxOf (pieces : List (List UInt8)) (failure : Option Stop) :
    List (Except Stop (List UInt8)) :=
  pieces.map .ok ++ (failure.map .error).toList

/-- The number of bytes the header of `msg3` announces; missing bytes count as zeros. -/
def announcedSize (memory : List UInt8) : ℕ :=
  (Msg3.layout.dec memory).encryptedContentSize.toNat

/-- If `ra_net_receive_data` succeeds, the header and the content that it has read lie within the
bytes received.  Nothing is known about the memory behind these bytes, and decryption is only
known to invert encryption. -/
def ParsesReceived (inbox : List (Except Stop (List UInt8))) (dataSize : ℕ) : Prop :=
  ∀ C : Crypto, C.DecryptEncrypt → ∀ (env : Env Fn) (rest : List UInt8) (s s' : State)
    (data : List UInt8), env.inbox = inbox → raNetReceiveData C env dataSize rest s = .ok data s' →
      Msg3.layout.size + announcedSize (s'.ctx.msg3 ++ rest) ≤ s'.ctx.msg3Size

/-- The stream is long enough for the content it announces, or it announces more than the caller
has room for. -/
def Complete (stream : List UInt8) (dataSize : ℕ) : Prop :=
  announcedSize stream ≤ dataSize → Msg3.layout.size + announcedSize stream ≤ stream.length

lemma announcedSize_eq (memory : List UInt8) :
    announcedSize memory = (ofLe32 (memory.drop 48)).toNat := by
  have hdrop : memory.drop 48 = (memory.drop 32).drop 16 := by rw [List.drop_drop]
  rw [hdrop]
  rfl

lemma announcedSize_le_append (memory rest : List UInt8) :
    announcedSize memory ≤ announcedSize (memory ++ rest) := by
  rw [announcedSize_eq, announcedSize_eq, List.drop_append]
  exact ofLe32_toNat_le_append _ _

lemma announcedSize_append_zeros (memory : List UInt8) (n : ℕ) :
    announcedSize (memory ++ replicate n 0) = announcedSize memory := by
  rw [announcedSize_eq, announcedSize_eq, List.drop_append, List.drop_replicate,
    ofLe32_append_zeros]

lemma announcedSize_append {memory : List UInt8} (h : 52 ≤ memory.length) (rest : List UInt8) :
    announcedSize (memory ++ rest) = announcedSize memory := by
  have htake : (memory ++ rest).take Msg3.layout.size = memory.take Msg3.layout.size :=
    List.take_append_of_le_length h
  rw [announcedSize, announcedSize, ← Msg3.layout.dec_take h, ← htake,
    Msg3.layout.dec_take (by rw [Msg3.layout_size, length_append]; omega)]

lemma Complete.le {stream rest : List UInt8} {dataSize : ℕ} (h : Complete stream dataSize)
    (hsize : announcedSize (stream ++ rest) ≤ dataSize) :
    Msg3.layout.size + announcedSize (stream ++ rest) ≤ stream.length := by
  have hle := h ((announcedSize_le_append stream rest).trans hsize)
  rw [announcedSize_append (by rw [Msg3.layout_size] at hle; omega)]
  exact hle

section

variable {pieces : List (List UInt8)} {failure : Option Stop} {dataSize : ℕ}

lemma receiveSocketPerChunk_inboxOf_short (hadm : Admissible (256 * 1024) pieces)
    (hne : [] ∉ pieces) (hlt : pieces.flatten.length < dataSize) :
    receiveSocketPerChunk (inboxOf pieces failure) (256 * 1024) dataSize []
      = failure.elim (.ok pieces.flatten) .error := by
  obtain ⟨chunk, hchunk, h⟩ := receiveSocketPerChunk_append (failure.map .error).toList [] hadm hne
    (by norm_num) (by simpa using hlt.le : [].length + pieces.flatten.length ≤ dataSize)
  rw [inboxOf, h, List.nil_append]
  cases failure with
  | none => rfl
  | some stop => exact if_pos ⟨hchunk, hlt⟩

lemma parsesReceived_of_complete (hadm : Admissible (256 * 1024) pieces) (hne : [] ∉ pieces)
    (hsize : dataSize < 2 ^ 32 - 68)
    (h : Complete pieces.flatten dataSize
      ∨ failure ≠ none ∧ pieces.flatten.length < Msg3.layout.size + dataSize + 16) :
    ParsesReceived (inboxOf pieces failure) dataSize := by
  intro C _ env rest s s' data hinbox hrun
  obtain ⟨-, msg3, hrecv, hdecrypt⟩ := raNetReceiveData_eq_ok.mp hrun
  obtain ⟨-, -, hroom, -, rfl⟩ := decryptMsg3_eq_ok.mp hdecrypt
  change announcedSize (msg3 ++ rest) ≤ dataSize at hroom
  change Msg3.layout.size + announcedSize (msg3 ++ rest) ≤ msg3.length
  rw [hinbox, Nat.mod_eq_of_lt (by omega)] at hrecv
  rcases lt_or_ge pieces.flatten.length (52 + dataSize + 16) with hshort | hlong
  · rw [receiveSocketPerChunk_inboxOf_short hadm hne hshort] at hrecv
    cases failure with
    | some stop => cases hrecv
    | none =>
      obtain rfl : pieces.flatten = msg3 := Except.ok.inj hrecv
      rcases h with hcomplete | ⟨hfail, -⟩
      · exact hcomplete.le hroom
      · exact absurd rfl hfail
  · obtain ⟨received, -, hlen, h'⟩ := receiveSocketPerChunk_long (failure.map .error).toList [] hadm
      hne (by simpa using hlong : 52 + dataSize + 16 ≤ [].length + pieces.flatten.length)
    rw [inboxOf, h'] at hrecv
    obtain rfl : received = msg3 := Except.ok.inj hrecv
    rw [List.length_nil] at hlen
    rw [Msg3.layout_size]
    omega

lemma raNetReceiveData_of_short {C : Crypto} {env : Env Fn} (henv : env.AllOk)
    (hinbox : env.inbox = inboxOf pieces none) (hadm : Admissible (256 * 1024) pieces)
    (hne : [] ∉ pieces) (hlt : pieces.flatten.length < (52 + dataSize + 16) % 2 ^ 32) {s : State}
    {k : Bytes 16} (hk : s.ctx.ecdhSharedSessionKey = .key k) {rest : List UInt8}
    (hmem : 52 + announcedSize (pieces.flatten ++ rest) ≤ (pieces.flatten ++ rest).length)
    (hroom : announcedSize (pieces.flatten ++ rest) ≤ dataSize)
    (hdecrypt : C.decrypt k (Msg3.layout.dec (pieces.flatten ++ rest)).iv
      (encryptedContent (pieces.flatten ++ rest)) (Msg3.layout.dec (pieces.flatten ++ rest)).tag
        = some data) :
    raNetReceiveData C env dataSize rest s = .ok data (s.withMsg3 pieces.flatten) := by
  refine raNetReceiveData_eq_ok.mpr ⟨henv.ok _ _, pieces.flatten, ?_, ?_⟩
  · rw [hinbox]
    exact receiveSocketPerChunk_inboxOf_short hadm hne hlt
  · refine decryptMsg3_eq_ok.mpr ⟨henv.ok _ _, ?_, hroom, ⟨k, hk, hdecrypt⟩, rfl⟩
    change announcedSize (pieces.flatten ++ rest) ≤ (encryptedContent (pieces.flatten ++ rest)).length
    rw [encryptedContent, List.length_take, List.length_drop]
    exact le_min le_rfl (by omega)

lemma complete_of_parsesReceived (hadm : Admissible (256 * 1024) pieces) (hne : [] ∉ pieces)
    (hsize : dataSize < 2 ^ 32 - 68) (h : ParsesReceived (inboxOf pieces none) dataSize) :
    Complete pieces.flatten dataSize := by
  intro hroom
  by_contra hshort
  rw [Msg3.layout_size] at hshort
  have hzeros : announcedSize (pieces.flatten ++ replicate (52 + dataSize) 0)
      = announcedSize pieces.flatten := announcedSize_append_zeros _ _
  have hrun := raNetReceiveData_of_short (C := Crypto.sample)
    (s := { State.zero with ctx.ecdhSharedSessionKey := .key (Bytes.zero 16) })
    (fun _ => rfl : ({ Env.calm Fn 0 with inbox := inboxOf pieces none }).AllOk) rfl hadm hne
    (by omega) rfl (by rw [hzeros, length_append, List.length_replicate]; omega)
    (hzeros.trans_le hroom) rfl
  have hinside := h _ Crypto.sample_decryptEncrypt _ _ _ _ _ rfl hrun
  change Msg3.layout.size + announcedSize (pieces.flatten ++ replicate (52 + dataSize) 0)
    ≤ pieces.flatten.length at hinside
  rw [hzeros, Msg3.layout_size] at hinside
  omega

end

lemma allocateMsg3_msg3Size (env : Env Fn) (dataSize : ℕ) (s : State) :
    (final (allocateMsg3 env dataSize s)).ctx.msg3Size
      = (Msg3.layout.size + dataSize + 16) % 2 ^ 32 := by
  have htriple : Triple (fun _ : State => True) (allocateMsg3 env dataSize)
      (fun _ t => t.ctx.msg3Size = (Msg3.layout.size + dataSize + 16) % 2 ^ 32)
      (fun t => t.ctx.msg3Size = (Msg3.layout.size + dataSize + 16) % 2 ^ 32) :=
    Triple.bind (Triple.modify fun _ _ => rfl) fun _ => keeps_teeVoid
  exact htriple.final_of trivial

/-- Whatever the peer delivers and however it ends, for every size of the caller's buffer: the
parser of `msg3` keeps to the received bytes, and the size of `msg3` is computed without
wrap-around, exactly if the size leaves room for header and overhead and the stream is complete
or ends with an error before the buffer is full. -/
theorem receiveData_parses_iff (pieces : List (List UInt8)) (failure : Option Stop)
    (dataSize : UInt32) (hadm : Admissible (256 * 1024) pieces) (hne : [] ∉ pieces) :
    (∀ (env : Env Fn) (s : State), (final (allocateMsg3 env dataSize.toNat s)).ctx.msg3Size
          = Msg3.layout.size + dataSize.toNat + 16)
        ∧ ParsesReceived (inboxOf pieces failure) dataSize.toNat
      ↔ dataSize.toNat < 2 ^ 32 - 68
        ∧ (Complete pieces.flatten dataSize.toNat
          ∨ failure ≠ none ∧ pieces.flatten.length < Msg3.layout.size + dataSize.toNat + 16) := by
  have hexact : (∀ (env : Env Fn) (s : State),
      (final (allocateMsg3 env dataSize.toNat s)).ctx.msg3Size
        = Msg3.layout.size + dataSize.toNat + 16) ↔ dataSize.toNat < 2 ^ 32 - 68 := by
    constructor
    · intro h
      have := (allocateMsg3_msg3Size (Env.calm Fn 0) dataSize.toNat State.zero).symm.trans (h _ _)
      rw [Msg3.layout_size] at this
      omega
    · intro h env s
      rw [allocateMsg3_msg3Size, Msg3.layout_size, Nat.mod_eq_of_lt (by omega)]
  rw [hexact]
  refine and_congr_right fun hsize => ⟨fun h => ?_, parsesReceived_of_complete hadm hne hsize⟩
  rcases lt_or_ge pieces.flatten.length (Msg3.layout.size + dataSize.toNat + 16) with hshort | hlong
  · cases failure with
    | none => exact .inl (complete_of_parsesReceived hadm hne hsize h)
    | some stop => exact .inr ⟨by simp, hshort⟩
  · refine .inl fun hroom => ?_
    omega

/-- A header with nothing behind it, which announces no content. -/
theorem receiveData_parses_header :
    ParsesReceived (inboxOf [replicate 52 0] none) 16 :=
  ((receiveData_parses_iff [replicate 52 0] none 16 (by decide) (by decide)).mpr
    ⟨by decide, .inl fun _ => by decide⟩).2

/-- The peer closes the connection behind a header that announces one byte.  The byte that is
decrypted and handed out as the secret is what an earlier use has left in memory. -/
theorem receiveData_parses_leftover :
    ¬ ParsesReceived (inboxOf [replicate 48 0 ++ [1, 0, 0, 0]] none) 16 := by
  intro h
  have hinside := h Crypto.sample Crypto.sample_decryptEncrypt
    { Env.calm Fn 0 with inbox := inboxOf [replicate 48 0 ++ [1, 0, 0, 0]] none } [42]
    { State.zero with ctx.ecdhSharedSessionKey := .key (Bytes.zero 16) } _ [42] rfl
    (raNetReceiveData_of_short (fun _ => rfl) rfl (by decide) (by decide) (by decide) rfl
      (by decide) (by decide) (by decide))
  exact absurd hinside (by decide)

end Watz.Attester
