import Mathlib

/-!
# Byte strings of fixed length and the integers they spell

A C struct holds its arrays with a length the type fixes, and its integers as the bytes of
their little-endian form; a bignum library exports an integer in big-endian form, either
padded to a width or without its leading zero bytes.  This file sets up these three
representations and the facts that relate them.
-/

namespace Watz.Lib

/-! ## Arrays of fixed length -/

/-- A byte array whose length is part of its type. -/
@[ext] structure Bytes (n : ℕ) where
  /-- The contents, in memory order. -/
  toList : List UInt8
  length_eq : toList.length = n
deriving DecidableEq

variable {l : List UInt8} {k v : ℕ}

namespace Bytes

variable {n : ℕ}

attribute [simp] length_eq

/-- The array of zero bytes. -/
def zero (n : ℕ) : Bytes n := ⟨List.replicate n 0, by simp⟩

/-- The first `n` bytes of a memory area, completed with zero bytes where the area is
shorter. -/
def slice (n : ℕ) (l : List UInt8) : Bytes n :=
  ⟨(l ++ List.replicate n 0).take n, by simp⟩

lemma slice_toList (h : n ≤ l.length) : (slice n l).toList = l.take n := by
  simp [slice, List.take_append_of_le_length h]

@[simp] lemma slice_append (b : Bytes n) (rest : List UInt8) :
    slice n (b.toList ++ rest) = b := by
  ext1
  rw [slice_toList (by simp), List.take_left' b.length_eq]

/-- Write `l` over the beginning of an array, the bytes behind it staying in place. -/
def overwrite (b : Bytes n) (l : List UInt8) : Bytes n :=
  slice n (l ++ b.toList.drop l.length)

lemma overwrite_toList {b : Bytes n} (h : l.length ≤ n) :
    (b.overwrite l).toList = l ++ b.toList.drop l.length := by
  have hlen : (l ++ b.toList.drop l.length).length = n := by
    simp only [List.length_append, List.length_drop, length_eq]
    omega
  rw [overwrite, slice_toList hlen.ge, List.take_of_length_le hlen.le]

lemma take_overwrite {b : Bytes n} (h : l.length ≤ n) :
    (b.overwrite l).toList.take l.length = l := by
  rw [overwrite_toList h, List.take_left]

end Bytes

/-! ## Concatenations -/

lemma eq_of_flatMap_eq {α β : Type} {f g : α → List β} {l : List α}
    (hlen : ∀ a ∈ l, (f a).length = (g a).length) (h : l.flatMap f = l.flatMap g) :
    ∀ a ∈ l, f a = g a := by
  induction l with
  | nil => simp
  | cons a l ih =>
    rw [List.flatMap_cons, List.flatMap_cons] at h
    obtain ⟨hhead, htail⟩ := List.append_inj h (hlen a (by simp))
    rw [List.forall_mem_cons]
    exact ⟨hhead, ih (fun b hb => hlen b (List.mem_cons_of_mem a hb)) htail⟩

/-! ## Little-endian words -/

/-- The four bytes of a 32-bit word, least significant first. -/
def le32 (v : UInt32) : List UInt8 :=
  [UInt8.ofNat (v.toNat % 256), UInt8.ofNat (v.toNat / 256 % 256),
    UInt8.ofNat (v.toNat / 65536 % 256), UInt8.ofNat (v.toNat / 16777216)]

/-- The word the first four bytes of a memory area spell. -/
def ofLe32 (l : List UInt8) : UInt32 :=
  UInt32.ofNat ((l.getD 0 0).toNat + 256 * (l.getD 1 0).toNat + 65536 * (l.getD 2 0).toNat
    + 16777216 * (l.getD 3 0).toNat)

@[simp] lemma le32_length (v : UInt32) : (le32 v).length = 4 := rfl

lemma ofLe32_append (v : UInt32) (rest : List UInt8) : ofLe32 (le32 v ++ rest) = v := by
  have hv : v.toNat < 4294967296 := v.toNat_lt
  apply UInt32.toNat_inj.mp
  simp only [ofLe32, le32, List.cons_append, List.getD_cons_zero, List.getD_cons_succ,
    UInt8.toNat_ofNat', UInt32.toNat_ofNat']
  omega

lemma le32_ofLe32 (h : 4 ≤ l.length) : le32 (ofLe32 l) = l.take 4 := by
  obtain ⟨a, b, c, d, rest, rfl⟩ : ∃ a b c d rest, l = a :: b :: c :: d :: rest := by
    match l, h with
    | a :: b :: c :: d :: rest, _ => exact ⟨a, b, c, d, rest, rfl⟩
  have ha := a.toNat_lt
  have hb := b.toNat_lt
  have hc := c.toNat_lt
  have hd := d.toNat_lt
  have hv : (ofLe32 (a :: b :: c :: d :: rest)).toNat
      = a.toNat + 256 * b.toNat + 65536 * c.toNat + 16777216 * d.toNat := by
    simp only [ofLe32, List.getD_cons_zero, List.getD_cons_succ, UInt32.toNat_ofNat']
    omega
  simp only [le32, hv, List.take_succ_cons, List.take_zero, List.cons.injEq, and_true]
  refine ⟨?_, ?_, ?_, ?_⟩ <;> apply UInt8.toNat_inj.mp <;>
    simp only [UInt8.toNat_ofNat'] <;> omega

lemma le32_inj {v w : UInt32} (h : le32 v = le32 w) : v = w := by
  rw [← ofLe32_append v [], ← ofLe32_append w [], h]

/-- Bytes that are missing count as zeros, so bytes in their place make the word no smaller. -/
lemma ofLe32_toNat_le_append (l rest : List UInt8) :
    (ofLe32 l).toNat ≤ (ofLe32 (l ++ rest)).toNat := by
  have hbyte : ∀ i, (l.getD i 0).toNat ≤ ((l ++ rest).getD i 0).toNat := by
    intro i
    rcases lt_or_ge i l.length with hi | hi
    · rw [List.getD_append _ _ _ _ hi]
    · rw [List.getD_eq_default _ _ hi]
      exact Nat.zero_le _
  have hlt : ∀ i, ((l ++ rest).getD i 0).toNat < 256 := fun i => UInt8.toNat_lt _
  simp only [ofLe32, UInt32.toNat_ofNat']
  have h₀ := hbyte 0
  have h1 := hbyte 1
  have h2 := hbyte 2
  have h3 := hbyte 3
  have l₀ := hlt 0
  have l₁ := hlt 1
  have l₂ := hlt 2
  have l₃ := hlt 3
  omega

lemma ofLe32_append_zeros (l : List UInt8) (n : ℕ) :
    ofLe32 (l ++ List.replicate n 0) = ofLe32 l := by
  have hbyte : ∀ i, (l ++ List.replicate n 0).getD i 0 = l.getD i 0 := by
    intro i
    rcases lt_or_ge i l.length with hi | hi
    · rw [List.getD_append _ _ _ _ hi]
    · rw [List.getD_append_right _ _ _ _ hi, List.getD_eq_default _ _ hi,
        List.getD_eq_getElem?_getD, List.getElem?_getD_replicate_default_eq]
  simp only [ofLe32, hbyte]

/-! ## Big-endian integers -/

/-- The integer a byte string spells, most significant byte first. -/
def ofBigEndian (l : List UInt8) : ℕ := l.foldl (fun acc b => acc * 256 + b.toNat) 0

/-- The big-endian form of an integer in `k` bytes. -/
def bigEndian : ℕ → ℕ → List UInt8
  | 0, _ => []
  | k + 1, v => bigEndian k (v / 256) ++ [UInt8.ofNat (v % 256)]

/-- The big-endian form of an integer below `256 ^ k` without leading zero bytes. -/
def minBigEndian (k v : ℕ) : List UInt8 := (bigEndian k v).dropWhile (· = 0)

@[simp] lemma ofBigEndian_nil : ofBigEndian [] = 0 := rfl

lemma ofBigEndian_concat (l : List UInt8) (b : UInt8) :
    ofBigEndian (l ++ [b]) = ofBigEndian l * 256 + b.toNat := by
  simp [ofBigEndian]

lemma ofBigEndian_append (l r : List UInt8) :
    ofBigEndian (l ++ r) = ofBigEndian l * 256 ^ r.length + ofBigEndian r := by
  induction r using List.reverseRecOn with
  | nil => simp
  | append_singleton r b ih =>
    rw [← List.append_assoc, ofBigEndian_concat, ih, ofBigEndian_concat]
    simp only [List.length_append, List.length_singleton, pow_succ]
    ring

lemma ofBigEndian_cons (b : UInt8) (l : List UInt8) :
    ofBigEndian (b :: l) = b.toNat * 256 ^ l.length + ofBigEndian l := by
  have := ofBigEndian_append [b] l
  simpa [ofBigEndian] using this

lemma ofBigEndian_lt (l : List UInt8) : ofBigEndian l < 256 ^ l.length := by
  induction l using List.reverseRecOn with
  | nil => simp
  | append_singleton l b ih =>
    have hb := b.toNat_lt
    rw [ofBigEndian_concat, List.length_append, List.length_singleton, pow_succ]
    omega

lemma ofBigEndian_replicate_zero (k : ℕ) : ofBigEndian (List.replicate k 0) = 0 := by
  induction k with
  | zero => rfl
  | succ k ih => simp [List.replicate_succ, ofBigEndian_cons, ih]

@[simp] lemma bigEndian_length (k v : ℕ) : (bigEndian k v).length = k := by
  induction k generalizing v with
  | zero => rfl
  | succ k ih => simp [bigEndian, ih]

lemma ofBigEndian_bigEndian (h : v < 256 ^ k) : ofBigEndian (bigEndian k v) = v := by
  induction k generalizing v with
  | zero =>
    have : v = 0 := by simpa using h
    simp [bigEndian, this]
  | succ k ih =>
    have hdiv : v / 256 < 256 ^ k := by
      rw [Nat.div_lt_iff_lt_mul (by norm_num), ← pow_succ]
      exact h
    rw [bigEndian, ofBigEndian_concat, ih hdiv, UInt8.toNat_ofNat']
    omega

lemma ofBigEndian_eq_zero_iff :
    ofBigEndian l = 0 ↔ l = List.replicate l.length 0 := by
  constructor
  · intro h
    induction l with
    | nil => rfl
    | cons b l ih =>
      rw [ofBigEndian_cons] at h
      have hpow : 0 < 256 ^ l.length := by positivity
      have hb : b.toNat = 0 := by
        by_contra hne
        have : 1 * 256 ^ l.length ≤ b.toNat * 256 ^ l.length :=
          Nat.mul_le_mul_right _ (by omega)
        omega
      have hb0 : b = 0 := UInt8.toNat_inj.mp (by simpa using hb)
      have hl := ih (by omega)
      rw [List.length_cons, List.replicate_succ, hb0, ← hl]
  · intro h
    rw [h, ofBigEndian_replicate_zero]

/-- Further bytes change the value, unless all bytes are zero. -/
lemma ofBigEndian_append_eq_left_iff {r : List UInt8} (hr : r ≠ []) :
    ofBigEndian (l ++ r) = ofBigEndian l ↔ ofBigEndian l = 0 ∧ ofBigEndian r = 0 := by
  rw [ofBigEndian_append]
  have hpow : 2 ≤ 256 ^ r.length := by
    have hlen := List.length_pos_iff.mpr hr
    calc 2 ≤ 256 ^ 1 := by norm_num
      _ ≤ 256 ^ r.length := Nat.pow_le_pow_right (by norm_num) hlen
  constructor
  · intro h
    have hle := Nat.mul_le_mul_left (ofBigEndian l) hpow
    omega
  · rintro ⟨hl, hr⟩
    rw [hl, hr, zero_mul]

/-- Leaving bytes out changes the value, unless all bytes are zero. -/
lemma ofBigEndian_take_eq_iff {n : ℕ} (h : n < l.length) :
    ofBigEndian (l.take n) = ofBigEndian l ↔ ofBigEndian l = 0 := by
  have hdrop : l.drop n ≠ [] := by simpa using h
  have happ := ofBigEndian_append_eq_left_iff (l := l.take n) hdrop
  have hval := ofBigEndian_append (l.take n) (l.drop n)
  rw [List.take_append_drop] at happ hval
  rw [eq_comm, happ]
  constructor
  · rintro ⟨h1, h2⟩
    rw [hval, h1, h2, zero_mul]
  · intro hzero
    have hpos : 0 < 256 ^ (l.drop n).length := by positivity
    rw [hzero] at hval
    have hmul : ofBigEndian (l.take n) * 256 ^ (l.drop n).length = 0 := by omega
    exact ⟨(Nat.mul_eq_zero.mp hmul).resolve_right hpos.ne', by omega⟩

lemma bigEndian_eq_zeros_append (k v : ℕ) :
    bigEndian k v
      = List.replicate (k - (minBigEndian k v).length) 0 ++ minBigEndian k v := by
  have hsplit := List.takeWhile_append_dropWhile (p := (· = (0 : UInt8))) (l := bigEndian k v)
  have hlen := congrArg List.length hsplit
  rw [List.length_append, bigEndian_length] at hlen
  have hzeros : (bigEndian k v).takeWhile (· = 0)
      = List.replicate ((bigEndian k v).takeWhile (· = 0)).length 0 := by
    refine List.eq_replicate_of_mem fun b hb => ?_
    simpa using List.mem_takeWhile_imp hb
  have hk : k - (minBigEndian k v).length = ((bigEndian k v).takeWhile (· = 0)).length := by
    rw [minBigEndian]
    omega
  rw [hk, ← hzeros, minBigEndian, hsplit]

lemma minBigEndian_length_le (k v : ℕ) : (minBigEndian k v).length ≤ k := by
  have h := List.length_dropWhile_le (· = (0 : UInt8)) (bigEndian k v)
  rwa [bigEndian_length] at h

lemma ofBigEndian_minBigEndian (h : v < 256 ^ k) :
    ofBigEndian (minBigEndian k v) = v := by
  have hv := ofBigEndian_bigEndian h
  rw [bigEndian_eq_zeros_append, ofBigEndian_append, ofBigEndian_replicate_zero] at hv
  omega

lemma minBigEndian_head_ne_zero {b : UInt8} (h : minBigEndian k v = b :: l) : b ≠ 0 := by
  rw [minBigEndian] at h
  have hne : (bigEndian k v).dropWhile (· = 0) ≠ [] := by rw [h]; simp
  have hnot := List.head_dropWhile_not (· = (0 : UInt8)) hne
  simpa [h] using hnot

lemma minBigEndian_eq_nil_iff (h : v < 256 ^ k) : minBigEndian k v = [] ↔ v = 0 := by
  constructor
  · intro hnil
    rw [← ofBigEndian_minBigEndian h, hnil, ofBigEndian_nil]
  · rintro rfl
    cases hc : minBigEndian k 0 with
    | nil => rfl
    | cons b l =>
      exfalso
      have hval := ofBigEndian_minBigEndian h
      rw [hc, ofBigEndian_eq_zero_iff, List.length_cons, List.replicate_succ] at hval
      exact minBigEndian_head_ne_zero hc (List.cons.inj hval).1

lemma minBigEndian_length_eq_iff (h : v < 256 ^ (k + 1)) :
    (minBigEndian (k + 1) v).length = k + 1 ↔ 256 ^ k ≤ v := by
  have hval := ofBigEndian_minBigEndian h
  constructor
  · intro hlen
    cases hc : minBigEndian (k + 1) v with
    | nil => rw [hc] at hlen; simp at hlen
    | cons b l =>
      have hl : l.length = k := by rw [hc] at hlen; simpa using hlen
      have hb : b.toNat ≠ 0 := fun h0 =>
        minBigEndian_head_ne_zero hc (UInt8.toNat_inj.mp (by simpa using h0))
      rw [hc, ofBigEndian_cons, hl] at hval
      have : 1 * 256 ^ k ≤ b.toNat * 256 ^ k := Nat.mul_le_mul_right _ (by omega)
      omega
  · intro hle
    have hlt := ofBigEndian_lt (minBigEndian (k + 1) v)
    rw [hval] at hlt
    have hk := (Nat.pow_lt_pow_iff_right (by norm_num : 1 < 256)).mp (lt_of_le_of_lt hle hlt)
    have hle' := minBigEndian_length_le (k + 1) v
    omega

end Watz.Lib
