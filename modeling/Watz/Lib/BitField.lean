import Mathlib

/-!
# Fields of a word

An instruction word has its immediate in one or more fields.  A program that patches a field keeps
the other bits with a mask and puts the new contents in with `|`; it reads a field with a shift and
a mask, and it extends the sign by flipping the sign bit and subtracting it.  This file says what
these three idioms compute, on the numbers that the words are.
-/

namespace Watz.Lib

variable {n w lo v i : ℕ}

/-! ## Shifts and masks -/

lemma toNat_and_mask (x : BitVec n) (h : w ≤ n) :
    (x &&& BitVec.ofNat n (2 ^ w - 1)).toNat = x.toNat % 2 ^ w := by
  have hlt : 2 ^ w - 1 < 2 ^ n :=
    lt_of_lt_of_le (Nat.sub_lt (Nat.two_pow_pos w) one_pos) (Nat.pow_le_pow_right two_pos h)
  rw [BitVec.toNat_and, BitVec.toNat_ofNat, Nat.mod_eq_of_lt hlt, Nat.and_two_pow_sub_one_eq_mod]

lemma toNat_and_not_mask (x : BitVec n) (h : w ≤ n) :
    (x &&& ~~~BitVec.ofNat n (2 ^ w - 1)).toNat = x.toNat / 2 ^ w * 2 ^ w := by
  apply Nat.eq_of_testBit_eq
  intro i
  rw [BitVec.testBit_toNat, BitVec.getLsbD_and, BitVec.getLsbD_not, BitVec.getLsbD_ofNat,
    Nat.testBit_two_pow_sub_one, Nat.testBit_mul_two_pow, Nat.testBit_div_two_pow,
    BitVec.testBit_toNat]
  by_cases hi : w ≤ i
  · rw [Nat.sub_add_cancel hi]
    by_cases hn : i < n
    · simp [hi, hn]
    · simp [BitVec.getLsbD_of_ge x i (by omega)]
  · have hlt : i < w := by omega
    have hn : i < n := by omega
    simp [hi, hn, hlt]

/-- Bits below the sign are the same for the two right shifts. -/
lemma toNat_sshiftRight_and_mask (x : BitVec n) {k : ℕ} (h : k + w ≤ n) :
    (x.sshiftRight k &&& BitVec.ofNat n (2 ^ w - 1)).toNat = x.toNat / 2 ^ k % 2 ^ w := by
  have hbits : (x.sshiftRight k).extractLsb' 0 w = x.extractLsb' k w := by
    apply BitVec.eq_of_getLsbD_eq
    intro i hi
    have hlow : ¬ n ≤ i := by omega
    have hhigh : k + i < n := by omega
    simp [BitVec.getLsbD_sshiftRight, hi, hlow, hhigh]
  have hnat := congrArg BitVec.toNat hbits
  rw [BitVec.extractLsb'_toNat, BitVec.extractLsb'_toNat, Nat.shiftRight_zero,
    Nat.shiftRight_eq_div_pow] at hnat
  rw [toNat_and_mask _ (by omega), hnat]

/-! ## Sign extension -/

lemma xor_twoPow_of_not (x : BitVec n) (b : ℕ) (h : x.getLsbD b = false) :
    x ^^^ BitVec.twoPow n b = x + BitVec.twoPow n b := by
  have hand : x &&& BitVec.twoPow n b = 0#n := by
    rw [BitVec.and_twoPow, h]
    rfl
  rw [BitVec.add_eq_or_of_and_eq_zero _ _ hand]
  apply BitVec.eq_of_getLsbD_eq
  intro i hi
  have hbit := congrArg (fun y => y.getLsbD i) hand
  simp only [BitVec.getLsbD_and, BitVec.getLsbD_zero] at hbit
  simp only [BitVec.getLsbD_xor, BitVec.getLsbD_or]
  revert hbit
  cases x.getLsbD i <;> cases (BitVec.twoPow n b).getLsbD i <;> simp

lemma xor_twoPow_sub (x : BitVec n) (b : ℕ) (hb : b < n) :
    (x ^^^ BitVec.twoPow n b) - BitVec.twoPow n b
      = if x.getLsbD b then x - BitVec.twoPow n b - BitVec.twoPow n b else x := by
  cases h : x.getLsbD b with
  | false =>
    rw [xor_twoPow_of_not x b h, BitVec.add_sub_cancel]
    rfl
  | true =>
    have hflip : (x ^^^ BitVec.twoPow n b).getLsbD b = false := by simp [h, hb]
    have hback := xor_twoPow_of_not _ b hflip
    rw [BitVec.xor_assoc, BitVec.xor_self, BitVec.xor_zero] at hback
    rw [eq_sub_of_add_eq hback.symm]
    rfl

/-! ## Patches -/

/-- The bits of a field. -/
def InField (lo w i : ℕ) : Prop := lo ≤ i ∧ i < lo + w

instance (lo w i : ℕ) : Decidable (InField lo w i) := inferInstanceAs (Decidable (_ ∧ _))

/-- The word has a number in a field, and zeros elsewhere. -/
def Holds (f : BitVec n) (lo w v : ℕ) : Prop := f.toNat = v * 2 ^ lo ∧ v < 2 ^ w

namespace Holds

variable {f : BitVec n}

lemma extract (h : Holds f lo w v) : (f.extractLsb' lo w).toNat = v := by
  rw [BitVec.extractLsb'_toNat, h.1, Nat.shiftRight_eq_div_pow,
    Nat.mul_div_cancel _ (Nat.two_pow_pos lo), Nat.mod_eq_of_lt h.2]

lemma getLsbD (h : Holds f lo w v) (hi : ¬ InField lo w i) : f.getLsbD i = false := by
  rw [BitVec.getLsbD, h.1, Nat.testBit_mul_two_pow]
  by_cases hlo : lo ≤ i
  · have hle : w ≤ i - lo := by
      have := not_and.mp hi hlo
      omega
    rw [Nat.testBit_lt_two_pow (lt_of_lt_of_le h.2 (Nat.pow_le_pow_right two_pos hle)),
      Bool.and_false]
  · rw [decide_eq_false hlo, Bool.false_and]

lemma extract_of_disjoint (h : Holds f lo w v) {lo' w' : ℕ} (hd : lo + w ≤ lo' ∨ lo' + w' ≤ lo) :
    f.extractLsb' lo' w' = BitVec.ofNat w' 0 := by
  apply BitVec.eq_of_getLsbD_eq
  intro i hi
  have hout : ¬ InField lo w (lo' + i) := by
    rintro ⟨hle, hlt⟩
    omega
  rw [BitVec.getLsbD_extractLsb', h.getLsbD hout, Bool.and_false, BitVec.getLsbD_zero]

end Holds

lemma holds_shiftLeft (n lo w : ℕ) {m : ℕ} {x : BitVec m} (hx : x.toNat < 2 ^ w)
    (h : lo + w ≤ n) :
    Holds (x.setWidth n <<< lo) lo w x.toNat := by
  have hlt : x.toNat * 2 ^ lo < 2 ^ n := calc
    x.toNat * 2 ^ lo < 2 ^ w * 2 ^ lo := Nat.mul_lt_mul_of_pos_right hx (Nat.two_pow_pos lo)
    _ = 2 ^ (lo + w) := by rw [mul_comm, ← pow_add]
    _ ≤ 2 ^ n := Nat.pow_le_pow_right two_pos h
  have hwidth : x.toNat < 2 ^ n :=
    lt_of_lt_of_le hx (Nat.pow_le_pow_right two_pos (by omega))
  refine ⟨?_, hx⟩
  rw [BitVec.toNat_shiftLeft, BitVec.toNat_setWidth, Nat.mod_eq_of_lt hwidth, Nat.shiftLeft_eq,
    Nat.mod_eq_of_lt hlt]

lemma extract_patch {x keep f : BitVec n}
    (hkeep : ∀ i < n, InField lo w i → keep.getLsbD i = false) :
    (x &&& keep ||| f).extractLsb' lo w = f.extractLsb' lo w := by
  apply BitVec.eq_of_getLsbD_eq
  intro i hi
  have hbit : keep.getLsbD (lo + i) = false := by
    by_cases hn : lo + i < n
    · exact hkeep (lo + i) hn ⟨Nat.le_add_right lo i, by omega⟩
    · exact BitVec.getLsbD_of_ge _ _ (by omega)
  simp [hbit]

lemma getLsbD_patch {x keep f : BitVec n} (hkeep : i < n → keep.getLsbD i = true)
    (hf : f.getLsbD i = false) : (x &&& keep ||| f).getLsbD i = x.getLsbD i := by
  by_cases hn : i < n
  · simp [hkeep hn, hf]
  · rw [BitVec.getLsbD_of_ge _ _ (by omega), BitVec.getLsbD_of_ge _ _ (by omega)]

end Watz.Lib
