import Watz.Lib.Memory

/-!
# Words in a memory of bytes

Words of any number of bytes are read and written at any address, in little-endian order.  This file
has the algebra of loads and stores: a load sees the store to the same word, and it does not see
stores elsewhere.  What a computation may have changed is stated as a set of addresses outside of
which two memories agree.
-/

namespace Watz.Lib
namespace Mem

/-- The value of the `n` bytes from an address on. -/
def load (m : Mem) : ℕ → ℕ → ℕ
  | _, 0 => 0
  | a, n + 1 => (m a).toNat + 256 * load m (a + 1) n

/-- The `n` bytes from an address on are set to a value. -/
def store (m : Mem) (a n v : ℕ) : Mem := fun i =>
  if a ≤ i ∧ i < a + n then UInt8.ofNat (v / 256 ^ (i - a)) else m i

/-- The `n` bytes from an address on are set to zero. -/
def clear (m : Mem) (a n : ℕ) : Mem := fun i => if a ≤ i ∧ i < a + n then 0 else m i

variable {m m' m'' : Mem} {a b n k v : ℕ}

/-! ## Memories that agree -/

/-- The memories agree outside of a set of addresses. -/
def SameOutside (R : Set ℕ) (m m' : Mem) : Prop := ∀ i ∉ R, m' i = m i

namespace SameOutside

variable {R R' : Set ℕ}

lemma refl (R : Set ℕ) (m : Mem) : SameOutside R m m := fun _ _ => rfl

lemma trans (h : SameOutside R m m') (h' : SameOutside R m' m'') : SameOutside R m m'' :=
  fun i hi => (h' i hi).trans (h i hi)

lemma mono (h : SameOutside R m m') (hR : R ⊆ R') : SameOutside R' m m' :=
  fun i hi => h i fun hmem => hi (hR hmem)

end SameOutside

lemma load_congr (h : ∀ i, a ≤ i → i < a + n → m' i = m i) : load m' a n = load m a n := by
  induction n generalizing a with
  | zero => rfl
  | succ n ih =>
    rw [load, load, h a le_rfl (by omega), ih fun i hi hlt => h i (by omega) (by omega)]

lemma SameOutside.load {R : Set ℕ} (h : SameOutside R m m')
    (hR : ∀ i ∈ R, i < a ∨ a + n ≤ i) : load m' a n = load m a n := by
  refine load_congr fun i hi hlt => h i fun hmem => ?_
  have := hR i hmem
  omega

lemma load_lt : load m a n < 256 ^ n := by
  induction n generalizing a with
  | zero => exact Nat.one_pos
  | succ n ih =>
    have hbyte := (m a).toNat_lt
    have hrest := ih (a := a + 1)
    rw [load, pow_succ]
    omega

lemma load_succ_last : load m a (n + 1) = load m a n + 256 ^ n * (m (a + n)).toNat := by
  induction n generalizing a with
  | zero => rw [load, load, load, Nat.mul_zero, pow_zero, Nat.one_mul, Nat.add_zero, Nat.zero_add,
      Nat.add_zero]
  | succ n ih =>
    rw [load, ih, load, pow_succ, show a + 1 + n = a + (n + 1) by omega]
    ring

/-! ## Stores -/

lemma store_of_lt {i : ℕ} (h : i < a ∨ a + n ≤ i) : store m a n v i = m i := if_neg (by omega)

lemma sameOutside_store : SameOutside (range a n) m (store m a n v) :=
  fun _ hi => if_neg hi

lemma load_store_self (h : v < 256 ^ n) : load (store m a n v) a n = v := by
  have key : ∀ k a v, k ≤ n → ∀ m' : Mem,
      (∀ i, a ≤ i → i < a + k → m' i = UInt8.ofNat (v / 256 ^ (i - a))) → v < 256 ^ k →
        load m' a k = v := by
    intro k
    induction k with
    | zero =>
      intro a v _ m' _ hv
      rw [load]
      rw [pow_zero] at hv
      omega
    | succ k ih =>
      intro a v hk m' hm hv
      have hfirst : (m' a).toNat = v % 256 := by
        rw [hm a le_rfl (by omega), Nat.sub_self, pow_zero, Nat.div_one, UInt8.toNat_ofNat']
      have hrest : load m' (a + 1) k = v / 256 := by
        refine ih (a + 1) (v / 256) (by omega) m' (fun i hi hlt => ?_) ?_
        · rw [hm i (by omega) (by omega), Nat.div_div_eq_div_mul, ← pow_succ']
          congr 3
          omega
        · rw [pow_succ] at hv
          omega
      rw [load, hfirst, hrest]
      omega
  exact key n a v le_rfl _ (fun i hi hlt => if_pos ⟨hi, hlt⟩) h

lemma load_store_of_disjoint (h : b + k ≤ a ∨ a + n ≤ b) :
    load (store m a n v) b k = load m b k :=
  load_congr fun _ _ _ => store_of_lt (by omega)

lemma clear_of_lt {i : ℕ} (h : i < a ∨ a + n ≤ i) : clear m a n i = m i := if_neg (by omega)

lemma clear_of_mem {i : ℕ} (h : a ≤ i ∧ i < a + n) : clear m a n i = 0 := if_pos h

lemma load_clear_of_disjoint (h : b + k ≤ a ∨ a + n ≤ b) :
    load (clear m a n) b k = load m b k :=
  load_congr fun _ _ _ => clear_of_lt (by omega)

lemma load_clear_self (h : a ≤ b ∧ b + k ≤ a + n) : load (clear m a n) b k = 0 := by
  induction k generalizing b with
  | zero => rfl
  | succ k ih =>
    rw [load, clear_of_mem (by omega), ih (by omega)]
    rfl

lemma sameOutside_clear : SameOutside (range a n) m (clear m a n) :=
  fun _ hi => if_neg hi

-- loads and stores are used by the lemmas above, and never by unfolding them byte by byte
attribute [irreducible] load store clear

end Mem

end Watz.Lib
