import Mathlib

/-!
# Memory as bytes

A memory gives a byte for every address.  This file has the algebra of reading and writing byte
strings: a read sees the write to the same place, and it does not see writes elsewhere.  What two
memories have in common is stated as a set of addresses on which they agree.
-/

namespace Watz.Lib

/-- A byte for every address. -/
def Mem : Type := ℕ → UInt8

namespace Mem

/-- The `n` bytes from an address on. -/
def read (m : Mem) (a n : ℕ) : List UInt8 := (List.range n).map fun i => m (a + i)

/-- The memory with a byte string at an address. -/
def write (m : Mem) (a : ℕ) (l : List UInt8) : Mem := fun i =>
  if a ≤ i ∧ i < a + l.length then l.getD (i - a) 0 else m i

/-- The addresses of `n` bytes from an address on. -/
def range (a n : ℕ) : Set ℕ := {i | a ≤ i ∧ i < a + n}

/-- The memories agree on a set of addresses. -/
def SameOn (R : Set ℕ) (m m' : Mem) : Prop := ∀ i ∈ R, m i = m' i

variable {m m' : Mem} {a b n i : ℕ} {l : List UInt8} {R : Set ℕ}

@[simp] lemma read_length : (m.read a n).length = n := by simp [read]

lemma read_getD (h : i < n) : (m.read a n).getD i 0 = m (a + i) := by
  rw [List.getD_eq_getElem _ _ (by simpa using h)]
  simp [read]

lemma write_of_notMem (h : i < a ∨ a + l.length ≤ i) : m.write a l i = m i := if_neg (by omega)

lemma write_of_lt (h : i < l.length) : m.write a l (a + i) = l.getD i 0 := by
  rw [write, if_pos (by omega), Nat.add_sub_cancel_left]

lemma read_write : (m.write a l).read a l.length = l := by
  apply List.ext_getElem read_length
  intro i hi hi'
  have hbyte : ((m.write a l).read a l.length).get ⟨i, hi⟩ = m.write a l (a + i) := by simp [read]
  rw [List.get_eq_getElem] at hbyte
  rw [hbyte, write_of_lt hi', List.getD_eq_getElem _ _ hi']

lemma read_write_of_disjoint (h : a + n ≤ b ∨ b + l.length ≤ a) :
    (m.write b l).read a n = m.read a n := by
  refine List.map_congr_left fun i hi => write_of_notMem ?_
  rw [List.mem_range] at hi
  omega

lemma read_take {k : ℕ} (h : k ≤ n) : (m.read a n).take k = m.read a k := by
  rw [read, ← List.map_take, List.take_range, Nat.min_eq_left h, read]

lemma read_drop (k : ℕ) : (m.read a n).drop k = m.read (a + k) (n - k) := by
  apply List.ext_getElem (by simp)
  intro i _ _
  simp [read, Nat.add_assoc]

lemma write_nil : m.write a [] = m := by
  funext i
  exact write_of_notMem (by rw [List.length_nil]; omega)

lemma write_write (m : Mem) (a : ℕ) (l l' : List UInt8) :
    (m.write a l).write (a + l.length) l' = m.write a (l ++ l') := by
  funext i
  by_cases hsecond : a + l.length ≤ i ∧ i < a + l.length + l'.length
  · obtain ⟨j, rfl⟩ := Nat.exists_eq_add_of_le hsecond.1
    rw [write_of_lt (by omega), Nat.add_assoc, write_of_lt (by rw [List.length_append]; omega),
      List.getD_append_right _ _ _ _ (Nat.le_add_right _ _), Nat.add_sub_cancel_left]
  rw [write_of_notMem (by omega)]
  by_cases hfirst : a ≤ i ∧ i < a + l.length
  · obtain ⟨j, rfl⟩ := Nat.exists_eq_add_of_le hfirst.1
    rw [write_of_lt (by omega), write_of_lt (by rw [List.length_append]; omega),
      List.getD_append _ _ _ _ (by omega)]
  · rw [write_of_notMem (by omega), write_of_notMem (by rw [List.length_append]; omega)]

lemma read_add (k : ℕ) : m.read a (n + k) = m.read a n ++ m.read (a + n) k := by
  rw [← List.take_append_drop n (m.read a (n + k)), read_take (Nat.le_add_right n k), read_drop,
    Nat.add_sub_cancel_left]

namespace SameOn

lemma mono {R' : Set ℕ} (h : SameOn R m m') (hR : R' ⊆ R) : SameOn R' m m' :=
  fun i hi => h i (hR hi)

lemma write (h : SameOn R m m') (a : ℕ) (l : List UInt8) :
    SameOn (R ∪ range a l.length) (m.write a l) (m'.write a l) := by
  intro i hi
  by_cases hmem : a ≤ i ∧ i < a + l.length
  · rw [Mem.write, Mem.write, if_pos hmem, if_pos hmem]
  · rw [Mem.write, Mem.write, if_neg hmem, if_neg hmem]
    exact h i (hi.resolve_right hmem)

lemma read (h : SameOn R m m') (hR : range a n ⊆ R) : m.read a n = m'.read a n := by
  refine List.map_congr_left fun i hi => h _ (hR ⟨Nat.le_add_right a i, ?_⟩)
  rw [List.mem_range] at hi
  omega

end SameOn

end Mem

end Watz.Lib
