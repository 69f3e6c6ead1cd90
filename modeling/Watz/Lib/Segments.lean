import Mathlib

/-!
# Segments of arrays

An array is a function from indices, and a segment is given by its first and its last index.  Sorting
a segment in place permutes its elements and leaves the others where they are.  This file has the
rules for such permutations, and the rule that puts two sorted segments together around a pivot.
-/

namespace Watz.Lib

variable {α β : Type} [LinearOrder β] {key : α → β} {a b c : ℤ → α} {l l' r r' i j p : ℤ}

/-! ## Permutations of a segment -/

/-- The second array is the first one with the elements from `l` to `r` in another order. -/
def PermOn (l r : ℤ) (a b : ℤ → α) : Prop :=
  ∃ σ : Equiv.Perm ℤ, (∀ k, k < l ∨ r < k → σ k = k) ∧ b = a ∘ σ

namespace PermOn

lemma refl (l r : ℤ) (a : ℤ → α) : PermOn l r a a := ⟨1, fun _ _ => rfl, rfl⟩

lemma trans (h : PermOn l r a b) (h' : PermOn l r b c) : PermOn l r a c := by
  obtain ⟨σ, hσ, rfl⟩ := h
  obtain ⟨τ, hτ, rfl⟩ := h'
  refine ⟨σ * τ, fun k hk => ?_, rfl⟩
  rw [Equiv.Perm.mul_apply, hτ k hk, hσ k hk]

lemma mono (h : PermOn l r a b) (hl : l' ≤ l) (hr : r ≤ r') : PermOn l' r' a b := by
  obtain ⟨σ, hσ, rfl⟩ := h
  exact ⟨σ, fun k hk => hσ k (by omega), rfl⟩

lemma swap (hi : l ≤ i ∧ i ≤ r) (hj : l ≤ j ∧ j ≤ r) : PermOn l r a (a ∘ Equiv.swap i j) := by
  refine ⟨Equiv.swap i j, fun k hk => ?_, rfl⟩
  exact Equiv.swap_apply_of_ne_of_ne (by omega) (by omega)

lemma eq_of_outside (h : PermOn l r a b) {k : ℤ} (hk : k < l ∨ r < k) : b k = a k := by
  obtain ⟨σ, hσ, rfl⟩ := h
  rw [Function.comp_apply, hσ k hk]

lemma exists_of_inside (h : PermOn l r a b) {k : ℤ} (hk : l ≤ k ∧ k ≤ r) :
    ∃ k', (l ≤ k' ∧ k' ≤ r) ∧ b k = a k' := by
  obtain ⟨σ, hσ, rfl⟩ := h
  refine ⟨σ k, ?_, rfl⟩
  by_contra hout
  have hfix : σ (σ k) = σ k := hσ _ (by omega)
  rw [σ.injective hfix] at hout
  exact hout hk

end PermOn

/-! ## Sorted segments -/

/-- The elements from `l` to `r` are sorted by their keys. -/
def SortedOn (key : α → β) (l r : ℤ) (a : ℤ → α) : Prop :=
  ∀ i j, l ≤ i → i ≤ j → j ≤ r → key (a i) ≤ key (a j)

namespace SortedOn

lemma of_le (h : r ≤ l) : SortedOn key l r a := by
  intro i j hi hij hj
  obtain rfl : i = j := by omega
  exact le_rfl

lemma congr (h : SortedOn key l r a) (hb : ∀ k, l ≤ k → k ≤ r → b k = a k) :
    SortedOn key l r b := by
  intro i j hi hij hj
  rw [hb i hi (by omega), hb j (by omega) hj]
  exact h i j hi hij hj

lemma join (hleft : SortedOn key l (p - 1) a) (hright : SortedOn key (p + 1) r a)
    (hle : ∀ i, l ≤ i → i < p → key (a i) ≤ key (a p))
    (hge : ∀ j, p < j → j ≤ r → key (a p) ≤ key (a j)) : SortedOn key l r a := by
  intro i j hi hij hj
  rcases lt_trichotomy i p with hip | rfl | hip
  · rcases lt_trichotomy j p with hjp | rfl | hjp
    · exact hleft i j hi hij (by omega)
    · exact hle i hi hip
    · exact (hle i hi hip).trans (hge j hjp hj)
  · rcases hij.lt_or_eq with hlt | rfl
    · exact hge j hlt hj
    · exact le_rfl
  · exact hright i j (by omega) hij hj

end SortedOn

end Watz.Lib
