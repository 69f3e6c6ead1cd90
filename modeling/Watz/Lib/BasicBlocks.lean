import Mathlib

/-!
# Functions under construction

A code generator builds a function as a graph of basic blocks.  It creates blocks, ends blocks with
terminators that name their successors, and may delete blocks again.  A finished function needs
exactly one terminator in every block that some terminator leads to.

While the function is built some blocks are still open: they have no terminator yet.  The rules of
this file keep account of them.  An open block may have predecessors or, as long as nothing leads
to it, be quiet; only quiet blocks may be given up.
-/

namespace Watz.Lib

/-- The basic blocks of a function, numbered as they are created, and the terminators, each with
the block it stands in and the blocks it leads to. -/
structure Cfg where
  count : ℕ
  terms : List (ℕ × List ℕ)
deriving DecidableEq, Repr

namespace Cfg

open Multiset (add_cons cons_add mem_add mem_cons mem_cons_of_mem mem_cons_self nodup_cons)

variable {g : Cfg} {b x : ℕ} {succs : List ℕ} {opens quiet : Multiset ℕ}

/-- A new block; its number is the count before. -/
def create (g : Cfg) : Cfg := { g with count := g.count + 1 }

/-- A terminator at the end of a block. -/
def terminate (g : Cfg) (b : ℕ) (succs : List ℕ) : Cfg :=
  { g with terms := g.terms ++ [(b, succs)] }

/-- A block is deleted with its terminators. -/
def delete (g : Cfg) (b : ℕ) : Cfg := { g with terms := g.terms.filter fun t => t.1 ≠ b }

/-- How many terminators a block has. -/
def terminators (g : Cfg) (b : ℕ) : ℕ := g.terms.countP fun t => t.1 = b

/-- Some terminator leads to the block. -/
def HasPred (g : Cfg) (b : ℕ) : Prop := ∃ t ∈ g.terms, b ∈ t.2

instance : Decidable (g.HasPred b) := inferInstanceAs (Decidable (∃ t ∈ g.terms, b ∈ t.2))

/-- Every block that has a predecessor has exactly one terminator. -/
def Terminated (g : Cfg) : Prop := ∀ b, g.HasPred b → g.terminators b = 1

/-! ## What the operations change -/

@[simp] lemma count_create : g.create.count = g.count + 1 := rfl

@[simp] lemma terminators_create : g.create.terminators x = g.terminators x := rfl

@[simp] lemma hasPred_create : g.create.HasPred x ↔ g.HasPred x := Iff.rfl

lemma terminators_terminate :
    (g.terminate b succs).terminators x = g.terminators x + if b = x then 1 else 0 := by
  simp [terminators, terminate, List.countP_append, List.countP_singleton]

@[simp] lemma terminators_terminate_self :
    (g.terminate b succs).terminators b = g.terminators b + 1 := by
  rw [terminators_terminate, if_pos rfl]

lemma terminators_terminate_of_ne (h : x ≠ b) :
    (g.terminate b succs).terminators x = g.terminators x := by
  rw [terminators_terminate, if_neg (Ne.symm h), Nat.add_zero]

@[simp] lemma hasPred_terminate :
    (g.terminate b succs).HasPred x ↔ g.HasPred x ∨ x ∈ succs := by
  simp [HasPred, terminate, or_and_right, exists_or]

lemma delete_of_terminators_eq_zero (h : g.terminators b = 0) : g.delete b = g := by
  have hnone : ∀ t ∈ g.terms, t.1 ≠ b := by
    intro t ht heq
    exact List.countP_eq_zero.mp h t ht (decide_eq_true heq)
  simp only [delete]
  rw [List.filter_eq_self.mpr fun t ht => decide_eq_true (hnone t ht)]

/-! ## Open blocks -/

/-- The account of a function under construction.  The blocks in `opens` and `quiet` have no
terminator, and nothing leads to those in `quiet`; every other block with a predecessor is
finished. -/
structure Pending (g : Cfg) (opens quiet : Multiset ℕ) : Prop where
  nodup : (opens + quiet).Nodup
  created : ∀ b ∈ opens + quiet, b < g.count
  bare : ∀ b ∈ opens + quiet, g.terminators b = 0
  calm : ∀ b ∈ quiet, ¬ g.HasPred b
  closed : ∀ b, g.HasPred b → b ∉ opens → g.terminators b = 1
  succs : ∀ b, g.HasPred b → b < g.count
  owners : ∀ b, g.terminators b ≠ 0 → b < g.count

namespace Pending

section

variable (h : Pending g opens quiet)

include h

lemma lt_of_mem (hb : b ∈ opens) : b < g.count :=
  h.created b (mem_add.mpr (Or.inl hb))

lemma eq_zero_of_mem (hb : b ∈ opens) : g.terminators b = 0 :=
  h.bare b (mem_add.mpr (Or.inl hb))

lemma count_notMem : g.count ∉ opens + quiet := by
  intro hmem
  exact lt_irrefl _ (h.created _ hmem)

lemma not_hasPred_count : ¬ g.HasPred g.count := by
  intro hpred
  exact lt_irrefl _ (h.succs _ hpred)

lemma terminators_count : g.terminators g.count = 0 := by
  by_contra hne
  exact lt_irrefl _ (h.owners _ hne)

lemma create : Pending g.create opens (g.count ::ₘ quiet) where
  nodup := by
    rw [add_cons]
    exact nodup_cons.mpr ⟨h.count_notMem, h.nodup⟩
  created := by
    intro b hb
    rw [add_cons, mem_cons] at hb
    rcases hb with rfl | hb
    · exact Nat.lt_succ_self _
    · exact (h.created b hb).trans (Nat.lt_succ_self _)
  bare := by
    intro b hb
    rw [add_cons, mem_cons] at hb
    rcases hb with rfl | hb
    · exact h.terminators_count
    · exact h.bare b hb
  calm := by
    intro b hb
    rcases mem_cons.mp hb with rfl | hb
    · exact h.not_hasPred_count
    · exact h.calm b hb
  closed := h.closed
  succs := fun b hb => (h.succs b hb).trans (Nat.lt_succ_self _)
  owners := fun b hb => (h.owners b hb).trans (Nat.lt_succ_self _)

end

lemma wake (h : Pending g opens (b ::ₘ quiet)) : Pending g (b ::ₘ opens) quiet where
  nodup := by
    have hsame : b ::ₘ opens + quiet = opens + b ::ₘ quiet := by
      rw [cons_add, add_cons]
    rw [hsame]
    exact h.nodup
  created := by
    intro c hc
    apply h.created c
    rwa [add_cons, ← cons_add]
  bare := by
    intro c hc
    apply h.bare c
    rwa [add_cons, ← cons_add]
  calm := fun c hc => h.calm c (mem_cons_of_mem hc)
  closed := fun c hc hnot => h.closed c hc fun hmem => hnot (mem_cons_of_mem hmem)
  succs := h.succs
  owners := h.owners

lemma drop (h : Pending g opens (b ::ₘ quiet)) : Pending g opens quiet where
  nodup := by
    have hcons := h.nodup
    rw [add_cons] at hcons
    exact (nodup_cons.mp hcons).2
  created := by
    intro c hc
    apply h.created c
    rw [add_cons]
    exact mem_cons_of_mem hc
  bare := by
    intro c hc
    apply h.bare c
    rw [add_cons]
    exact mem_cons_of_mem hc
  calm := fun c hc => h.calm c (mem_cons_of_mem hc)
  closed := h.closed
  succs := h.succs
  owners := h.owners

/-- An open block is finished.  Its successors may be open blocks, blocks that have a predecessor
already, and finished ones. -/
lemma terminate (h : Pending g (b ::ₘ opens) quiet)
    (hsuccs : ∀ x ∈ succs, x ∈ opens ∨ g.HasPred x ∨ g.terminators x = 1) :
    Pending (g.terminate b succs) opens quiet := by
  have hnot : b ∉ opens + quiet := by
    have hcons := h.nodup
    rw [cons_add] at hcons
    exact (nodup_cons.mp hcons).1
  have hmem : ∀ x ∈ opens + quiet, x ∈ b ::ₘ opens + quiet := by
    intro x hx
    rw [cons_add]
    exact mem_cons_of_mem hx
  have hne : ∀ x ∈ opens + quiet, x ≠ b := fun x hx heq => hnot (heq ▸ hx)
  have hself : b < g.count := h.lt_of_mem (mem_cons_self b opens)
  have hlt : ∀ x ∈ succs, x < g.count := by
    intro x hx
    rcases hsuccs x hx with hopen | hpred | hone
    · exact h.created x (hmem x (mem_add.mpr (Or.inl hopen)))
    · exact h.succs x hpred
    · exact h.owners x (by rw [hone]; exact one_ne_zero)
  refine ⟨?_, fun x hx => h.created x (hmem x hx), ?_, ?_, ?_, ?_, ?_⟩
  · have hcons := h.nodup
    rw [cons_add] at hcons
    exact (nodup_cons.mp hcons).2
  · intro x hx
    rw [terminators_terminate_of_ne (hne x hx)]
    exact h.bare x (hmem x hx)
  · intro x hx hpred
    have hadd : x ∈ opens + quiet := mem_add.mpr (Or.inr hx)
    rcases hasPred_terminate.mp hpred with hold | hnew
    · exact h.calm x hx hold
    · rcases hsuccs x hnew with hopen | hold | hone
      · have hdisj := (Multiset.nodup_add.mp h.nodup).2.2
        exact Multiset.disjoint_left.mp hdisj (mem_cons_of_mem hopen) hx
      · exact h.calm x hx hold
      · rw [h.bare x (hmem x hadd)] at hone
        exact zero_ne_one hone
  · intro x hpred hx
    by_cases heq : x = b
    · rw [heq, terminators_terminate_self, h.eq_zero_of_mem (mem_cons_self b opens)]
    · rw [terminators_terminate_of_ne heq]
      have hout : x ∉ b ::ₘ opens := by
        intro hin
        exact (mem_cons.mp hin).elim heq hx
      rcases hasPred_terminate.mp hpred with hold | hnew
      · exact h.closed x hold hout
      · rcases hsuccs x hnew with hopen | hold | hone
        · exact absurd hopen hx
        · exact h.closed x hold hout
        · exact hone
  · intro x hpred
    exact (hasPred_terminate.mp hpred).elim (h.succs x) (hlt x)
  · intro x hx
    by_cases heq : x = b
    · rw [heq]
      exact hself
    · rw [terminators_terminate_of_ne heq] at hx
      exact h.owners x hx

lemma terminators_of_finished (h : Pending g (b ::ₘ opens) quiet) (hx : g.terminators x = 1) :
    (g.terminate b succs).terminators x = 1 := by
  rw [terminators_terminate_of_ne, hx]
  rintro rfl
  rw [h.eq_zero_of_mem (mem_cons_self x opens)] at hx
  exact zero_ne_one hx

lemma terminated (h : Pending g 0 quiet) : g.Terminated :=
  fun b hb => h.closed b hb (Multiset.notMem_zero b)

end Pending

lemma pending_start : Pending ⟨1, []⟩ {0} 0 := by
  refine ⟨by simp, by simp, by simp [terminators], by simp, ?_, ?_, ?_⟩
  · rintro b ⟨t, ht, -⟩
    exact absurd ht List.not_mem_nil
  · rintro b ⟨t, ht, -⟩
    exact absurd ht List.not_mem_nil
  · intro b hb
    exact absurd rfl hb

end Cfg

end Watz.Lib
