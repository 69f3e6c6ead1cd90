import Mathlib

/-!
# A ledger of resources

A component acquires resources and keeps references to them, one for each kind; later it
releases what it refers to.  A reference that is overwritten or cleared does not release the
resource behind it.  The ledger gives every acquisition a number and keeps which resources are
live and which releases have been made.  This file has the rules for showing that nothing stays
live and that nothing is released twice.
-/

namespace Watz.Lib

/-- The acquisitions and releases so far, and the references of the component. -/
structure Ledger (ρ : Type) where
  /-- The number of the next acquisition. -/
  next : ℕ
  /-- The resources that are live. -/
  live : Multiset (ρ × ℕ)
  /-- The releases that have been made. -/
  released : Multiset (ρ × ℕ)
  /-- The references of the component. -/
  refs : ρ → Option ℕ

namespace Ledger

variable {ρ : Type} [DecidableEq ρ] {l : Ledger ρ} {r : ρ} {rs : List ρ}

/-- The ledger before the first acquisition. -/
def empty : Ledger ρ := ⟨0, 0, 0, fun _ => none⟩

/-- All references are cleared. -/
def forget (l : Ledger ρ) : Ledger ρ := { l with refs := fun _ => none }

/-- A resource is acquired, and the reference of its kind is set to it. -/
def acquire (l : Ledger ρ) (r : ρ) : Ledger ρ where
  next := l.next + 1
  live := (r, l.next) ::ₘ l.live
  released := l.released
  refs := Function.update l.refs r (some l.next)

/-- The resource that a reference is set to is released; the reference stays as it is. -/
def release (l : Ledger ρ) (r : ρ) : Ledger ρ :=
  match l.refs r with
  | none => l
  | some i => { l with live := l.live.erase (r, i), released := (r, i) ::ₘ l.released }

/-- Every acquired resource is either live or has been released once. -/
def Balanced (l : Ledger ρ) : Prop :=
  (l.live + l.released).map Prod.snd = Multiset.range l.next

/-- No resource is live, and every acquired one has been released exactly once. -/
def Settled (l : Ledger ρ) : Prop :=
  l.live = 0 ∧ l.released.map Prod.snd = Multiset.range l.next

/-- The live resources are those the component refers to. -/
def Held (l : Ledger ρ) : Prop := ∀ r i, (r, i) ∈ l.live ↔ l.refs r = some i

omit [DecidableEq ρ] in
lemma settled_iff : l.Settled ↔ l.live = 0 ∧ l.Balanced := by
  refine and_congr_right fun hlive => ?_
  rw [Balanced, hlive, zero_add]

/-! ## Acquisition -/

lemma Balanced.acquire (h : l.Balanced) (r : ρ) : (l.acquire r).Balanced := by
  change ((r, l.next) ::ₘ l.live + l.released).map Prod.snd = Multiset.range (l.next + 1)
  rw [Multiset.cons_add, Multiset.map_cons, h, Multiset.range_succ]

lemma Held.acquire (h : l.Held) (hr : l.refs r = none) : (l.acquire r).Held := by
  intro r' i
  change (r', i) ∈ (r, l.next) ::ₘ l.live ↔ Function.update l.refs r (some l.next) r' = some i
  rw [Multiset.mem_cons, h r' i]
  by_cases hrr : r' = r
  · subst hrr
    simp [hr, eq_comm]
  · simp [hrr]

omit [DecidableEq ρ] in
lemma held_forget (h : l.live = 0) : l.forget.Held := by
  intro r i
  simp [forget, h]

lemma acquire_refs_of_ne {r' : ρ} (h : r' ≠ r) : (l.acquire r).refs r' = l.refs r' :=
  Function.update_of_ne h _ _

lemma acquireAll (hbalanced : l.Balanced) (hheld : l.Held) (hrs : rs.Nodup)
    (hrefs : ∀ r ∈ rs, l.refs r = none) :
    (rs.foldl acquire l).Balanced ∧ (rs.foldl acquire l).Held
      ∧ ∀ r ∉ rs, (rs.foldl acquire l).refs r = l.refs r := by
  induction rs generalizing l with
  | nil => exact ⟨hbalanced, hheld, fun _ _ => rfl⟩
  | cons r rs ih =>
    rw [List.nodup_cons] at hrs
    have hr : l.refs r = none := hrefs r List.mem_cons_self
    obtain ⟨hb, hh, hother⟩ := ih (hbalanced.acquire r) (hheld.acquire hr) hrs.2 fun r' hr' => by
      have hne : r' ≠ r := fun heq => hrs.1 (heq ▸ hr')
      rw [acquire_refs_of_ne hne]
      exact hrefs r' (List.mem_cons_of_mem _ hr')
    refine ⟨hb, hh, fun r' hr' => ?_⟩
    rw [List.mem_cons, not_or] at hr'
    rw [List.foldl_cons, hother r' hr'.2, acquire_refs_of_ne hr'.1]

/-! ## Release -/

@[simp] lemma release_refs : (l.release r).refs = l.refs := by
  rw [release]
  cases l.refs r <;> rfl

lemma Balanced.release (h : l.Balanced) (hlive : ∀ i, l.refs r = some i → (r, i) ∈ l.live) :
    (l.release r).Balanced := by
  rw [Ledger.release]
  cases hr : l.refs r with
  | none => exact h
  | some i =>
    change (l.live.erase (r, i) + (r, i) ::ₘ l.released).map Prod.snd = Multiset.range l.next
    rw [Multiset.add_cons, ← Multiset.cons_add, Multiset.cons_erase (hlive i hr), h]

lemma mem_live_release {p : ρ × ℕ} (h : p ∈ (l.release r).live) : p ∈ l.live := by
  rw [release] at h
  cases hr : l.refs r with
  | none => rwa [hr] at h
  | some i =>
    rw [hr] at h
    exact Multiset.mem_of_mem_erase h

lemma mem_live_release_of_ne {r' : ρ} {i : ℕ} (hne : r' ≠ r) (h : (r', i) ∈ l.live) :
    (r', i) ∈ (l.release r).live := by
  rw [release]
  cases hr : l.refs r with
  | none => exact h
  | some j => exact (Multiset.mem_erase_of_ne fun heq => hne (Prod.mk.inj heq).1).mpr h

omit [DecidableEq ρ] in
lemma Balanced.nodup_live (h : l.Balanced) : l.live.Nodup := by
  have hnodup : ((l.live + l.released).map Prod.snd).Nodup := by
    rw [h]
    exact Multiset.nodup_range _
  exact (Multiset.nodup_add.mp (Multiset.Nodup.of_map _ hnodup)).1

lemma not_mem_live_release (h : l.Balanced) {i : ℕ} (hr : l.refs r = some i) :
    (r, i) ∉ (l.release r).live := by
  rw [release, hr]
  exact h.nodup_live.notMem_erase

lemma releaseAll (hbalanced : l.Balanced) (hrs : rs.Nodup)
    (hlive : ∀ r ∈ rs, ∀ i, l.refs r = some i → (r, i) ∈ l.live) :
    (rs.foldl release l).Balanced
      ∧ (∀ p ∈ (rs.foldl release l).live, p ∈ l.live)
      ∧ ∀ r ∈ rs, ∀ i, l.refs r = some i → (r, i) ∉ (rs.foldl release l).live := by
  induction rs generalizing l with
  | nil => exact ⟨hbalanced, fun _ hp => hp, by simp⟩
  | cons r rs ih =>
    rw [List.nodup_cons] at hrs
    have hb := hbalanced.release (hlive r List.mem_cons_self)
    obtain ⟨hb', hsub, hgone⟩ := ih hb hrs.2 fun r' hr' i hi => by
      rw [release_refs] at hi
      have hne : r' ≠ r := fun heq => hrs.1 (heq ▸ hr')
      exact mem_live_release_of_ne hne (hlive r' (List.mem_cons_of_mem _ hr') i hi)
    refine ⟨hb', fun p hp => mem_live_release (hsub p hp), fun r' hr' i hi => ?_⟩
    rcases List.mem_cons.mp hr' with rfl | hr'
    · exact fun hmem => not_mem_live_release hbalanced hi (hsub _ hmem)
    · exact hgone r' hr' i (by rwa [release_refs])

lemma settled_releaseAll (hbalanced : l.Balanced) (hheld : l.Held) (hrs : rs.Nodup)
    (hrefs : ∀ r ∉ rs, l.refs r = none) : (rs.foldl release l).Settled := by
  obtain ⟨hb, hsub, hgone⟩ := releaseAll hbalanced hrs fun r _ i hi => (hheld r i).mpr hi
  refine settled_iff.mpr ⟨Multiset.eq_zero_of_forall_notMem ?_, hb⟩
  rintro ⟨r, i⟩ hmem
  have hi : l.refs r = some i := (hheld r i).mp (hsub _ hmem)
  by_cases hr : r ∈ rs
  · exact hgone r hr i hi hmem
  · rw [hrefs r hr] at hi
    cases hi

end Ledger

end Watz.Lib
