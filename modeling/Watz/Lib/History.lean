import Mathlib

/-!
# Histories of a machine

A component that is driven from outside is a step function from a state and an input to an
output and a next state.  Its history records, for each input, the state it met and the
output it caused.  This file has the rules for reasoning about all histories: what one step
preserves holds along a run, and what the run did since some event can be read off a prefix.
-/

namespace Watz.Lib

variable {σ ι ο α : Type}

/-- One step of a history: the state before, the input and the output. -/
structure Entry (σ ι ο : Type) where
  before : σ
  input : ι
  output : ο

/-- The history of a run. -/
def history (step : σ → ι → ο × σ) : σ → List ι → List (Entry σ ι ο)
  | _, [] => []
  | s, i :: is => ⟨s, i, (step s i).1⟩ :: history step (step s i).2 is

/-- The state a run ends in. -/
def finalState (step : σ → ι → ο × σ) : σ → List ι → σ
  | s, [] => s
  | s, i :: is => finalState step (step s i).2 is

variable {step : σ → ι → ο × σ}

lemma history_append (s : σ) (is js : List ι) :
    history step s (is ++ js) = history step s is ++ history step (finalState step s is) js := by
  induction is generalizing s with
  | nil => rfl
  | cons i is ih => simp [history, finalState, ih]

lemma finalState_append (s : σ) (is js : List ι) :
    finalState step s (is ++ js) = finalState step (finalState step s is) js := by
  induction is generalizing s with
  | nil => rfl
  | cons i is ih => simp [finalState, ih]

lemma history_concat (s : σ) (is : List ι) (i : ι) :
    history step s (is ++ [i])
      = history step s is ++ [⟨finalState step s is, i, (step (finalState step s is) i).1⟩] := by
  rw [history_append]
  rfl

lemma mem_history (s : σ) (is js : List ι) (i : ι) :
    ⟨finalState step s is, i, (step (finalState step s is) i).1⟩
      ∈ history step s (is ++ i :: js) := by
  rw [history_append]
  exact List.mem_append_right _ List.mem_cons_self

variable {e : Entry σ ι ο} {is : List ι} {s : σ}

lemma output_of_mem_history (h : e ∈ history step s is) : e.output = (step e.before e.input).1 := by
  induction is generalizing s with
  | nil => simp [history] at h
  | cons i is ih =>
    rcases List.mem_cons.mp h with rfl | h
    · rfl
    · exact ih h

lemma input_mem_of_mem_history (h : e ∈ history step s is) : e.input ∈ is := by
  induction is generalizing s with
  | nil => simp [history] at h
  | cons i is ih =>
    rcases List.mem_cons.mp h with rfl | h
    · simp
    · exact List.mem_cons_of_mem _ (ih h)

lemma map_input_history (s : σ) (is : List ι) : (history step s is).map Entry.input = is := by
  induction is generalizing s with
  | nil => rfl
  | cons i is ih => simp [history, ih]

/-! ## Invariants along a run -/

variable {C : σ → ι → Prop} {I : σ → Prop} {post pre : List (Entry σ ι ο)}
  {reset set : Entry σ ι ο → Prop}

/-- An invariant that every step meeting `C` preserves holds at the end of every run whose
steps all meet `C`. -/
lemma invariant_finalState (hstep : ∀ s i, I s → C s i → I (step s i).2) (hs : I s)
    (hC : ∀ e ∈ history step s is, C e.before e.input) : I (finalState step s is) := by
  induction is generalizing s with
  | nil => exact hs
  | cons i is ih =>
    have hhead : C s i := hC ⟨s, i, (step s i).1⟩ (by simp [history])
    exact ih (hstep s i hs hhead) fun e he => hC e (by simp [history, he])

lemma invariant_before (hstep : ∀ s i, I s → C s i → I (step s i).2) (hs : I s)
    (hC : ∀ e ∈ history step s is, C e.before e.input) :
    ∀ e ∈ history step s is, I e.before := by
  induction is generalizing s with
  | nil => simp [history]
  | cons i is ih =>
    intro e he
    have hhead : C s i := hC ⟨s, i, (step s i).1⟩ (by simp [history])
    rcases List.mem_cons.mp he with rfl | he
    · exact hs
    · exact ih (hstep s i hs hhead) (fun e he => hC e (by simp [history, he])) e he

/-! ## What happened since an event -/

/-- Some element with `set` occurs in the list, and no element with `reset` behind it. -/
def Since (reset set : α → Prop) (l : List α) : Prop :=
  ∃ pre a post, l = pre ++ a :: post ∧ set a ∧ ∀ b ∈ post, ¬ reset b

/-- Every occurrence of `event` finds `set` since the last `reset` before it. -/
def Guarded (event reset set : α → Prop) (l : List α) : Prop :=
  ∀ pre a post, l = pre ++ a :: post → event a → Since reset set pre

lemma exists_of_history_eq_append (h : history step s is = pre ++ e :: post) :
    ∃ js ks, is = js ++ e.input :: ks ∧ pre = history step s js
      ∧ e.before = finalState step s js := by
  induction is generalizing s pre with
  | nil => simp [history] at h
  | cons i is ih =>
    cases pre with
    | nil =>
      obtain ⟨rfl, -⟩ := List.cons.inj h
      exact ⟨[], is, rfl, rfl, rfl⟩
    | cons a pre =>
      obtain ⟨rfl, htail⟩ := List.cons.inj h
      obtain ⟨js, ks, rfl, hpre, hbefore⟩ := ih htail
      exact ⟨i :: js, ks, rfl, by rw [hpre]; rfl, hbefore⟩

lemma exists_post_of_history_eq_append (h : history step s is = pre ++ e :: post) :
    ∃ ks, post = history step (step e.before e.input).2 ks
      ∧ finalState step s is = finalState step (step e.before e.input).2 ks := by
  obtain ⟨js, ks, rfl, rfl, hbefore⟩ := exists_of_history_eq_append h
  rw [history_append] at h
  have htail := List.append_cancel_left h
  rw [history, ← hbefore] at htail
  refine ⟨ks, (List.cons.inj htail).2.symm, ?_⟩
  rw [finalState_append, ← hbefore]
  rfl

/-- The rule for a flag that guards an event: only `set` raises it, it does not survive `reset`,
and the event happens only while it is up. -/
lemma guarded_of_flag (flag : σ → Prop) {event : Entry σ ι ο → Prop} (hinit : ¬ flag s)
    (hstep : ∀ e ∈ history step s is, flag (step e.before e.input).2 →
      set e ∨ flag e.before ∧ ¬ reset e)
    (hevent : ∀ e ∈ history step s is, event e → flag e.before) :
    Guarded event reset set (history step s is) := by
  -- by induction on the inputs of a prefix, taken from the end
  have hflag : ∀ js ks, is = js ++ ks → flag (finalState step s js) →
      Since reset set (history step s js) := by
    intro js
    induction js using List.reverseRecOn with
    | nil => exact fun ks _ h => absurd h hinit
    | append_singleton js i ih =>
      intro ks his h
      rw [finalState_append] at h
      rw [history_concat]
      have hmem : _ ∈ history step s (js ++ i :: ks) := mem_history s js ks i
      rw [List.append_cons, ← his] at hmem
      rcases hstep _ hmem h with hset | ⟨hbefore, hreset⟩
      · exact ⟨_, _, [], rfl, hset, by simp⟩
      · obtain ⟨pre, a, post, heq, ha, hpost⟩ := ih (i :: ks) (by simp [his]) hbefore
        refine ⟨pre, a, post ++ [⟨finalState step s js, i, (step (finalState step s js) i).1⟩],
          by rw [heq]; simp, ha, ?_⟩
        intro b hb
        rcases List.mem_append.mp hb with hb | hb
        · exact hpost b hb
        · rw [List.mem_singleton.mp hb]
          exact hreset
  intro pre e post heq he
  obtain ⟨js, ks, his, rfl, hbefore⟩ := exists_of_history_eq_append heq
  have hmem : e ∈ history step s is := by simp [heq]
  exact hflag js _ his (hbefore ▸ hevent e hmem he)

/-- The converse: a flag that `set` raises and only `reset` lowers is up if `set` has happened
since the last `reset`. -/
lemma flag_of_since (flag : σ → Prop) (hset : ∀ s i, set ⟨s, i, (step s i).1⟩ → flag (step s i).2)
    (hkeep : ∀ s i, flag s → ¬ reset ⟨s, i, (step s i).1⟩ → flag (step s i).2)
    (h : Since reset set (history step s is)) : flag (finalState step s is) := by
  obtain ⟨pre, a, post, heq, ha, hpost⟩ := h
  have hself : ∀ e ∈ history step s is, e = ⟨e.before, e.input, (step e.before e.input).1⟩ := by
    intro e he
    rw [← output_of_mem_history he]
  obtain ⟨ks, rfl, hfinal⟩ := exists_post_of_history_eq_append heq
  rw [hfinal]
  refine invariant_finalState hkeep ?_ ?_
  · have hmem : a ∈ history step s is := by simp [heq]
    exact hset _ _ (hself a hmem ▸ ha)
  · intro e he
    have hmem : e ∈ history step s is := by simp [heq, he]
    exact hself e hmem ▸ hpost e he

end Watz.Lib
