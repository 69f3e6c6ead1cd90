import Mathlib

/-!
# Functions with an exit label

A C function that works with handles often has this shape: local variables for the handles,
not initialised; a row of calls, some of which allocate a handle into a variable; and a label at
its end, where the variables are freed, to which a failing call jumps.  A failing call may also
return at once.  This file has such functions and what they do with their handles, for all ways
their calls can end.  Since the calls come one after the other, it is enough to know the first one
that does not succeed.
-/

namespace Watz.Lib

/-- How a call ends.  A panic ends the whole application. -/
inductive CallResult where
  | ok
  | error
  | panic
deriving DecidableEq

/-- What a function does when a call returns an error. -/
inductive Exit where
  /-- `goto out`, where the variables are freed. -/
  | out
  /-- `return` on the spot. -/
  | leave
deriving DecidableEq

/-- What a successful call does with the handles of the function. -/
inductive Effect (V : Type) where
  /-- It allocates no handle, or hands the new handle over to someone else. -/
  | none
  /-- It writes a new handle to a local variable. -/
  | allocates (v : V)

/-- A call of a function, with what the function does if it fails. -/
structure Step (K V : Type) where
  site : K
  effect : Effect V
  exit : Exit

/-- A function: its calls, and the variables that it frees at the exit label. -/
structure Routine (K V : Type) where
  steps : List (Step K V)
  cleanup : List V

/-- The handles of a function during its execution.  They are numbered as they are allocated, and
a variable that has not been written holds none of them. -/
structure Frame (V : Type) where
  vars : V → Option ℕ
  allocated : ℕ
  freed : List (Option ℕ)

section

variable {K V : Type} [DecidableEq V]

namespace Frame

/-- The frame at the beginning. -/
def entry : Frame V := ⟨fun _ => none, 0, []⟩

/-- The frame after a successful call. -/
def perform (s : Frame V) : Effect V → Frame V
  | .none => s
  | .allocates v =>
    { s with vars := Function.update s.vars v (some s.allocated), allocated := s.allocated + 1 }

/-- The frame after the variables have been freed, in this order. -/
def cleanup (s : Frame V) (vs : List V) : Frame V := { s with freed := s.freed ++ vs.map s.vars }

/-- The frame at the end of a function that leaves in a given way. -/
def leave (s : Frame V) (vs : List V) : Exit → Frame V
  | .out => s.cleanup vs
  | .leave => s

/-- Each allocated handle has been freed exactly once, and nothing else has been freed. -/
def Settled (s : Frame V) : Prop := s.freed.Perm ((List.range s.allocated).map some)

instance (s : Frame V) : Decidable s.Settled := inferInstanceAs (Decidable (List.Perm _ _))

end Frame

namespace Routine

/-- The execution of the calls; there is no frame at the end if a call panics. -/
def exec (result : K → CallResult) (vs : List V) : List (Step K V) → Frame V → Option (Frame V)
  | [], s => some (s.cleanup vs)
  | c :: cs, s =>
    match result c.site with
    | .ok => exec result vs cs (s.perform c.effect)
    | .error => some (s.leave vs c.exit)
    | .panic => none

/-- The function returns with its handles settled, unless the application ends. -/
def Disciplined (f : Routine K V) (result : K → CallResult) : Prop :=
  ∀ s, exec result f.cleanup f.steps Frame.entry = some s → s.Settled

/-- How a row of calls ends: at its end, or at the first call that does not succeed. -/
inductive Ending (K : Type) where
  | completes
  | fails (site : K)
  | panics
deriving DecidableEq

/-- The ending of a row of calls. -/
def ending (result : K → CallResult) : List K → Ending K
  | [] => .completes
  | k :: ks =>
    match result k with
    | .ok => ending result ks
    | .error => .fails k
    | .panic => .panics

/-- The call sites of a function. -/
def sites (f : Routine K V) : List K := f.steps.map Step.site

lemma mem_of_ending_eq_fails {result : K → CallResult} {ks : List K} {k : K}
    (h : ending result ks = .fails k) : k ∈ ks := by
  induction ks with
  | nil => simp [ending] at h
  | cons k' ks ih =>
    cases hresult : result k' with
    | ok =>
      simp only [ending, hresult] at h
      exact List.mem_cons_of_mem _ (ih h)
    | error =>
      simp only [ending, hresult, Ending.fails.injEq] at h
      exact h ▸ List.mem_cons_self
    | panic => simp [ending, hresult] at h

variable [DecidableEq K]

/-- The frame a function ends with, from the ending of its calls alone. -/
def frameAt (vs : List V) : List (Step K V) → Frame V → Ending K → Option (Frame V)
  | _, _, .panics => none
  | [], s, _ => some (s.cleanup vs)
  | c :: cs, s, .completes => frameAt vs cs (s.perform c.effect) .completes
  | c :: cs, s, .fails k =>
    if c.site = k then some (s.leave vs c.exit)
    else frameAt vs cs (s.perform c.effect) (.fails k)

lemma exec_eq_frameAt {result : K → CallResult} {vs : List V} {cs : List (Step K V)}
    (hnodup : (cs.map Step.site).Nodup) (s : Frame V) :
    exec result vs cs s = frameAt vs cs s (ending result (cs.map Step.site)) := by
  induction cs generalizing s with
  | nil => rfl
  | cons c cs ih =>
    obtain ⟨hfresh, hnodup⟩ := List.nodup_cons.mp hnodup
    cases hresult : result c.site with
    | ok =>
      simp only [exec, hresult, ih hnodup, List.map_cons, ending]
      cases hending : ending result (cs.map Step.site) with
      | completes => rfl
      | panics => cases cs <;> rfl
      | fails k =>
        -- the call that fails is a later one
        have hne : c.site ≠ k := fun h => hfresh (h ▸ mem_of_ending_eq_fails hending)
        rw [frameAt, if_neg hne]
    | error => simp [exec, hresult, ending, frameAt]
    | panic => simp [exec, hresult, ending, frameAt]

/-- A function is disciplined exactly if its calls do not end in a way that is known to be
harmful. -/
lemma disciplined_iff_of_harmful {f : Routine K V} (result : K → CallResult)
    (hnodup : f.sites.Nodup) (harmful : List (Ending K))
    (hcomplete : ∀ e ∈ .completes :: .panics :: f.sites.map Ending.fails,
      (∀ s ∈ frameAt f.cleanup f.steps Frame.entry e, s.Settled) ↔ e ∉ harmful) :
    f.Disciplined result ↔ ending result f.sites ∉ harmful := by
  rw [← hcomplete]
  · show (∀ s, exec result f.cleanup f.steps Frame.entry = some s → s.Settled) ↔ _
    rw [exec_eq_frameAt hnodup]
    rfl
  · cases hending : ending result f.sites with
    | completes => simp
    | panics => simp
    | fails k => simp [mem_of_ending_eq_fails hending]

end Routine

end

end Watz.Lib
