import Mathlib

/-!
# Stateful programs that may stop early

A C function that works on a context and returns a status code is a program in the monad
`EStateM ε σ`: it either returns a value or stops with an error, and in both cases it leaves
a state behind, with all the changes it made before it stopped.  This file states what a
successful execution of a compound program says about its parts, and the rules of pre- and
postconditions for both ways of ending.
-/

namespace Watz.Lib

variable {ε σ α β : Type}

/-! ## Successful executions -/

variable {b : β} {f : α → EStateM ε σ β} {s s' t : σ} {x : EStateM ε σ α} {a : α} {e : ε} {c : Prop}

lemma bind_eq_ok :
    (x >>= f) s = .ok b s' ↔ ∃ a t, x s = .ok a t ∧ f a t = .ok b s' := by
  change EStateM.bind x f s = _ ↔ _
  simp only [EStateM.bind]
  cases h : x s with
  | ok a t => simp
  | error e t => simp

lemma bind_of_ok (h : x s = .ok a t) : (x >>= f) s = f a t := by
  change EStateM.bind x f s = _
  simp only [EStateM.bind, h]

lemma bind_of_error (h : x s = .error e t) : (x >>= f) s = .error e t := by
  change EStateM.bind x f s = _
  simp only [EStateM.bind, h]

lemma bind_eq_error :
    (x >>= f) s = .error e s' ↔
      x s = .error e s' ∨ ∃ a t, x s = .ok a t ∧ f a t = .error e s' := by
  change EStateM.bind x f s = _ ↔ _
  simp only [EStateM.bind]
  cases h : x s with
  | ok a t => simp
  | error e' t => simp

lemma pure_eq_ok {b : α} :
    (pure a : EStateM ε σ α) s = .ok b s' ↔ a = b ∧ s = s' := by
  change EStateM.Result.ok a s = _ ↔ _
  simp

lemma throw_eq_ok :
    (throw e : EStateM ε σ α) s = .ok a s' ↔ False := by
  change EStateM.Result.error e s = _ ↔ _
  simp

lemma modify_eq_ok {f : σ → σ} {u : PUnit} :
    (modify f : EStateM ε σ PUnit) s = .ok u s' ↔ f s = s' := by
  change EStateM.Result.ok () (f s) = _ ↔ _
  simp

lemma get_eq_ok : (get : EStateM ε σ σ) s = .ok t s' ↔ s = t ∧ s = s' := by
  change EStateM.Result.ok s s = _ ↔ _
  simp

/-- Stop with an error if a condition holds. -/
def failIf (c : Prop) [Decidable c] (e : ε) : EStateM ε σ Unit := if c then throw e else pure ()

lemma failIf_eq_ok [Decidable c] {u : Unit} :
    failIf c e s = .ok u s' ↔ ¬ c ∧ s = s' := by
  rw [failIf]
  by_cases h : c
  · simp [h, throw_eq_ok]
  · simp [h, pure_eq_ok]

lemma failIf_of_pos [Decidable c] (h : c) :
    failIf c e s = .error e s := by
  rw [failIf, if_pos h]
  rfl

lemma failIf_of_neg [Decidable c] (h : ¬ c) :
    (failIf c e : EStateM ε σ Unit) = pure () := if_neg h

/-! The same for a program that begins with one of these. -/

lemma get_bind_eq_ok {f : σ → EStateM ε σ β} :
    (get >>= f) s = .ok b s' ↔ f s s = .ok b s' := by
  simp [bind_eq_ok, get_eq_ok]

lemma modify_bind_eq_ok {g : σ → σ} {f : PUnit → EStateM ε σ β} :
    (modify g >>= f) s = .ok b s' ↔ f () (g s) = .ok b s' := by
  simp [bind_eq_ok, modify_eq_ok, Unique.exists_iff]

lemma failIf_bind_eq_ok [Decidable c] {f : Unit → EStateM ε σ β} :
    (failIf c e >>= f) s = .ok b s' ↔ ¬ c ∧ f () s = .ok b s' := by
  simp [bind_eq_ok, failIf_eq_ok, Unique.exists_iff]

/-! The execution of a program that begins with one of these. -/

lemma run_get_bind (f : σ → EStateM ε σ β) (s : σ) : (get >>= f) s = f s s := rfl

lemma run_modify_bind (g : σ → σ) (f : PUnit → EStateM ε σ β) (s : σ) :
    (modify g >>= f) s = f () (g s) := rfl

lemma run_modify (g : σ → σ) (s : σ) : (modify g : EStateM ε σ PUnit) s = .ok () (g s) := rfl

/-! ## The state a program leaves behind -/

/-- The state at the end of an execution, successful or not. -/
def final : EStateM.Result ε σ α → σ
  | .ok _ s => s
  | .error _ s => s

@[simp] lemma final_ok (a : α) (s : σ) : final (.ok a s : EStateM.Result ε σ α) = s := rfl

@[simp] lemma final_error (e : ε) (s : σ) : final (.error e s : EStateM.Result ε σ α) = s := rfl

/-- What a successful execution returns and the state it leaves. -/
def result? : EStateM.Result ε σ α → Option (α × σ)
  | .ok a s => some (a, s)
  | .error _ _ => none

lemma result?_eq_some {r : EStateM.Result ε σ α} :
    result? r = some (a, s) ↔ r = .ok a s := by
  cases r <;> simp [result?]

/-- A test of what an execution returns and leaves. -/
lemma exists_ok_of_any {r : EStateM.Result ε σ α} {p : α × σ → Bool}
    (h : (result? r).any p = true) : ∃ a s, r = .ok a s ∧ p (a, s) = true := by
  cases r with
  | ok a s => exact ⟨a, s, rfl, h⟩
  | error e s => cases h

lemma final_bind (hf : ∀ a t, final (f a t) = t) (s : σ) : final ((x >>= f) s) = final (x s) := by
  cases h : x s with
  | ok a t => rw [bind_of_ok h, hf, final_ok]
  | error e t => rw [bind_of_error h, final_error, final_error]

/-! ## Pre- and postconditions -/

/-- Started in a state with `P`, the program ends with `Q` if it returns and with `E` if it
stops. -/
def Triple (P : σ → Prop) (x : EStateM ε σ α) (Q : α → σ → Prop) (E : σ → Prop) : Prop :=
  ∀ s, P s → (∀ a s', x s = .ok a s' → Q a s') ∧ (∀ e s', x s = .error e s' → E s')

namespace Triple

variable {P P' : σ → Prop} {E E' : σ → Prop} {Q Q' : α → σ → Prop} {R : β → σ → Prop}

lemma conseq (h : Triple P x Q E) (hP : ∀ s, P' s → P s) (hQ : ∀ a s, Q a s → Q' a s)
    (hE : ∀ s, E s → E' s) : Triple P' x Q' E' := by
  intro s hs
  obtain ⟨hok, herr⟩ := h s (hP s hs)
  exact ⟨fun a s' ha => hQ a s' (hok a s' ha), fun e s' he => hE s' (herr e s' he)⟩

lemma weaken (h : Triple P x Q E) (hE : ∀ s, E s → E' s) : Triple P x Q E' :=
  h.conseq (fun _ => id) (fun _ _ => id) hE

lemma final_of (h : Triple P x (fun _ => E) E) (hs : P s) :
    E (final (x s)) := by
  obtain ⟨hok, herr⟩ := h s hs
  cases hx : x s with
  | ok a t => exact hok a t hx
  | error e t => exact herr e t hx

protected lemma pure (h : ∀ s, P s → Q a s) :
    Triple P (pure a : EStateM ε σ α) Q E := by
  intro s hs
  refine ⟨fun b s' hb => ?_, fun e s' he => ?_⟩
  · obtain ⟨rfl, rfl⟩ := pure_eq_ok.mp hb
    exact h s hs
  · exact absurd he (by change EStateM.Result.ok a s ≠ _; simp)

protected lemma throw (h : ∀ s, P s → E s) :
    Triple P (throw e : EStateM ε σ α) Q E := by
  intro s hs
  refine ⟨fun b s' hb => (throw_eq_ok.mp hb).elim, fun e' s' he => ?_⟩
  have hst : s = s' := by
    change EStateM.Result.error e s = _ at he
    simp only [EStateM.Result.error.injEq] at he
    exact he.2
  exact hst ▸ h s hs

protected lemma modify {f : σ → σ} {Q : PUnit → σ → Prop} (h : ∀ s, P s → Q () (f s)) :
    Triple P (modify f : EStateM ε σ PUnit) Q E := by
  intro s hs
  refine ⟨fun u s' hu => ?_, fun e s' he => ?_⟩
  · rw [← modify_eq_ok.mp hu]
    exact h s hs
  · exact absurd he (by change EStateM.Result.ok () (f s) ≠ _; simp)

protected lemma get {Q : σ → σ → Prop} (h : ∀ s, P s → Q s s) :
    Triple P (get : EStateM ε σ σ) Q E := by
  intro s hs
  refine ⟨fun t s' ht => ?_, fun e s' he => ?_⟩
  · obtain ⟨rfl, rfl⟩ := get_eq_ok.mp ht
    exact h s hs
  · exact absurd he (by change EStateM.Result.ok s s ≠ _; simp)

protected lemma bind (hx : Triple P x Q E) (hf : ∀ a, Triple (Q a) (f a) R E) :
    Triple P (x >>= f) R E := by
  intro s hs
  obtain ⟨hok, herr⟩ := hx s hs
  change (∀ a s', EStateM.bind x f s = .ok a s' → R a s')
    ∧ (∀ e s', EStateM.bind x f s = .error e s' → E s')
  simp only [EStateM.bind]
  cases h : x s with
  | ok a t => exact hf a t (hok a t h)
  | error e t =>
    refine ⟨by simp, fun e' s' he => ?_⟩
    simp only [EStateM.Result.error.injEq] at he
    exact he.2 ▸ herr e t h

lemma get_bind {f : σ → EStateM ε σ β} (h : ∀ s, P s → Triple (fun t => t = s) (f s) R E) :
    Triple P (get >>= f) R E := fun s hs => h s hs s rfl

lemma modify_bind (mid : σ → Prop) {f : σ → σ} {g : PUnit → EStateM ε σ β}
    (h : ∀ s, P s → mid (f s)) (hg : Triple mid (g ()) R E) : Triple P (modify f >>= g) R E :=
  fun s hs => hg (f s) (h s hs)

protected lemma ite [Decidable c] {y : EStateM ε σ α} (hx : c → Triple P x Q E)
    (hy : ¬ c → Triple P y Q E) :
    Triple P (if c then x else y) Q E := by
  by_cases h : c
  · simpa [h] using hx h
  · simpa [h] using hy h

lemma failIf_bind [Decidable c] {f : Unit → EStateM ε σ β} (hE : ∀ s, P s → E s)
    (h : ¬ c → Triple P (f ()) R E) : Triple P (failIf c e >>= f) R E := by
  intro s hs
  by_cases hc : c
  · rw [bind_of_error (failIf_of_pos hc)]
    refine ⟨fun a t h => (nomatch h), fun e' t h => ?_⟩
    obtain ⟨rfl, rfl⟩ := EStateM.Result.error.inj h
    exact hE s hs
  · rw [bind_of_ok (failIf_eq_ok.mpr ⟨hc, rfl⟩ : failIf c e s = .ok () s)]
    exact h hc s hs

end Triple

/-! ## Invariants -/

/-- The program leaves every state with `I` in a state with `I`, however it ends. -/
def Keeps (I : σ → Prop) (x : EStateM ε σ α) : Prop := Triple I x (fun _ => I) I

namespace Keeps

variable {I : σ → Prop}

lemma final_of (h : Keeps I x) (hs : I s) : I (final (x s)) :=
  Triple.final_of h hs

protected lemma pure (a : α) : Keeps I (pure a : EStateM ε σ α) := Triple.pure fun _ hs => hs

protected lemma throw (e : ε) : Keeps I (throw e : EStateM ε σ α) := Triple.throw fun _ hs => hs

protected lemma get : Keeps I (get : EStateM ε σ σ) := Triple.get fun _ hs => hs

protected lemma modify {f : σ → σ} (h : ∀ s, I s → I (f s)) :
    Keeps I (modify f : EStateM ε σ PUnit) := Triple.modify h

protected lemma bind (hx : Keeps I x) (hf : ∀ a, Keeps I (f a)) :
    Keeps I (x >>= f) := Triple.bind hx hf

protected lemma ite [Decidable c] {y : EStateM ε σ α} (hx : Keeps I x) (hy : Keeps I y) :
    Keeps I (if c then x else y) := Triple.ite (fun _ => hx) (fun _ => hy)

protected lemma failIf [Decidable c] (e : ε) : Keeps I (failIf c e) :=
  Keeps.ite (Keeps.throw e) (Keeps.pure ())

protected lemma and {J : σ → Prop} (hI : Keeps I x) (hJ : Keeps J x) :
    Keeps (fun s => I s ∧ J s) x := fun s hs =>
  ⟨fun a t h => ⟨(hI s hs.1).1 a t h, (hJ s hs.2).1 a t h⟩,
    fun e t h => ⟨(hI s hs.1).2 e t h, (hJ s hs.2).2 e t h⟩⟩

lemma of_eq {γ : Type} {p : σ → γ} (h : ∀ c, Keeps (fun s => p s = c) x) (P : γ → Prop) :
    Keeps (fun s => P (p s)) x := by
  intro s hs
  obtain ⟨hok, herr⟩ := h (p s) s rfl
  exact ⟨fun a t ht => (congrArg P (hok a t ht)).mpr hs,
    fun e t ht => (congrArg P (herr e t ht)).mpr hs⟩

lemma failIf_bind [Decidable c] {f : Unit → EStateM ε σ β} (h : ¬ c → Keeps I (f ())) :
    Keeps I (failIf c e >>= f) :=
  Triple.failIf_bind (fun _ hs => hs) h

lemma get_bind {f : σ → EStateM ε σ β} (h : ∀ s, I s → Keeps I (f s)) :
    Keeps I (get >>= f) := fun s hs => h s hs s hs

end Keeps

end Watz.Lib
