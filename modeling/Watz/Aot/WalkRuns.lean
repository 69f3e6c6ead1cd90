import Watz.Aot.Bodies

/-!
# Runs of the walk

A run of the walk is a sequence of steps with the positions they visit.  This file relates runs to
the loop with its fuel, and it says what every step does, on any state whatever: `frame_ip` does not
go back behind a position once it and the ends of all blocks are beyond it, and no start of an
`else` arm is forgotten.  This carries a fault of the walk to its end.
-/

namespace Watz.Aot.Walk

open Lib (Cfg)
open Option (bind_eq_bind bind_eq_some_iff pure_def)

variable {code : List CodeByte} {s s₁ s' t : State} {vs ws : List ℕ} {q : ℕ}

/-! ## Sequences of steps -/

/-- The walk goes from one state to another and visits some positions. -/
inductive Visits (code : List CodeByte) : State → List ℕ → State → Prop where
  | refl (s : State) : Visits code s [] s
  | head {s s₁ s' : State} {vs : List ℕ} (hstep : step code s = some s₁)
      (hrest : Visits code s₁ vs s') : Visits code s (s.ip :: vs) s'

lemma Visits.single (h : step code s = some s') : Visits code s [s.ip] s' := .head h (.refl s')

lemma Visits.trans (h1 : Visits code s vs s₁) (h2 : Visits code s₁ ws s') :
    Visits code s (vs ++ ws) s' := by
  induction h1 with
  | refl => exact h2
  | head hstep _ ih => exact .head hstep (ih h2)

lemma lt_length_of_step (h : step code s = some s') : s.ip < code.length := by
  by_contra hge
  have hnone : code[s.ip]? = none := List.getElem?_eq_none (not_lt.mp hge)
  rw [step, hnone] at h
  exact absurd h (by simp)

/-- A walk that comes to its end goes through every state on its way. -/
lemma Visits.split (h1 : Visits code s vs s₁) (h : Visits code s ws s')
    (hend : code.length ≤ s'.ip) : ∃ us, ws = vs ++ us ∧ Visits code s₁ us s' := by
  induction h1 generalizing ws with
  | refl => exact ⟨ws, rfl, h⟩
  | head hstep _ ih =>
    cases h with
    | refl => exact absurd hend (not_le.mpr (lt_length_of_step hstep))
    | head hstep' hrest =>
      obtain rfl := Option.some.inj (hstep.symm.trans hstep')
      obtain ⟨us, rfl, hus⟩ := ih hrest
      exact ⟨us, rfl, hus⟩

lemma visits_of_walk {fuel : ℕ} (h : walk code fuel s = some (vs, s')) :
    Visits code s vs s' ∧ code.length ≤ s'.ip := by
  induction fuel generalizing s vs with
  | zero =>
    rw [walk] at h
    split at h
    · obtain ⟨rfl, rfl⟩ := by simpa only [Option.some.injEq, Prod.mk.injEq] using h
      exact ⟨.refl _, ‹_›⟩
    · exact absurd h (by simp)
  | succ fuel ih =>
    rw [walk] at h
    split at h
    · obtain ⟨rfl, rfl⟩ := by simpa only [Option.some.injEq, Prod.mk.injEq] using h
      exact ⟨.refl _, ‹_›⟩
    · simp only [bind_eq_bind, bind_eq_some_iff, Prod.exists, pure_def,
        Option.some.injEq, Prod.mk.injEq] at h
      obtain ⟨s₁, hstep, us, final, hwalk, rfl, rfl⟩ := h
      obtain ⟨hvisits, hend⟩ := ih hwalk
      exact ⟨.head hstep hvisits, hend⟩

/-- Fuel for every position that is visited is enough. -/
lemma walk_of_visits (h : Visits code s vs s') (hend : code.length ≤ s'.ip) :
    ∀ fuel, vs.length ≤ fuel → walk code fuel s = some (vs, s') := by
  induction h with
  | refl s =>
    intro fuel _
    cases fuel <;> rw [walk, if_pos hend]
  | head hstep _ ih =>
    intro fuel hfuel
    obtain ⟨n, rfl⟩ := Nat.exists_eq_add_of_le' (Nat.one_le_of_lt hfuel)
    rw [walk, if_neg (not_le.mpr (lt_length_of_step hstep))]
    simp only [hstep, bind_eq_bind, Option.bind_some]
    rw [ih hend n (Nat.le_of_succ_le_succ hfuel)]
    rfl

/-! ## What any step keeps -/

/-- The walk is beyond a position, and so are the ends of all blocks. -/
structure Beyond (q : ℕ) (s : State) : Prop where
  ip : q < s.ip
  ends : ∀ b ∈ s.blocks, q ≤ b.wasmCodeEnd

/-- Part of a step: it does not go back, and it forgets no start of an `else` arm. -/
structure Onward (s s' : State) : Prop where
  beyond : ∀ q, Beyond q s → Beyond q s'
  elses : s.elses ⊆ s'.elses

namespace Onward

lemma refl (s : State) : Onward s s := ⟨fun _ h => h, List.Subset.refl _⟩

lemma trans (h1 : Onward s s₁) (h2 : Onward s₁ s') : Onward s s' :=
  ⟨fun q h => h2.beyond q (h1.beyond q h), List.Subset.trans h1.elses h2.elses⟩

lemma of_eq (hip : s'.ip = s.ip) (hblocks : s'.blocks = s.blocks) (helses : s'.elses = s.elses) :
    Onward s s' :=
  ⟨fun q h => ⟨by rw [hip]; exact h.ip, by rw [hblocks]; exact h.ends⟩, by rw [helses]; simp⟩

lemma of_blocks (hip : s.ip ≤ s'.ip) (helses : s.elses ⊆ s'.elses)
    (hblocks : ∀ b' ∈ s'.blocks, s.ip ≤ b'.wasmCodeEnd ∨
      ∃ b ∈ s.blocks, b'.wasmCodeEnd = b.wasmCodeEnd) : Onward s s' := by
  refine ⟨fun q h => ⟨h.ip.trans_le hip, ?_⟩, helses⟩
  intro b' hb'
  rcases hblocks b' hb' with hfar | ⟨b, hb, heq⟩
  · exact h.ip.le.trans hfar
  · rw [heq]
    exact h.ends b hb

end Onward

variable {n e params results : ℕ} {prev blocks : List Block} {isIf : Bool} {const : Option Bool}
  {depths : List ℕ}

lemma onward_head {b : Block} (hblocks : s.blocks = b :: prev) (v : List Value) :
    Onward s { s with blocks := { b with valueStack := v } :: prev } := by
  refine Onward.of_blocks le_rfl (List.Subset.refl _) ?_
  intro b' hb'
  rcases List.mem_cons.mp hb' with rfl | hb'
  · exact Or.inr ⟨b, by simp [hblocks], rfl⟩
  · exact Or.inr ⟨b', by simp [hblocks, hb'], rfl⟩

lemma onward_pop (h : s.pop n = some s') : Onward s s' := by
  unfold State.pop at h
  split at h
  · exact absurd h (by simp)
  · rename_i b prev hblocks
    split at h
    · obtain rfl := Option.some.inj h
      exact onward_head hblocks _
    · exact absurd h (by simp)

lemma onward_push {values : List Value} (h : s.push values = some s') : Onward s s' := by
  unfold State.push at h
  split at h
  · exact absurd h (by simp)
  · rename_i b prev hblocks
    obtain rfl := Option.some.inj h
    exact onward_head hblocks _

lemma onward_exceptionBlock (s : State) : Onward s s.exceptionBlock.1 := by
  unfold State.exceptionBlock
  split
  · exact Onward.refl s
  · exact Onward.of_eq rfl rfl rfl

lemma onward_aotEmitException (s : State) (condBrElse : Option ℕ) :
    Onward s (s.aotEmitException condBrElse) := by
  refine (onward_exceptionBlock s).trans ?_
  cases condBrElse with
  | none => exact Onward.of_eq rfl rfl rfl
  | some b => exact Onward.of_eq rfl rfl rfl

lemma onward_emitChecks (n : ℕ) : ∀ s : State, Onward s (s.emitChecks n) := by
  induction n with
  | zero => exact Onward.refl
  | succ n ih =>
    intro s
    have hcreate : Onward s s.create := Onward.of_eq rfl rfl rfl
    exact (hcreate.trans (onward_aotEmitException _ _)).trans (ih _)

variable {b : Block} {depth : ℕ}

lemma elses_leaveBlock (h : leaveBlock s b prev = some s') :
    s.elses ⊆ s'.elses := by
  unfold leaveBlock at h
  simp only [bind_eq_bind, bind_eq_some_iff] at h
  obtain ⟨e, -, h⟩ := h
  split at h
  · obtain rfl := Option.some.inj h
    exact List.Subset.refl _
  · exact (onward_push h).elses

/-- Behind a block the walk is beyond all that lies before the end of the block. -/
lemma beyond_leaveBlock (h : leaveBlock s b prev = some s')
    (hends : ∀ c ∈ b :: prev, q ≤ c.wasmCodeEnd) : Beyond q s' := by
  unfold leaveBlock at h
  simp only [bind_eq_bind, bind_eq_some_iff] at h
  obtain ⟨e, -, h⟩ := h
  have hleft : Beyond q { s with ip := b.wasmCodeEnd + 1, builder := e, blocks := prev } :=
    ⟨Nat.lt_succ_of_le (hends b (by simp)), fun c hc => hends c (by simp [hc])⟩
  split at h
  · obtain rfl := Option.some.inj h
    exact ⟨hleft.ip, hleft.ends⟩
  · exact (onward_push h).beyond q hleft

lemma le_of_elsePending {ip : ℕ} (h : b.elsePending ip = some (e, q)) : ip ≤ q := by
  unfold Block.elsePending at h
  split at h
  · split at h
    · split at h
      · obtain ⟨-, rfl⟩ := by simpa only [Option.some.injEq, Prod.mk.injEq] using h
        assumption
      · exact absurd h (by simp)
    · exact absurd h (by simp)
  · exact absurd h (by simp)

@[simp] lemma ip_dropEnd (s : State) (b : Block) : (s.dropEnd b).ip = s.ip := by
  unfold State.dropEnd
  split <;> rfl

@[simp] lemma elses_dropEnd (s : State) (b : Block) : (s.dropEnd b).elses = s.elses := by
  unfold State.dropEnd
  split <;> rfl

lemma elses_popUnreachable :
    ∀ {s : State} {frameIp : ℕ}, popUnreachable s frameIp blocks = some s' →
      s.elses ⊆ s'.elses := by
  induction blocks with
  | nil =>
    intro s frameIp h
    obtain rfl := Option.some.inj h
    exact List.Subset.refl _
  | cons b prev ih =>
    intro s frameIp h
    unfold popUnreachable at h
    split at h
    · exact elses_leaveBlock h
    · split at h
      · obtain rfl := Option.some.inj h
        exact List.subset_append_left _ _
      · simpa using ih h

lemma beyond_popUnreachable :
    ∀ {s : State} {frameIp : ℕ}, popUnreachable s frameIp blocks = some s' → q < s.ip →
      (blocks = [] → q ≤ frameIp) → (∀ b ∈ blocks, q ≤ b.wasmCodeEnd) → Beyond q s' := by
  induction blocks with
  | nil =>
    intro s frameIp h _ hframe _
    obtain rfl := Option.some.inj h
    exact ⟨Nat.lt_succ_of_le (hframe rfl), by simp⟩
  | cons b prev ih =>
    intro s frameIp h hip _ hends
    unfold popUnreachable at h
    split at h
    · exact beyond_leaveBlock h hends
    · split at h
      · rename_i e r hpending
        obtain rfl := Option.some.inj h
        refine ⟨Nat.lt_succ_of_le (hip.le.trans (le_of_elsePending hpending)), ?_⟩
        intro c hc
        rcases List.mem_cons.mp hc with rfl | hc
        · exact hends b (by simp)
        · exact hends c (by simp [hc])
      · exact ih h (by simpa using hip) (fun _ => hends b (by simp))
          (fun c hc => hends c (by simp [hc]))

lemma onward_handle (h : handleNextReachableBlock s = some s') : Onward s s' := by
  unfold handleNextReachableBlock at h
  split at h
  · exact absurd h (by simp)
  · rename_i b prev hblocks
    split at h
    · rename_i e r hpending
      obtain rfl := Option.some.inj h
      refine Onward.of_blocks ((le_of_elsePending hpending).trans (Nat.le_succ r))
        (List.subset_append_left _ _) ?_
      intro c hc
      rcases List.mem_cons.mp hc with rfl | hc
      · exact Or.inr ⟨b, by simp [hblocks], rfl⟩
      · exact Or.inr ⟨c, by simp [hblocks, hc], rfl⟩
    · exact ⟨fun q hq => beyond_popUnreachable h hq.ip (by simp) (hblocks ▸ hq.ends),
        elses_popUnreachable h⟩

lemma onward_pushBlock (h : pushBlockAndPassParams s b = some s') (hend : s.ip ≤ b.wasmCodeEnd) :
    Onward s s' := by
  unfold pushBlockAndPassParams at h
  split at h
  · obtain rfl := Option.some.inj h
    refine Onward.of_blocks le_rfl (List.Subset.refl _) ?_
    intro c hc
    rcases List.mem_cons.mp hc with rfl | hc
    · exact Or.inl hend
    · exact Or.inr ⟨c, hc, rfl⟩
  · simp only [bind_eq_bind, bind_eq_some_iff, pure_def,
      Option.some.injEq] at h
    obtain ⟨entry, -, s₁, hpop, rfl⟩ := h
    have hrest := onward_pop hpop
    refine ⟨fun q hq => ⟨(hrest.beyond q hq).ip, ?_⟩, hrest.elses⟩
    intro c hc
    rcases List.mem_cons.mp hc with rfl | hc
    · exact hq.ip.le.trans hend
    · exact (hrest.beyond q hq).ends c hc

lemma onward_enterBlock (h : enterBlock s b = some s') (hend : s.ip ≤ b.wasmCodeEnd) :
    Onward s s' := by
  unfold enterBlock at h
  simp only [bind_eq_bind, bind_eq_some_iff, pure_def,
    Option.some.injEq] at h
  obtain ⟨s₁, hpush, rfl⟩ := h
  have hstart : Onward s (s.create.buildBr [s.cfg.count]) := Onward.of_eq rfl rfl rfl
  exact (hstart.trans (onward_pushBlock hpush hend)).trans (Onward.of_eq rfl rfl rfl)

/-- The search ends at a later address, and an `else` found on the way is a later one as well. -/
lemma le_of_scan {bytes : List UInt8} :
    ∀ {skip p d : ℕ} {found elseAddr : Option ℕ} {endAddr : ℕ},
      scan isIf bytes skip p d found = some (elseAddr, endAddr) →
      p ≤ endAddr ∧ (elseAddr = found ∨ ∃ r, elseAddr = some r ∧ p ≤ r) := by
  induction bytes with
  | nil => exact fun h => absurd h (by simp [scan])
  | cons opcode bytes ih =>
    intro skip p d found elseAddr endAddr h
    have hstep : ∀ {skip' d' : ℕ} {found' : Option ℕ},
        scan isIf bytes skip' (p + 1) d' found' = some (elseAddr, endAddr) →
        (found' = found ∨ found' = some p) →
        p ≤ endAddr ∧ (elseAddr = found ∨ ∃ r, elseAddr = some r ∧ p ≤ r) := by
      intro skip' d' found' hrest hfound
      obtain ⟨hle, helse⟩ := ih hrest
      refine ⟨by omega, ?_⟩
      rcases helse with rfl | ⟨r, rfl, hr⟩
      · rcases hfound with rfl | rfl
        · exact Or.inl rfl
        · exact Or.inr ⟨p, rfl, le_rfl⟩
      · exact Or.inr ⟨r, rfl, by omega⟩
    cases skip with
    | succ skip => exact hstep h (Or.inl rfl)
    | zero =>
      rw [scan] at h
      split_ifs at h with hblock hext helse hend hone hif
      · exact hstep h (Or.inl rfl)
      · exact hstep h (Or.inl rfl)
      · exact hstep h (Or.inr rfl)
      · exact hstep h (Or.inl rfl)
      · obtain ⟨rfl, rfl⟩ := by simpa only [Option.some.injEq, Prod.mk.injEq] using h
        exact ⟨le_rfl, Or.inl rfl⟩
      · exact hstep h (Or.inl rfl)
      · split at h
        · exact absurd h (by simp)
        · exact hstep h (Or.inl rfl)

lemma le_of_findBlockAddr {p endAddr : ℕ} {elseAddr : Option ℕ}
    (h : findBlockAddr isIf code p = some (elseAddr, endAddr)) :
    p ≤ endAddr ∧ (elseAddr = none ∨ ∃ r, elseAddr = some r ∧ p ≤ r) := le_of_scan h

lemma onward_aotCompileOpBlock {label : LabelType}
    (h : aotCompileOpBlock code s label params results = some s') : Onward s s' := by
  unfold aotCompileOpBlock at h
  simp only [bind_eq_bind, bind_eq_some_iff, Prod.exists] at h
  obtain ⟨elseAddr, endAddr, hfind, h⟩ := h
  exact onward_enterBlock h (le_of_findBlockAddr hfind).1

lemma ip_pop (h : s.pop n = some s') : s'.ip = s.ip := by
  unfold State.pop at h
  split at h
  · exact absurd h (by simp)
  · split at h
    · obtain rfl := Option.some.inj h
      rfl
    · exact absurd h (by simp)

lemma onward_aotCompileOpIf (h : aotCompileOpIf code s const params results = some s') :
    Onward s s' := by
  unfold aotCompileOpIf at h
  simp only [bind_eq_bind, bind_eq_some_iff, Prod.exists] at h
  obtain ⟨elseAddr, endAddr, hfind, s₁, hpop, h⟩ := h
  obtain ⟨hend, helse⟩ := le_of_findBlockAddr hfind
  refine (onward_pop hpop).trans ?_
  rw [← ip_pop hpop] at hend helse
  rcases const with _ | _ | _
  · -- a condition that is not constant
    cases elseAddr with
    | some r =>
      simp only [bind_eq_some_iff, pure_def, Option.some.injEq] at h
      obtain ⟨s₂, hpush, rfl⟩ := h
      have hstart : Onward s₁ (s₁.create.create.create.buildBr [s₁.cfg.count, s₁.cfg.count + 2]) :=
        Onward.of_eq rfl rfl rfl
      exact (hstart.trans (onward_pushBlock hpush hend)).trans (Onward.of_eq rfl rfl rfl)
    | none =>
      simp only [bind_eq_some_iff, pure_def, Option.some.injEq] at h
      obtain ⟨s₂, hpush, rfl⟩ := h
      have hstart : Onward s₁ (s₁.create.create.buildBr [s₁.cfg.count, s₁.cfg.count + 1]) :=
        Onward.of_eq rfl rfl rfl
      exact (hstart.trans (onward_pushBlock hpush hend)).trans (Onward.of_eq rfl rfl rfl)
  · -- the condition is false
    cases elseAddr with
    | some r =>
      simp only [bind_eq_some_iff, pure_def, Option.some.injEq] at h
      obtain ⟨s₂, hpush, stack, -, rfl⟩ := h
      have hr : s₁.ip ≤ r := by
        rcases helse with hnone | ⟨r', heq, hr'⟩
        · exact absurd hnone (by simp)
        · rwa [Option.some.inj heq]
      have hstart : Onward s₁ (s₁.create.buildBr [s₁.cfg.count]) := Onward.of_eq rfl rfl rfl
      have hpushed := hstart.trans (onward_pushBlock hpush hend)
      refine ⟨fun q hq => ⟨?_, (hpushed.beyond q hq).ends⟩, ?_⟩
      · exact Nat.lt_succ_of_lt (hq.ip.trans_le hr)
      · exact List.Subset.trans hpushed.elses (List.subset_append_left _ _)
    | none =>
      simp only [pure_def, Option.some.injEq] at h
      subst h
      exact Onward.of_blocks (hend.trans (Nat.le_succ endAddr)) (List.Subset.refl _)
        fun b hb => Or.inr ⟨b, hb, rfl⟩
  · exact onward_enterBlock h hend

lemma endBlock_eq (s : State) (b : Block) :
    (s.endBlock b).1.ip = s.ip ∧ (s.endBlock b).1.builder = s.builder ∧
      (s.endBlock b).1.elses = s.elses ∧
      (s.endBlock b).1.gotExceptionBlock = s.gotExceptionBlock ∧
      ∀ x, (s.endBlock b).1.cfg.terminators x = s.cfg.terminators x := by
  unfold State.endBlock
  split
  · exact ⟨rfl, rfl, rfl, rfl, fun _ => rfl⟩
  · exact ⟨rfl, rfl, rfl, rfl, fun _ => rfl⟩

lemma onward_reachEnd (h : reachEnd s depth = some (s', e)) : Onward s s' := by
  simp only [reachEnd, bind_eq_bind, bind_eq_some_iff, pure_def,
    Option.some.injEq, Prod.mk.injEq] at h
  obtain ⟨b, hb, rfl, -⟩ := h
  obtain ⟨hip, -, helses, -⟩ := endBlock_eq s b
  refine Onward.of_blocks hip.ge (fun _ he => helses ▸ he) ?_
  intro c hc
  rcases List.mem_or_eq_of_mem_set hc with hold | rfl
  · exact Or.inr ⟨c, hold, rfl⟩
  · exact Or.inr ⟨b, List.mem_of_getElem? hb, rfl⟩

lemma onward_buildBr (s : State) (succs : List ℕ) : Onward s (s.buildBr succs) :=
  Onward.of_eq rfl rfl rfl

lemma onward_aotCompileOpElse (h : aotCompileOpElse s = some s') : Onward s s' := by
  unfold aotCompileOpElse at h
  simp only [bind_eq_bind, bind_eq_some_iff] at h
  obtain ⟨b, -, h⟩ := h
  split at h
  · simp only [bind_eq_some_iff, Prod.exists] at h
    obtain ⟨s₁, e, hreach, s₂, hpop, h⟩ := h
    have hclosed := ((onward_reachEnd hreach).trans (onward_pop hpop)).trans (onward_buildBr s₂ [e])
    split at h
    · rename_i else_ top prev _ _ hblocks
      obtain rfl := Option.some.inj h
      refine hclosed.trans (Onward.of_blocks le_rfl (List.subset_append_left _ _) ?_)
      intro c hc
      rcases List.mem_cons.mp hc with rfl | hc
      · exact Or.inr ⟨top, by simp [hblocks], rfl⟩
      · exact Or.inr ⟨c, by simp [hblocks, hc], rfl⟩
    · exact hclosed.trans (onward_handle h)
  · exact absurd h (by simp)

lemma onward_aotCompileOpEnd (h : aotCompileOpEnd s = some s') : Onward s s' := by
  unfold aotCompileOpEnd at h
  simp only [bind_eq_bind, bind_eq_some_iff, Prod.exists] at h
  obtain ⟨b, -, s₁, e, hreach, s₂, hpop, h⟩ := h
  have hclosed := ((onward_reachEnd hreach).trans (onward_pop hpop)).trans (onward_buildBr s₂ [e])
  exact hclosed.trans (onward_handle h)

lemma onward_branchTarget {target arity : ℕ} (h : branchTarget s depth = some (s', target, arity)) :
    Onward s s' := by
  unfold branchTarget at h
  simp only [bind_eq_bind, bind_eq_some_iff] at h
  obtain ⟨b, -, h⟩ := h
  split at h
  · simp only [bind_eq_some_iff, pure_def, Option.some.injEq, Prod.mk.injEq] at h
    obtain ⟨entry, -, rfl, -, -⟩ := h
    exact Onward.refl s
  · simp only [bind_eq_some_iff, Prod.exists, pure_def, Option.some.injEq,
      Prod.mk.injEq] at h
    obtain ⟨s₁, e, hreach, rfl, -, -⟩ := h
    exact onward_reachEnd hreach

lemma onward_aotCompileOpBr (h : aotCompileOpBr s depth = some s') : Onward s s' := by
  unfold aotCompileOpBr at h
  simp only [bind_eq_bind, bind_eq_some_iff, Prod.exists] at h
  obtain ⟨s₁, target, arity, htarget, s₂, hpop, h⟩ := h
  have hbranch := ((onward_branchTarget htarget).trans (onward_pop hpop)).trans
    (onward_buildBr s₂ [target])
  exact hbranch.trans (onward_handle h)

lemma onward_aotCompileOpBrIf (h : aotCompileOpBrIf s const depth = some s') :
    Onward s s' := by
  unfold aotCompileOpBrIf at h
  simp only [bind_eq_bind, bind_eq_some_iff] at h
  obtain ⟨s₁, hpop, h⟩ := h
  refine (onward_pop hpop).trans ?_
  rcases const with _ | _ | _
  · simp only [bind_eq_some_iff, Prod.exists, pure_def, Option.some.injEq] at h
    obtain ⟨s₂, target, arity, htarget, s₃, -, rfl⟩ := h
    have hcreate : Onward s₁ s₁.create := Onward.of_eq rfl rfl rfl
    exact (hcreate.trans (onward_branchTarget htarget)).trans (Onward.of_eq rfl rfl rfl)
  · obtain rfl := Option.some.inj h
    exact Onward.refl _
  · exact onward_aotCompileOpBr h

lemma onward_switchTargets :
    ∀ {s s' : State} {targets : List ℕ}, switchTargets depths s = some (s', targets) →
      Onward s s' := by
  induction depths with
  | nil =>
    intro s s' targets h
    obtain ⟨rfl, -⟩ := by simpa only [switchTargets, Option.some.injEq, Prod.mk.injEq] using h
    exact Onward.refl _
  | cons depth depths ih =>
    intro s s' targets h
    simp only [switchTargets, bind_eq_bind, bind_eq_some_iff, Prod.exists,
      pure_def, Option.some.injEq, Prod.mk.injEq] at h
    obtain ⟨s₁, target, arity, htarget, s₂, -, s₃, rest, hrest, rfl, -⟩ := h
    exact (onward_branchTarget htarget).trans (ih hrest)

lemma onward_aotCompileOpBrTable {const : Option ℕ} {default : ℕ}
    (h : aotCompileOpBrTable s const depths default = some s') : Onward s s' := by
  unfold aotCompileOpBrTable at h
  simp only [bind_eq_bind, bind_eq_some_iff] at h
  obtain ⟨s₁, hpop, h⟩ := h
  refine (onward_pop hpop).trans ?_
  cases const with
  | none =>
    simp only [bind_eq_some_iff, Prod.exists] at h
    obtain ⟨s₂, targets, hswitch, h⟩ := h
    exact ((onward_switchTargets hswitch).trans (onward_buildBr s₂ targets)).trans (onward_handle h)
  | some index => exact onward_aotCompileOpBr h

lemma onward_aotCompileOpReturn (h : aotCompileOpReturn s = some s') : Onward s s' := by
  unfold aotCompileOpReturn at h
  simp only [bind_eq_bind, bind_eq_some_iff] at h
  obtain ⟨func, -, s₁, hpop, h⟩ := h
  exact ((onward_pop hpop).trans (onward_buildBr s₁ [])).trans (onward_handle h)

lemma onward_aotCompilePlain {pops pushes checks : ℕ} {traps : Bool}
    (h : aotCompilePlain s pops pushes checks traps = some s') : Onward s s' := by
  unfold aotCompilePlain at h
  simp only [bind_eq_bind, bind_eq_some_iff] at h
  obtain ⟨s₁, hpop, h⟩ := h
  refine ((onward_pop hpop).trans (onward_emitChecks checks s₁)).trans ?_
  split at h
  · exact (onward_aotEmitException _ _).trans (onward_handle h)
  · exact onward_push h

lemma onward_step (h : step code s = some s') : Onward s s' := by
  unfold step at h
  simp only [bind_eq_bind, bind_eq_some_iff] at h
  obtain ⟨c, -, h⟩ := h
  have hnext : Onward s (s.advance c.width) :=
    Onward.of_blocks (Nat.le_add_right _ _) (List.Subset.refl _) fun b hb => Or.inr ⟨b, hb, rfl⟩
  refine hnext.trans ?_
  generalize c.op = op at h
  cases op with
  | plain pops pushes checks traps => exact onward_aotCompilePlain h
  | block params results => exact onward_aotCompileOpBlock h
  | loop params results => exact onward_aotCompileOpBlock h
  | if_ const params results => exact onward_aotCompileOpIf h
  | else_ => exact onward_aotCompileOpElse h
  | end_ => exact onward_aotCompileOpEnd h
  | br depth => exact onward_aotCompileOpBr h
  | brIf const depth => exact onward_aotCompileOpBrIf h
  | brTable const depths default => exact onward_aotCompileOpBrTable h
  | ret => exact onward_aotCompileOpReturn h
  | unreachable => exact (onward_aotEmitException _ _).trans (onward_handle h)

/-- Beyond a position the walk never visits it, and no start of an `else` arm is forgotten. -/
lemma Visits.onward (h : Visits code s vs s') :
    s.elses ⊆ s'.elses ∧ ∀ q, Beyond q s → q ∉ vs := by
  induction h with
  | refl s => exact ⟨List.Subset.refl _, fun q _ => List.not_mem_nil⟩
  | head hstep _ ih =>
    obtain ⟨helses, hrest⟩ := ih
    have honward := onward_step hstep
    refine ⟨List.Subset.trans honward.elses helses, ?_⟩
    intro q hq hmem
    rcases List.mem_cons.mp hmem with heq | hmem
    · exact absurd hq.ip (by rw [heq]; exact lt_irrefl _)
    · exact hrest q (honward.beyond q hq) hmem

end Watz.Aot.Walk
