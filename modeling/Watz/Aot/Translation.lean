import Watz.Aot.WalkInvariant

/-!
# Translating every reachable instruction

The walk over the opcodes of a structured body follows what control flow reaches, instruction by
instruction, as long as every `if` it comes to is one that the compiler gets right.  At the first
one that it gets wrong an opcode is missed for good, an `else` arm starts without its parameters, or
the compiler stops.

The simulation goes by induction over the body.  Instructions either fall through, and then the walk
stands at the marker behind them, or they stop, and then the walk looks for the next reachable block;
in the second case the enclosing block decides where it goes on.
-/

namespace Watz.Aot.Walk

open Lib (Cfg)
open Lib.Cfg (Pending)
open Body (BlockAt Flow Within)
open Option (bind_eq_bind bind_some pure_def)
open List (append_assoc append_nil forall_mem_append forall_mem_cons map_cons mem_append mem_cons
  mem_singleton not_mem_nil tail_cons)

variable {code imm : List CodeByte} {s s₁ s₂ s' t : State} {b b' : Block} {prev : List Block}
  {l : Label} {labels : List Label} {m m' : Multiset ℕ} {ts us hs vs ws R R' : List ℕ}
  {d e h k n p p₁ q r stop : ℕ} {f : Flow} {clean clean' : Prop}

/-! ## How the translation of instructions ends -/

/-- What the translation of instructions leaves: a well-formed state, in which the labels that are
branched to are marked and no `else` arm has been started without its parameters. -/
structure After (labels : List Label) (m : Multiset ℕ) (ts : List ℕ) (s s' : State) : Prop where
  inv : Inv labels m s'
  marks : Marks ts s.blocks s'.blocks
  elses : ∀ e ∈ s'.elses, e ∈ s.elses ∨ e.WithParams

lemma After.trans (h1 : After labels m ts s s₁) (h2 : After labels m' us s₁ s') :
    After labels m' (ts ++ us) s s' where
  inv := h2.inv
  marks := h1.marks.trans h2.marks
  elses := fun e he => (h2.elses e he).elim (h1.elses e) Or.inr

lemma Evolves.after (hevolves : Evolves ts s s') (hinv : Inv labels m s') :
    After labels m ts s s' :=
  ⟨hinv, hevolves.marks, fun _ he => Or.inl (hevolves.elses ▸ he)⟩

/-- The translation of instructions that start at `p`, with the marker behind them at `stop`.  If
they fall through, the walk stands at the marker with the results on the stack.  Otherwise it looks
for the next reachable block. -/
def Outcome (code : List CodeByte) (labels : List Label) (m : Multiset ℕ) (results : ℕ) (hs : List ℕ)
    (s : State) (p stop : ℕ) (vs : List ℕ) (f : Flow) : Prop :=
  match f.ending with
  | .falls => ∃ s', Visits code s vs s' ∧ s'.ip = stop ∧ s'.heights = results :: hs ∧
      After labels (s'.builder ::ₘ m) f.targets s s'
  | .stops inner => ∃ s', (∀ t, resume inner s' = some t → Visits code s vs t) ∧
      p ≤ s'.ip ∧ s'.ip ≤ stop ∧ s'.heights.tail = hs ∧ After labels m f.targets s s'

/-- However the walk ends, it has missed a position or has started an `else` arm without its
parameters. -/
def Faulty (code : List CodeByte) (s : State) (R : List ℕ) : Prop :=
  ∀ ws t, Visits code s ws t → code.length ≤ t.ip →
    (∃ q ∈ R, q ∉ ws) ∨ ∃ e ∈ t.elses, ¬ e.WithParams

/-- The translation succeeds under a condition and is faulty otherwise. -/
def Verdict (code : List CodeByte) (labels : List Label) (m : Multiset ℕ) (results : ℕ) (hs : List ℕ)
    (s : State) (p stop : ℕ) (vs : List ℕ) (f : Flow) (clean : Prop) : Prop :=
  clean ∧ Outcome code labels m results hs s p stop vs f ∨ ¬ clean ∧ Faulty code s vs

lemma Outcome.before (hvisits : Visits code s vs s₁) (hafter : After labels m' ts s s₁)
    (hp : p ≤ p₁) (hout : Outcome code labels m r hs s₁ p₁ stop ws f) :
    Outcome code labels m r hs s p stop (vs ++ ws) (f.before ts) := by
  unfold Outcome at hout ⊢
  show match f.ending with | .falls => _ | .stops inner => _
  cases hending : f.ending with
  | falls =>
    rw [hending] at hout
    obtain ⟨s', hrest, hip, hheights, hafter'⟩ := hout
    exact ⟨s', hvisits.trans hrest, hip, hheights, hafter.trans hafter'⟩
  | stops inner =>
    rw [hending] at hout
    obtain ⟨s', hresume, hle, hstop, hheights, hafter'⟩ := hout
    exact ⟨s', fun t ht => hvisits.trans (hresume t ht), hp.trans hle, hstop, hheights,
      hafter.trans hafter'⟩

lemma Faulty.before (hvisits : Visits code s vs s₁) (hfaulty : Faulty code s₁ R)
    (hdisj : ∀ q ∈ R, q ∉ vs) (hsub : R ⊆ R') : Faulty code s R' := by
  intro ws t hws hend
  obtain ⟨us, rfl, hus⟩ := hvisits.split hws hend
  refine (hfaulty us t hus hend).imp ?_ id
  rintro ⟨q, hq, hnot⟩
  exact ⟨q, hsub hq, fun hmem => (mem_append.mp hmem).elim (hdisj q hq) hnot⟩

lemma Verdict.before {a e : ℕ} (hvisits : Visits code s vs s₁) (hafter : After labels m' ts s s₁)
    (hp : p ≤ p₁) (hvs : Within a p₁ vs) (hws : Within p₁ e ws)
    (hverdict : Verdict code labels m r hs s₁ p₁ stop ws f clean) :
    Verdict code labels m r hs s p stop (vs ++ ws) (f.before ts) clean := by
  rcases hverdict with ⟨hclean, hout⟩ | ⟨hclean, hfaulty⟩
  · exact Or.inl ⟨hclean, hout.before hvisits hafter hp⟩
  · exact Or.inr ⟨hclean, hfaulty.before hvisits (hvs.disjoint hws) (List.subset_append_right _ _)⟩

lemma Verdict.congr (hverdict : Verdict code labels m r hs s p stop vs f clean)
    (hiff : clean ↔ clean') : Verdict code labels m r hs s p stop vs f clean' := by
  rwa [Verdict, hiff] at hverdict

/-- A compiler that stops does not come to the end. -/
lemma faulty_of_step (hop : s.ip < code.length) (hnone : step code s = none) :
    Faulty code s R := by
  intro ws t hws hend
  cases hws with
  | refl => omega
  | head hstep _ => exact absurd (hnone.symm.trans hstep) (by simp)

lemma Outcome.of_stop (s' : State) (hstep : step code s = handleNextReachableBlock s')
    (hip : s'.ip = s.ip + n) (hstop : s.ip + n ≤ stop) (hheights : s'.heights.tail = hs)
    (hafter : After labels m ts s s') :
    Outcome code labels m r hs s s.ip stop [s.ip] ⟨ts, .stops false⟩ := by
  refine ⟨s', ?_, by omega, by omega, hheights, hafter⟩
  intro t ht
  exact .single (hstep.trans ht)

/-! ## Steps -/

lemma step_eq {c : CodeByte} (hop : code[s.ip]? = some c) :
    step code s = compileOp code (s.advance c.width) c.op := by
  simp [step, hop]

lemma Inv.advance (hinv : Inv labels m s) : Inv labels m (s.advance n) :=
  ⟨hinv.frames, hinv.pending, hinv.exception⟩

lemma after_of_advance (hevolves : Evolves ts (s.advance n) s') (hinv : Inv labels m s') :
    After labels m ts s s' :=
  ⟨hinv, hevolves.marks, fun _ he => Or.inl (hevolves.elses ▸ he)⟩

lemma within_first (p n : ℕ) : Within p (p + (n + 1)) [p] :=
  Within.cons Within.nil (Nat.lt_succ_self p) (by omega)

/-- The walk over instructions does what control flow does, from every well-formed state in which
they come next, exactly if they are clean; no other place may be mistaken for the end of a block. -/
def Simulates (code : List CodeByte) (c : Body) : Prop :=
  ∀ {p h r : ℕ} {hs : List ℕ} {labels : List Label} {m : Multiset ℕ} {s : State}
    {rest : List CodeByte}, c.Valid labels h r → code.drop p = c.bytes ++ rest → s.ip = p →
    Inv labels (s.builder ::ₘ m) s → s.heights = h :: hs →
    (∀ b ∈ s.blocks, p + c.size ≤ b.wasmCodeEnd) → (∀ b ∈ c.blocks p, b.Unmistaken code) →
    Verdict code labels m r hs s p (p + c.size) (c.reached p) c.flow (c.CleanAt code p)

variable {next thn els : Body} {rest : List CodeByte} {params results : ℕ}

lemma cleanAt_then {c : Body} (reached : Bool) :
    c.CleanAt code p ∧ (reached = true → next.CleanAt code q) ↔
      (c.Clean ∧ (reached = true → next.Clean)) ∧
        ∀ a ∈ c.blocks p ++ (if reached = true then next.blocks q else []), a.Found code := by
  cases reached with
  | true => simp only [Body.CleanAt, forall_mem_append, if_true, forall_const, and_and_and_comm]
  | false => simp [Body.CleanAt]

/-- Before the first instruction of a block its end is searched for.  A search that fails makes the
compiler stop. -/
lemma Verdict.of_search {a : BlockAt} {c : CodeByte} (hop : code[s.ip]? = some c)
    (ha : a.Unmistaken code)
    (hfails : findBlockAddr a.isIf code a.start = none →
      compileOp code (s.advance c.width) c.op = none)
    (hclean : clean → a.Found code)
    (hfound : a.Found code → Verdict code labels m r hs s p stop vs f clean) :
    Verdict code labels m r hs s p stop vs f clean := by
  rcases ha with hnone | ha
  · refine Or.inr ⟨?_, faulty_of_step (List.getElem?_eq_some_iff.mp hop).1
      ((step_eq hop).trans (hfails hnone))⟩
    intro hc
    exact absurd (hnone.symm.trans (hclean hc)) (by simp)
  · exact hfound ha

/-! ## Instructions without blocks -/

lemma simulates_done : Simulates code .done := by
  rintro p h r hs labels m s rest rfl - hip hinv hheights - -
  exact Or.inl ⟨⟨trivial, by simp [Body.blocks]⟩, s, .refl s, hip, hheights, hinv, Marks.refl _, fun _ he => Or.inl he⟩

/-- An instruction that is followed by the next one. -/
lemma Verdict.followed (ih : Simulates code next) (hstep : step code s = some s₁)
    (hip : s₁.ip = s.ip + (n + 1)) (hheights : s₁.heights = h :: hs)
    (hafter : After labels (s₁.builder ::ₘ m) ts s s₁) (hvalid : next.Valid labels h r)
    (hdrop : code.drop (s.ip + (n + 1)) = next.bytes ++ rest)
    (hends : ∀ b ∈ s.blocks, s.ip + (n + 1 + next.size) ≤ b.wasmCodeEnd)
    (hblocks : ∀ b ∈ next.blocks (s.ip + (n + 1)), b.Unmistaken code) :
    Verdict code labels m r hs s s.ip (s.ip + (n + 1 + next.size))
      (s.ip :: next.reached (s.ip + (n + 1))) (next.flow.before ts)
      (next.CleanAt code (s.ip + (n + 1))) := by
  rw [← Nat.add_assoc] at hends ⊢
  have hverdict := ih hvalid hdrop hip hafter.inv hheights (hafter.marks.ends hends) hblocks
  exact hverdict.before (.single hstep) hafter (by omega) (within_first _ _) (next.within_reached _)

lemma simulates_plain {opcode : UInt8} {pops pushes checks : ℕ} {traps : Bool}
    (ih : Simulates code next) :
    Simulates code (.plain opcode imm pops pushes checks traps next) := by
  rintro p h r hs labels m s rest ⟨hpops, hvalid⟩ hdrop rfl hinv hheights hends hblocks
  simp only [Body.bytes, append_assoc] at hdrop
  obtain ⟨hop, hdrop'⟩ := Body.drop_instr hdrop
  obtain ⟨s₁, hpop, hheights1, hinv1, hevolves1⟩ :=
    pop_builder_spec (s := s.advance (imm.length + 1)) hheights hpops hinv.advance
  obtain ⟨hinv2, hblocks2, hip2, helses2⟩ := emitChecks_spec checks s₁ hinv1
  have hevolves2 : After labels ((s₁.emitChecks checks).builder ::ₘ m) [] s
      (s₁.emitChecks checks) := by
    refine ⟨hinv2, ?_, ?_⟩
    · rw [hblocks2]
      exact hevolves1.marks
    · rw [helses2, hevolves1.elses]
      exact fun _ he => Or.inl he
  have hheights2 : (s₁.emitChecks checks).heights = (h - pops) :: hs := by
    rw [State.heights, hblocks2]
    exact hheights1
  cases traps with
  | true =>
    obtain ⟨hblocks3, hip3, helses3⟩ := aotEmitException_eq (s₁.emitChecks checks) none
    refine Or.inl ⟨⟨by simp [Body.Clean], by simp [Body.blocks]⟩, Outcome.of_stop
      (n := imm.length + 1) ((s₁.emitChecks checks).aotEmitException none) ?_ ?_ ?_ ?_ ?_⟩
    · rw [step_eq hop]
      simp only [compileOp, aotCompilePlain, hpop, bind_eq_bind, bind_some, if_true]
    · rw [hip3, hip2, hevolves1.ip]
      rfl
    · simp only [Body.size_plain]
      omega
    · rw [State.heights, hblocks3]
      exact congrArg List.tail hheights2
    · refine ⟨hinv2.aotEmitException, ?_, ?_⟩
      · rw [hblocks3]
        exact hevolves2.marks
      · rw [helses3]
        exact hevolves2.elses
  | false =>
    obtain ⟨s₃, hpush, hheights3, hinv3, hevolves3⟩ :=
      push_spec hheights2 (List.replicate pushes .result) hinv2
    rw [List.length_replicate] at hheights3
    rw [← hevolves3.builder] at hinv3
    have hstep : step code s = some s₃ := by
      rw [step_eq hop]
      simp only [compileOp, aotCompilePlain, hpop, bind_eq_bind, bind_some,
        Bool.false_eq_true, if_false]
      exact hpush
    have hip : s₃.ip = s.ip + (imm.length + 1) := by
      rw [hevolves3.ip, hip2, hevolves1.ip]
      rfl
    rw [Body.size_plain] at hends ⊢
    have hverdict := Verdict.followed ih hstep hip hheights3 (hevolves2.trans (hevolves3.after hinv3))
      hvalid hdrop' hends hblocks
    exact hverdict.congr (by simp [Body.CleanAt, Body.Clean, Body.blocks])

lemma outcome_br (hinv : Inv labels (s₁.builder ::ₘ m) s₁) (hheights : s₁.heights = h :: hs)
    (hvalid : Body.BranchValid labels d h) (hevolves : Evolves [] (s.advance n) s₁)
    (hstep : step code s = aotCompileOpBr s₁ d) (hstop : s.ip + n ≤ stop) :
    Outcome code labels m r hs s s.ip stop [s.ip] ⟨[d], .stops false⟩ := by
  obtain ⟨s', hbr, hheights', hinv', hevolves'⟩ := aotCompileOpBr_spec hinv hheights hvalid
  have htotal := hevolves.trans hevolves'
  exact .of_stop s' (hstep.trans hbr) htotal.ip hstop hheights' (after_of_advance htotal hinv')

lemma simulates_br {depth : ℕ} : Simulates code (.br imm depth next) := by
  rintro p h r hs labels m s rest hvalid hdrop rfl hinv hheights - -
  simp only [Body.bytes, append_assoc] at hdrop
  obtain ⟨hop, -⟩ := Body.drop_instr hdrop
  have hheights' : (s.advance (imm.length + 1)).heights = h :: hs := hheights
  refine Or.inl ⟨⟨trivial, by simp [Body.blocks]⟩, outcome_br hinv.advance hheights' hvalid
    (Evolves.refl _) (step_eq hop) ?_⟩
  simp only [Body.size_br]
  omega

lemma simulates_brIf {const : Option Bool} {depth : ℕ} (ih : Simulates code next) :
    Simulates code (.brIf imm const depth next) := by
  rintro p h r hs labels m s rest ⟨hone, hbranch, hvalid⟩ hdrop rfl hinv hheights hends hblocks
  simp only [Body.bytes, append_assoc] at hdrop
  obtain ⟨hop, hdrop'⟩ := Body.drop_instr hdrop
  obtain ⟨s₁, hpop, hheights1, hinv1, hevolves1⟩ :=
    pop_builder_spec (s := s.advance (imm.length + 1)) hheights hone hinv.advance
  rw [Body.size_brIf] at hends ⊢
  rcases const with _ | _ | _
  · -- a conditional branch; the current block goes on in a new one
    have hcreate : Inv labels (s₁.create.builder ::ₘ s₁.cfg.count ::ₘ m) s₁.create := by
      rw [Multiset.cons_swap]
      exact hinv1.create
    obtain ⟨s₂, target, arity, htarget, harity, hheights2, hinv2, hevolves2, hopen⟩ :=
      branchTarget_spec hcreate (s := s₁.create) hheights1 hbranch
    obtain ⟨s₃, hpop2, -⟩ := pop_spec hheights2 harity hinv2
    rw [← hevolves2.builder] at hinv2
    have hinv4 := hinv2.buildBr [target, s₁.cfg.count] (by
      intro x hx
      simp only [mem_cons, not_mem_nil, or_false] at hx
      rcases hx with rfl | rfl
      · exact Or.inr hopen
      · exact Or.inl (by simp))
    have hstep : step code s =
        some ((s₂.buildBr [target, s₁.cfg.count]).setBuilderPos s₁.cfg.count) := by
      rw [step_eq hop]
      simp only [compileOp, aotCompileOpBrIf, hpop, htarget, hpop2, bind_eq_bind,
        bind_some, pure_def]
    refine Verdict.followed ih hstep (hevolves2.ip.trans hevolves1.ip) hheights2 ⟨?_, ?_, ?_⟩ hvalid
      hdrop' hends hblocks
    · exact ⟨hinv4.frames, hinv4.pending, hinv4.exception⟩
    · exact hevolves1.marks.trans hevolves2.marks
    · intro e he
      have helses : s₂.elses = s.elses := hevolves2.elses.trans hevolves1.elses
      exact Or.inl (helses ▸ he)
  · -- the condition is false
    have hstep : step code s = some s₁ := by
      rw [step_eq hop]
      simp only [compileOp, aotCompileOpBrIf, hpop, bind_eq_bind, bind_some,
        pure_def]
    exact Verdict.followed ih hstep hevolves1.ip hheights1 (after_of_advance hevolves1 hinv1) hvalid
      hdrop' hends hblocks
  · -- the condition is true
    have hstep : step code s = aotCompileOpBr s₁ depth := by
      rw [step_eq hop]
      simp only [compileOp, aotCompileOpBrIf, hpop, bind_eq_bind, bind_some]
    exact Or.inl ⟨⟨trivial, by simp [Body.blocks]⟩,
      outcome_br hinv1 hheights1 hbranch hevolves1 hstep (by omega)⟩

lemma simulates_brTable {const : Option ℕ} {depths : List ℕ} {default : ℕ} :
    Simulates code (.brTable imm const depths default next) := by
  rintro p h r hs labels m s rest ⟨hone, hbranch⟩ hdrop rfl hinv hheights - -
  simp only [Body.bytes, append_assoc] at hdrop
  obtain ⟨hop, -⟩ := Body.drop_instr hdrop
  obtain ⟨s₁, hpop, hheights1, hinv1, hevolves1⟩ :=
    pop_builder_spec (s := s.advance (imm.length + 1)) hheights hone hinv.advance
  have hclean : (Body.brTable imm const depths default next).CleanAt code s.ip :=
    ⟨trivial, by simp [Body.blocks]⟩
  have hstop : s.ip + (imm.length + 1) ≤
      s.ip + (Body.brTable imm const depths default next).size := by
    simp only [Body.size_brTable]
    omega
  cases const with
  | none =>
    obtain ⟨s₂, targets, hswitch, hheights2, hinv2, hevolves2, hopens⟩ :=
      switchTargets_spec hinv1 hheights1 hbranch
    rw [← hevolves2.builder] at hinv2
    have hinv3 := hinv2.buildBr targets fun x hx => Or.inr (hopens x hx)
    have htotal := (hevolves1.trans hevolves2).trans (evolves_buildBr s₂ targets)
    rw [List.nil_append, append_nil] at htotal
    refine Or.inl ⟨hclean, Outcome.of_stop (s₂.buildBr targets) ?_ htotal.ip hstop ?_
      (after_of_advance htotal hinv3)⟩
    · rw [step_eq hop]
      simp only [compileOp, aotCompileOpBrTable, hpop, hswitch, bind_eq_bind,
        bind_some]
    · exact congrArg List.tail hheights2
  | some index =>
    have hstep : step code s = aotCompileOpBr s₁ (depths[index]?.getD default) := by
      rw [step_eq hop]
      simp only [compileOp, aotCompileOpBrTable, hpop, bind_eq_bind, bind_some]
    have hmem : depths[index]?.getD default ∈ depths ++ [default] := by
      cases hget : depths[index]? with
      | none => simp
      | some d => simpa using Or.inl (List.mem_of_getElem? hget)
    exact Or.inl ⟨hclean, outcome_br hinv1 hheights1 (hbranch _ hmem) hevolves1 hstep hstop⟩

lemma simulates_ret : Simulates code (.ret next) := by
  rintro p h r hs labels m s rest ⟨l, hl, hresults⟩ hdrop rfl hinv hheights - -
  simp only [Body.bytes, append_assoc] at hdrop
  obtain ⟨hop, -⟩ := Body.drop_byte hdrop
  have hlast : labels[labels.length - 1]? = some l := by
    rw [← List.getLast?_eq_getElem?]
    exact hl
  obtain ⟨b, hb, hf⟩ := Frame.of_labels hinv.frames hlast
  have hfunc : s.blocks.getLast? = some b := by
    rw [List.getLast?_eq_getElem?, hinv.frames.length_eq]
    exact hb
  rw [← hf.results] at hresults
  obtain ⟨s₁, hpop, hheights1, hinv1, hevolves1⟩ :=
    pop_builder_spec (s := s.advance 1) hheights hresults hinv.advance
  have hinv2 := hinv1.buildBr [] fun x hx => absurd hx not_mem_nil
  have htotal := hevolves1.trans (evolves_buildBr s₁ [])
  refine Or.inl ⟨⟨trivial, by simp [Body.blocks]⟩, Outcome.of_stop (s₁.buildBr []) ?_ htotal.ip ?_ ?_
    (after_of_advance htotal hinv2)⟩
  · have hfunc' : (s.advance 1).blocks.getLast? = some b := hfunc
    rw [step_eq hop]
    simp only [compileOp, aotCompileOpReturn, hfunc', hpop, bind_eq_bind, bind_some]
  · simp only [Body.size_ret]
    omega
  · exact congrArg List.tail hheights1

lemma simulates_unreachable : Simulates code (.unreachable next) := by
  rintro p h r hs labels m s rest - hdrop rfl hinv hheights - -
  simp only [Body.bytes, append_assoc] at hdrop
  obtain ⟨hop, -⟩ := Body.drop_byte hdrop
  obtain ⟨hblocks, hip, helses⟩ := aotEmitException_eq (s.advance 1) none
  refine Or.inl ⟨⟨trivial, by simp [Body.blocks]⟩,
    Outcome.of_stop ((s.advance 1).aotEmitException none) ?_ hip ?_ ?_
      ⟨Inv.aotEmitException (s := s.advance 1) hinv.advance, ?_, ?_⟩⟩
  · rw [step_eq hop]
    rfl
  · simp only [Body.size_unreachable]
    omega
  · rw [State.heights, hblocks]
    exact congrArg List.tail hheights
  · rw [hblocks]
    exact Marks.refl _
  · rw [helses]
    exact fun _ he => Or.inl he

/-! ## The end of a block -/

/-- The innermost block is closed: its end is reached, its results are taken off the stack, and the
current basic block jumps to the end block. -/
lemma close_spec (hblocks : s.blocks = b :: prev) (hinv : Inv (l :: labels) (s.builder ::ₘ m) s)
    (hheights : s.heights = l.results :: hs) :
    ∃ s₁ s₂ e v, reachEnd s 0 = some (s₁, e) ∧ s₁.pop b.results = some s₂ ∧
      s₂.blocks = { b.atEnd e with valueStack := v } :: prev ∧
      Inv (l :: labels) m (s₂.buildBr [e]) ∧ s₂.ip = s.ip ∧ s₂.elses = s.elses := by
  have hf := hinv.head hblocks
  have hb : s.blocks[0]? = some b := by rw [hblocks]; rfl
  obtain ⟨s₁, e, hreach, hinv1, hmem, hblocks1, hip, hbuilder, helses, -, -⟩ :=
    reachEnd_spec hinv (d := 0) rfl hb hf
  have hheights1 : s₁.heights = l.results :: hs := by
    rw [← hheights, State.heights, hblocks1]
    exact heights_set hb rfl
  rw [hblocks, List.set_cons_zero] at hblocks1
  have hlen : b.valueStack.length = l.results := by
    rw [State.heights, hblocks1, map_cons, List.cons.injEq] at hheights1
    exact hheights1.1
  have hpop : s₁.pop b.results = some { s₁ with
      blocks := { b.atEnd e with valueStack := b.valueStack.drop b.results } :: prev } := by
    have hle : b.results ≤ b.valueStack.length := by
      rw [hf.results]
      exact hlen.ge
    simp only [State.pop, hblocks1]
    exact if_pos hle
  refine ⟨s₁, _, e, _, hreach, hpop, rfl, ?_, hip, helses⟩
  have hinv2 := hinv1.restack hblocks1 (b.valueStack.drop b.results)
  rw [← hbuilder] at hinv2
  refine hinv2.buildBr [e] ?_
  intro x hx
  obtain rfl := mem_singleton.mp hx
  refine Or.inr (Or.inl ?_)
  rw [hblocks1] at hmem
  exact hmem

lemma tail_heights (hblocks : s.blocks = b :: prev) (hblocks' : s'.blocks = b' :: prev)
    (hheights : s.heights = n :: hs) : s'.heights.tail = hs := by
  rw [State.heights, hblocks, map_cons, List.cons.injEq] at hheights
  rw [State.heights, hblocks']
  exact hheights.2

/-- The marker behind the last arm of a block that is translated: an `end`, or the `else` of an `if`
whose condition is true. -/
def Closing (code : List CodeByte) (stop : ℕ) (b : Block) : Prop :=
  code[stop]? = some ⟨0x0b, .end_, 1⟩ ∨
    code[stop]? = some ⟨0x05, .else_, 1⟩ ∧ b.labelType = .if_ ∧ b.skipWasmCodeElse = true

lemma closing_step (hclosing : Closing code s.ip b) (hblocks : s.blocks = b :: prev)
    (hinv : Inv (l :: labels) (s.builder ::ₘ m) s) (hheights : s.heights = l.results :: hs) :
    ∃ s' e v, step code s = handleNextReachableBlock s' ∧ s'.ip = s.ip + 1 ∧
      s'.blocks = { b.atEnd e with valueStack := v } :: prev ∧ Inv (l :: labels) m s' ∧
      s'.elses = s.elses := by
  have hhead : (s.advance 1).blocks.head? = some b := by
    show s.blocks.head? = some b
    rw [hblocks]
    rfl
  obtain ⟨s₁, s₂, e, v, hreach, hpop, hblocks2, hinv2, hip, helses⟩ :=
    close_spec (s := s.advance 1) hblocks hinv.advance hheights
  refine ⟨s₂.buildBr [e], e, v, ?_, hip, hblocks2, hinv2, helses⟩
  rcases hclosing with hop | ⟨hop, hif, hskip⟩
  · rw [step_eq hop]
    simp only [compileOp, aotCompileOpEnd, hhead, hreach, hpop, bind_eq_bind,
      bind_some]
  · rw [step_eq hop]
    simp only [compileOp, aotCompileOpElse, hhead, hreach, hpop, bind_eq_bind,
      bind_some, hif, hskip, true_or, and_self, if_true]

section Inside

variable {c : Block} {prev₂ : List Block} (inner : Bool)

lemma Inside.leave (hin : Inside labels l m' ts h hs s s₁ b prev) (hinv : Inv (l :: labels) m s₂)
    (hblocks : s₂.blocks = c :: prev₂) (hlabel : c.labelType = b.labelType)
    (hmarks : Marks (outerDepths us) prev prev₂)
    (hheights : s₂.heights.tail = h :: hs) (helses : ∀ e ∈ s₂.elses, e ∈ s₁.elses ∨ e.WithParams)
    (hreach : c.isReachable = true) (hpending : inner = true ∨ c.elsePending s₂.ip = none) :
    ∃ t, resume inner s₂ = some t ∧ leaveBlock s₂ c prev₂ = some t ∧ t.ip = c.wasmCodeEnd + 1 ∧
      t.heights = (h + l.results) :: hs ∧
      After labels (t.builder ::ₘ m) (outerDepths (ts ++ us)) s t := by
  rw [State.heights, hblocks, map_cons, tail_cons] at hheights
  obtain ⟨t, hleave, hip, htheights, htinv, htmarks, htelses⟩ :=
    leaveBlock_spec hinv hblocks (hlabel ▸ hin.notFunction) hreach hheights
  refine ⟨t, (resume_of_reachable hblocks hreach hpending).trans hleave, hleave, hip, htheights,
    htinv, ?_, ?_⟩
  · have htotal := (hin.marks.trans hmarks).trans htmarks
    rwa [append_nil, ← outerDepths_append] at htotal
  · intro e he
    rw [htelses] at he
    exact (helses e he).elim (hin.elses e) Or.inr

lemma Inside.giveUp (hin : Inside labels l m' ts h hs s s₁ b prev) (hinv : Inv (l :: labels) m s₂)
    (hblocks : s₂.blocks = c :: prev₂) (hmarks : Marks (outerDepths us) prev prev₂)
    (hheights : s₂.heights.tail = h :: hs) (helses : ∀ e ∈ s₂.elses, e ∈ s₁.elses ∨ e.WithParams)
    (hreach : c.isReachable = false) (hpending : c.elsePending s₂.ip = none) :
    ∃ s', resume inner s₂ = resume true s' ∧ s'.ip = s₂.ip ∧ s'.heights.tail = hs ∧
      After labels m (outerDepths (ts ++ us)) s s' := by
  have hheights2 := hheights
  rw [State.heights, hblocks, map_cons, tail_cons] at hheights2
  -- there is an enclosing block
  obtain ⟨d, rest, rfl⟩ : ∃ d rest, prev₂ = d :: rest := by
    cases prev₂ with
    | nil => exact absurd hheights2 (by simp)
    | cons d rest => exact ⟨d, rest, rfl⟩
  refine ⟨_, resume_of_unreachable hblocks hreach hpending, ip_dropEnd s₂ c, ?_,
    giveUp_spec hinv hblocks hreach, ?_, ?_⟩
  · exact congrArg List.tail hheights2
  · rw [outerDepths_append]
    exact hin.marks.trans hmarks
  · intro e he
    have he' : e ∈ (s₂.dropEnd c).elses := he
    rw [elses_dropEnd] at he'
    exact (helses e he').elim (hin.elses e) Or.inr

end Inside

lemma Outcome.closes (hin : Inside labels l m ts h hs s s₁ b prev)
    (hout : Outcome code (l :: labels) m l.results (h :: hs) s₁ p₁ stop vs f)
    (hclosing : Closing code stop b) (hp : p₁ ≤ stop)
    (hnone : ∀ ip, p₁ ≤ ip → b.elsePending ip = none) {reached : Bool}
    (hreached : reached = true ↔
      f.ending = .falls ∨ b.isReachable = true ∨ 0 ∈ f.targets ∧ l.isLoop = false) :
    (reached = true →
      ∃ t, Visits code s₁ (vs ++ f.marker stop) t ∧ t.ip = b.wasmCodeEnd + 1 ∧
        t.heights = (h + l.results) :: hs ∧
        After labels (t.builder ::ₘ m) (outerDepths (ts ++ f.targets)) s t) ∧
    (reached = false →
      ∃ s', (∀ t, resume true s' = some t → Visits code s₁ (vs ++ f.marker stop) t) ∧
        p₁ ≤ s'.ip ∧ s'.ip ≤ stop ∧ s'.heights.tail = hs ∧
        After labels m (outerDepths (ts ++ f.targets)) s s') := by
  have hloop : b.labelType ≠ .loop ↔ l.isLoop = false := by
    rw [ne_eq, (hin.inv.head hin.blocks).isLoop, Bool.not_eq_true]
  unfold Outcome at hout
  cases hending : f.ending with
  | falls =>
    rw [hending] at hout
    obtain ⟨s₂, hvisits, hip2, hheights2, hafter2⟩ := hout
    obtain ⟨b₂, prev₂, hblocks2, hb2, hprev2⟩ := hafter2.marks.cons_inv hin.blocks
    have hclosing2 : Closing code s₂.ip b₂ := by
      unfold Closing
      rw [hip2, hb2.labelType, hb2.skipWasmCodeElse]
      exact hclosing
    obtain ⟨s₃, e, v, hstep, hip3, hblocks3, hinv3, helses3⟩ :=
      closing_step hclosing2 hblocks2 hafter2.inv hheights2
    have hheights3 := tail_heights hblocks2 hblocks3 hheights2
    have hpending : ({ b₂.atEnd e with valueStack := v } : Block).elsePending s₃.ip = none := by
      show b₂.elsePending s₃.ip = none
      rw [hb2.elsePending]
      exact hnone _ (by omega)
    obtain ⟨t, hresume, -, hipt, hheightst, haftert⟩ := hin.leave false hinv3 hblocks3
      hb2.labelType hprev2 hheights3 (fun x hx => hafter2.elses x (helses3 ▸ hx)) rfl
      (Or.inr hpending)
    refine ⟨fun _ => ⟨t, ?_, ?_, hheightst, haftert⟩, fun hfalse => ?_⟩
    · have hlast : Visits code s₂ [s₂.ip] t := .single (hstep.trans hresume)
      rw [hip2] at hlast
      simpa only [Flow.marker, hending, if_true] using hvisits.trans hlast
    · rw [hipt]
      exact congrArg (· + 1) hb2.wasmCodeEnd
    · exact absurd (hreached.mpr (Or.inl hending)) (by simp [hfalse])
  | stops inner =>
    rw [hending] at hout
    obtain ⟨s₂, hresume, hle, hstop, hheights2, hafter2⟩ := hout
    obtain ⟨b₂, prev₂, hblocks2, hb2, hprev2⟩ := hafter2.marks.cons_inv hin.blocks
    have hpending : b₂.elsePending s₂.ip = none := by
      rw [hb2.elsePending]
      exact hnone _ hle
    have hreach2 : b₂.isReachable = reached := by
      rw [Bool.eq_iff_iff, hb2.reachable, hreached, hloop, hending]
      simp
    have hmarker : f.marker stop = [] := by simp [Flow.marker, hending]
    rw [hmarker, append_nil]
    constructor
    · intro htrue
      obtain ⟨t, hres, -, hipt, hheightst, haftert⟩ := hin.leave inner hafter2.inv
        hblocks2 hb2.labelType hprev2 hheights2 hafter2.elses (hreach2.trans htrue)
        (Or.inr hpending)
      refine ⟨t, hresume t hres, ?_, hheightst, haftert⟩
      rw [hipt, hb2.wasmCodeEnd]
    · intro hfalse
      obtain ⟨s', hres, hip', hheights', hafter'⟩ := hin.giveUp inner hafter2.inv hblocks2
        hprev2 hheights2 hafter2.elses (hreach2.trans hfalse) hpending
      refine ⟨s', fun t ht => hresume t (hres.trans ht), ?_, ?_, hheights', hafter'⟩
      · rw [hip']
        exact hle
      · rw [hip']
        exact hstop

section Arm

-- an arm of a block that ends at `q`, and the instructions behind the block
variable (reached : Bool) (hin : Inside labels l m ts h hs s s₁ b prev)
  (hvisits : Visits code s us s₁) (hp : p ≤ p₁) (hend : b.wasmCodeEnd = q)
  (hnone : ∀ ip, p₁ ≤ ip → b.elsePending ip = none) (hnext : Simulates code next)
  (hvalid : next.Valid labels (h + l.results) r) (hdrop : code.drop (q + 1) = next.bytes ++ rest)
  (hends : ∀ c ∈ s.blocks, q + 1 + next.size ≤ c.wasmCodeEnd)
  (hblocks : reached = true → ∀ a ∈ next.blocks (q + 1), a.Unmistaken code)

include hin hvisits hp hend hnone hnext hvalid hdrop hends hblocks

lemma Verdict.close (hout : Outcome code (l :: labels) m l.results (h :: hs) s₁ p₁ stop vs f)
    (hclosing : Closing code stop b) (hstop : p₁ ≤ stop) (hle : stop ≤ q)
    (hreached : reached = true ↔
      f.ending = .falls ∨ b.isReachable = true ∨ 0 ∈ f.targets ∧ l.isLoop = false)
    (hwithin : Within p (q + 1) (us ++ (vs ++ f.marker stop))) :
    Verdict code labels m r hs s p (q + 1 + next.size)
      (us ++ (vs ++ f.marker stop ++ if reached = true then next.reached (q + 1) else []))
      (next.flow.after reached (outerDepths (ts ++ f.targets)))
      (reached = true → next.CleanAt code (q + 1)) := by
  obtain ⟨hleft, hgiven⟩ := hout.closes hin hclosing hstop hnone hreached
  rw [hend] at hleft
  cases reached with
  | true =>
    obtain ⟨t, hrest, hip, hheights, hafter⟩ := hleft rfl
    have hverdict := hnext hvalid hdrop hip hafter.inv hheights (hafter.marks.ends hends)
      (hblocks rfl)
    have hbefore := hverdict.before (p := p) (hvisits.trans hrest) hafter (by omega) hwithin
      (next.within_reached _)
    simp only [if_true, forall_const, Flow.after]
    rwa [append_assoc] at hbefore
  | false =>
    obtain ⟨s', hresume, hip, hip', hheights, hafter⟩ := hgiven rfl
    refine Or.inl ⟨fun hfalse => absurd hfalse (by simp), s', ?_, by omega, by omega, hheights,
      hafter⟩
    intro t ht
    simpa using hvisits.trans (hresume t ht)

lemma Verdict.arm {c : Body} {rest' : List CodeByte} (hip : s₁.ip = p₁) (hus : Within p p₁ us)
    (hc : Simulates code c) (hcvalid : c.Valid (l :: labels) l.params l.results)
    (hcblocks : ∀ a ∈ c.blocks p₁, a.Unmistaken code) (hcdrop : code.drop p₁ = c.bytes ++ rest')
    (hclosing : Closing code (p₁ + c.size) b) (hle : p₁ + c.size ≤ q)
    (hreached : reached = true ↔
      c.flow.ending = .falls ∨ b.isReachable = true ∨ 0 ∈ c.flow.targets ∧ l.isLoop = false) :
    Verdict code labels m r hs s p (q + 1 + next.size)
      (us ++ (c.reached p₁ ++ c.flow.marker (p₁ + c.size) ++
        if reached = true then next.reached (q + 1) else []))
      (next.flow.after reached (outerDepths (ts ++ c.flow.targets)))
      (c.CleanAt code p₁ ∧ (reached = true → next.CleanAt code (q + 1))) := by
  have harm := hc hcvalid hcdrop hip hin.inv hin.heights (by
    rw [hin.blocks]
    intro x hx
    rcases mem_cons.mp hx with rfl | hx
    · exact hend.ge.trans' hle
    · have hfar := hin.marks.ends hends x hx
      omega) hcblocks
  have hwithin := c.within_reached p₁
  rcases harm with ⟨hclean, hout⟩ | ⟨hclean, hfaulty⟩
  · have hmarked := hus.append (hwithin.marked.mono (Nat.succ_le_succ hle)) hp (by omega)
    have hverdict := Verdict.close reached hin hvisits hp hend hnone hnext hvalid hdrop hends
      hblocks hout hclosing (Nat.le_add_right _ _) hle hreached hmarked
    exact hverdict.congr (by simp [hclean])
  · refine Or.inr ⟨fun hboth => hclean hboth.1, hfaulty.before hvisits (hus.disjoint hwithin) ?_⟩
    intro x hx
    simp [hx]

end Arm

/-! ## Blocks and loops -/

lemma simulates_block {isLoop : Bool} {body : Body} (ihb : Simulates code body)
    (ihn : Simulates code next) :
    Simulates code (.block imm isLoop params results body next) := by
  rintro p h r hs labels m s rest ⟨hparams, hvalid, hvalid'⟩ hdrop rfl hinv hheights hends hblocks
  simp only [Body.bytes, append_assoc] at hdrop
  obtain ⟨hop, hdrop1⟩ := Body.drop_instr hdrop
  obtain ⟨hopEnd, hdrop2⟩ := Body.drop_byte (Body.drop_body hdrop1)
  simp only [Body.blocks, forall_mem_cons, forall_mem_append] at hblocks
  obtain ⟨hsearch, hbody, hnext⟩ := hblocks
  have hstop : s.ip + (Body.block imm isLoop params results body next).size =
      s.ip + (imm.length + 1) + body.size + 1 + next.size := by
    rw [Body.size_block]
    omega
  rw [hstop] at hends ⊢
  refine Verdict.of_search hop hsearch ?_ (fun hclean => hclean.2 _ (by simp [Body.blocks])) ?_
  · intro hnone
    cases isLoop <;> exact congrArg (Option.bind · _) hnone
  · intro hfind
    obtain ⟨s₁, b, prev, hblock, hip, hin, hif, hend, hreach⟩ := aotCompileOpBlock_spec
      (s := s.advance (imm.length + 1)) isLoop results hfind hinv.advance hheights hparams
    have hstep : step code s = some s₁ := by
      rw [step_eq hop, ← hblock]
      cases isLoop <;> rfl
    have hverdict := Verdict.arm (body.flow.reachesEnd isLoop) hin.of_advance (.single hstep)
      (Nat.le_add_right _ _) hend (fun ip _ => b.elsePending_of_ne hif ip) ihn hvalid' hdrop2 hends
      (fun htrue => by simpa [htrue] using hnext) hip (within_first _ _) ihb hvalid hbody hdrop1
      (Or.inl hopEnd) le_rfl (by simp [Flow.reachesEnd, hreach, and_comm])
    refine hverdict.congr ((cleanAt_then _).trans ?_)
    rw [Body.CleanAt, Body.blocks, forall_mem_cons, and_iff_right hfind]
    rfl

/-! ## From the first arm of an `if` to the second -/

section ToElse

variable {c : Block} {prev₂ : List Block}

lemma Inside.startElse (hin : Inside labels l m' [] h hs s s₁ b prev)
    (hinv : Inv (l :: labels) (e ::ₘ m) s₂) (hblocks : s₂.blocks = c :: prev₂)
    (hlabel : c.labelType = b.labelType) (hmarks : Marks (outerDepths us) prev prev₂)
    (hheights : s₂.heights.tail = h :: hs) (helses : ∀ x ∈ s₂.elses, x ∈ s₁.elses ∨ x.WithParams)
    (ip : ℕ) :
    Inside labels l m us h hs s { s₂.startElse c prev₂ e (phis e c.params) with ip := ip }
      { c with valueStack := phis e c.params } prev₂ := by
  have hrestack := hinv.restack hblocks (phis e c.params)
  rw [State.heights, hblocks, map_cons, tail_cons] at hheights
  refine ⟨rfl, hin.marks.trans hmarks, ?_, hheights, ?_,
    ⟨hrestack.frames, hrestack.pending, hrestack.exception⟩, hlabel ▸ hin.notFunction⟩
  · exact (length_phis _ _).trans (hinv.head hblocks).params
  · intro x hx
    rcases mem_append.mp hx with hx | hx
    · exact (helses x hx).elim (hin.elses x) Or.inr
    · obtain rfl := mem_singleton.mp hx
      exact Or.inr rfl

/-- An `if` that still has its `else` arm to be translated. -/
structure Waiting (b : Block) (e q : ℕ) : Prop where
  isIf : b.labelType = .if_
  wasmCodeElse : b.wasmCodeElse = some q
  llvmElseBlock : b.llvmElseBlock = some e
  skip : b.skipWasmCodeElse = false
  unreachable : b.isReachable = false

lemma Waiting.elsePending {hit : Prop} (hwait : Waiting b e q) (hc : b.Marked hit c) {ip : ℕ}
    (hle : ip ≤ q) : c.elsePending ip = some (e, q) := by
  rw [hc.elsePending]
  exact Block.elsePending_of_le hwait.wasmCodeElse hwait.isIf hwait.skip hwait.llvmElseBlock hle

lemma Waiting.reachable {hit : Prop} (hwait : Waiting b e q) (hc : b.Marked hit c) :
    c.isReachable = true ↔ hit := by
  rw [hc.reachable, hwait.unreachable, hwait.isIf]
  simp

lemma else_step (hop : code[s.ip]? = some ⟨0x05, .else_, 1⟩) (hblocks : s.blocks = b :: prev)
    (hif : b.labelType = .if_) (hskip : b.skipWasmCodeElse = false) (helse : b.llvmElseBlock = some e)
    (hinv : Inv (l :: labels) (s.builder ::ₘ m) s) (hheights : s.heights = l.results :: hs) :
    ∃ s' d v, step code s =
        some (s'.startElse { b.atEnd d with valueStack := v } prev e (phis e b.params)) ∧
      s'.ip = s.ip + 1 ∧ s'.blocks = { b.atEnd d with valueStack := v } :: prev ∧
      Inv (l :: labels) m s' ∧ s'.elses = s.elses := by
  have hhead : (s.advance 1).blocks.head? = some b := by
    show s.blocks.head? = some b
    rw [hblocks]
    rfl
  obtain ⟨s₁, s₂, d, v, hreach, hpop, hblocks2, hinv2, hip, helses⟩ :=
    close_spec (s := s.advance 1) hblocks hinv.advance hheights
  refine ⟨s₂.buildBr [d], d, v, ?_, hip, hblocks2, hinv2, helses⟩
  have hblocks3 : (s₂.buildBr [d]).blocks = { b.atEnd d with valueStack := v } :: prev := hblocks2
  rw [step_eq hop]
  simp only [compileOp, aotCompileOpElse, hhead, hreach, hpop, bind_eq_bind,
    bind_some, hif, hskip, helse, hblocks3, Option.isSome_some, or_true, and_self, if_true,
    pure_def]
  rfl

/-- Behind its first arm the walk comes to the `else` arm with the parameters of the block, unless
the arm stops inside of an inner block and the block has parameters or its end is reached. -/
lemma Outcome.toElse (hin : Inside labels l (e ::ₘ m) [] h hs s s₁ b prev) (hwait : Waiting b e q)
    (hout : Outcome code (l :: labels) (e ::ₘ m) l.results (h :: hs) s₁ p₁ q vs f)
    (hop : code[q]? = some ⟨0x05, .else_, 1⟩)
    (hok : f.ending = .stops true → l.params = 0 ∧ 0 ∉ f.targets) :
    ∃ s₃ b₃ prev₃, Visits code s₁ (vs ++ f.marker q) s₃ ∧ s₃.ip = q + 1 ∧
      Inside labels l m f.targets h hs s s₃ b₃ prev₃ ∧ b₃.wasmCodeElse = some q ∧
      b₃.wasmCodeEnd = b.wasmCodeEnd ∧
      (b₃.isReachable = true ↔ f.ending = .falls ∨ 0 ∈ f.targets) := by
  unfold Outcome at hout
  cases hending : f.ending with
  | falls =>
    rw [hending] at hout
    obtain ⟨s₂, hvisits, hip2, hheights2, hafter2⟩ := hout
    obtain ⟨b₂, prev₂, hblocks2, hb2, hprev2⟩ := hafter2.marks.cons_inv hin.blocks
    obtain ⟨s₃, d, v, hstep, hip3, hblocks3, hinv3, helses3⟩ := else_step (hip2 ▸ hop) hblocks2
      (hb2.labelType.trans hwait.isIf) (hb2.skipWasmCodeElse.trans hwait.skip)
      (hb2.llvmElseBlock.trans hwait.llvmElseBlock) hafter2.inv hheights2
    have hheights3 := tail_heights hblocks2 hblocks3 hheights2
    have hstart := hin.startElse hinv3 hblocks3 hb2.labelType hprev2 hheights3
      (fun x hx => hafter2.elses x (helses3 ▸ hx)) s₃.ip
    refine ⟨_, _, prev₂, ?_, ?_, hstart, hb2.wasmCodeElse.trans hwait.wasmCodeElse,
      hb2.wasmCodeEnd, ?_⟩
    · have hlast := Visits.single hstep
      have hmarker : f.marker q = [q] := by simp [Flow.marker, hending]
      rw [hip2] at hlast
      rw [hmarker]
      exact hvisits.trans hlast
    · rw [← hip2]
      exact hip3
    · exact iff_of_true rfl (Or.inl rfl)
  | stops inner =>
    rw [hending] at hout
    obtain ⟨s₂, hresume, -, hle, hheights2, hafter2⟩ := hout
    obtain ⟨b₂, prev₂, hblocks2, hb2, hprev2⟩ := hafter2.marks.cons_inv hin.blocks
    have hpending := hwait.elsePending hb2 hle
    have hstart := hin.startElse hafter2.inv hblocks2 hb2.labelType hprev2 hheights2
      hafter2.elses (q + 1)
    have hmarker : f.marker q = [] := by simp [Flow.marker, hending]
    rw [hmarker, append_nil]
    refine ⟨_, _, prev₂, hresume _ ?_, rfl, hstart, hb2.wasmCodeElse.trans hwait.wasmCodeElse,
      hb2.wasmCodeEnd, ?_⟩
    · cases inner with
      | false => simp [resume, handleNextReachableBlock, hblocks2, hpending]
      | true =>
        obtain ⟨hzero, hnot⟩ := hok hending
        have hreach : b₂.isReachable = false := by
          rw [Bool.eq_false_iff, ne_eq, hwait.reachable hb2]
          exact hnot
        have hparams : b₂.params = 0 := (hafter2.inv.head hblocks2).params.trans hzero
        simp [resume, popUnreachable, hblocks2, hpending, hreach, hparams, phis]
    · show b₂.isReachable = true ↔ _
      rw [hwait.reachable hb2]
      simp

/-- In that case it misses the `else` arm or starts it without the parameters. -/
lemma Outcome.missesElse (hin : Inside labels l (e ::ₘ m) [] h hs s s₁ b prev)
    (hwait : Waiting b e q)
    (hout : Outcome code (l :: labels) (e ::ₘ m) l.results (h :: hs) s₁ p₁ q vs f)
    (hending : f.ending = .stops true) (hbad : ¬ (l.params = 0 ∧ 0 ∉ f.targets))
    (hends : ∀ c ∈ s₁.blocks, q + 1 ≤ c.wasmCodeEnd) (hvs : q + 1 ∉ vs) (hR : q + 1 ∈ R) :
    Faulty code s₁ R := by
  unfold Outcome at hout
  rw [hending] at hout
  obtain ⟨s₂, hresume, -, hle, hheights2, hafter2⟩ := hout
  have hends2 := hafter2.marks.ends hends
  obtain ⟨b₂, prev₂, hblocks2, hb2, hprev2⟩ := hafter2.marks.cons_inv hin.blocks
  by_cases hreach : b₂.isReachable = true
  · -- the end of the `if` is reached: the walk goes on behind it
    obtain ⟨t, hres, hleave, -⟩ := hin.leave true hafter2.inv hblocks2 hb2.labelType hprev2 hheights2
      hafter2.elses hreach (Or.inl rfl)
    rw [hblocks2] at hends2
    have hbeyond : Beyond (q + 1) t := beyond_leaveBlock hleave hends2
    refine Faulty.before (hresume t hres) ?_ ?_ (List.cons_subset.mpr ⟨hR, List.nil_subset _⟩)
    · intro ws t' hws _
      exact Or.inl ⟨q + 1, mem_singleton.mpr rfl, hws.onward.2 _ hbeyond⟩
    · intro x hx
      obtain rfl := mem_singleton.mp hx
      exact hvs
  · -- nothing reaches the end: the `else` arm is started without parameters, and there are some
    have hparams : b₂.params ≠ 0 := by
      intro hzero
      exact hbad ⟨(hafter2.inv.head hblocks2).params.symm.trans hzero,
        fun hmem => hreach ((hwait.reachable hb2).mpr hmem)⟩
    have hres : resume true s₂ = some { s₂.startElse b₂ prev₂ e [] with ip := q + 1 } := by
      simp [resume, popUnreachable, hblocks2, hwait.elsePending hb2 hle, hreach]
    refine Faulty.before (hresume _ hres) (R := []) ?_ (by simp) (List.nil_subset _)
    intro ws t' hws _
    refine Or.inr ⟨⟨e, b₂.params, []⟩, hws.onward.1 ?_, ?_⟩
    · exact mem_append.mpr (Or.inr (mem_singleton.mpr rfl))
    · intro hwith
      have hlen := congrArg List.length hwith
      rw [length_phis] at hlen
      exact hparams hlen.symm

end ToElse

/-! ## `if` -/

lemma simulates_ifThen {const : Option Bool} (iht : Simulates code thn)
    (ihn : Simulates code next) :
    Simulates code (.ifThen imm const params results thn next) := by
  rintro p h r hs labels m s rest ⟨hone, hparams, hequal, hvalid, hvalid'⟩ hdrop rfl hinv hheights
    hends hblocks
  simp only [Body.bytes, append_assoc] at hdrop
  obtain ⟨hop, hdrop1⟩ := Body.drop_instr hdrop
  obtain ⟨hopEnd, hdrop2⟩ := Body.drop_byte (Body.drop_body hdrop1)
  have hstop : s.ip + (Body.ifThen imm const params results thn next).size =
      s.ip + (imm.length + 1) + thn.size + 1 + next.size := by
    rw [Body.size_ifThen]
    omega
  rw [hstop] at hends ⊢
  have hmem : (⟨true, s.ip + (imm.length + 1), none, s.ip + (imm.length + 1) + thn.size⟩ : BlockAt) ∈
      (Body.ifThen imm const params results thn next).blocks s.ip := by
    rcases const with _ | _ | _ <;> exact List.mem_cons_self
  refine Verdict.of_search hop (hblocks _ hmem) (fun hnone => congrArg (Option.bind · _) hnone)
    (fun hclean => hclean.2 _ hmem) ?_
  intro hfind
  have hfirst := within_first s.ip imm.length
  rcases const with _ | _ | _
  all_goals
    rw [Body.blocks, forall_mem_cons] at hblocks
    replace hblocks := hblocks.2
  · -- both ways: the end is reached at once
    obtain ⟨s₁, b, prev, hif, hip, hin, helse, hend, hreach⟩ := aotCompileOpIf_noElse
      (s := s.advance (imm.length + 1)) results hinv.advance hheights hone hfind hparams
    rw [forall_mem_append] at hblocks
    have hverdict := Verdict.arm true hin.of_advance (.single ((step_eq hop).trans hif))
      (Nat.le_add_right _ _) hend (fun ip _ => b.elsePending_of_noElse helse ip) ihn hvalid' hdrop2
      hends (fun _ => hblocks.2) hip hfirst iht hvalid hblocks.1 hdrop1 (Or.inl hopEnd) le_rfl
      (by simp [hreach])
    have hboth := hverdict.congr (cleanAt_then true)
    simp only [if_true, forall_const] at hboth
    refine hboth.congr ?_
    rw [Body.CleanAt, Body.blocks, forall_mem_cons, and_iff_right hfind]
    rfl
  · -- the block is skipped
    obtain ⟨s₁, hif, hip, hheights1, hinv1, hbuilder, hmarks, helses⟩ := aotCompileOpIf_skip
      (s := s.advance (imm.length + 1)) results params hfind hinv.advance hheights hone
    have hheight : h - 1 - params + results = h - 1 := by omega
    rw [hheight] at hvalid'
    have hbuilder' : s₁.builder = s.builder := hbuilder
    rw [← hbuilder'] at hinv1
    have hafter : After labels (s₁.builder ::ₘ m) [] s s₁ :=
      ⟨hinv1, hmarks, fun _ he => Or.inl (helses ▸ he)⟩
    have hverdict := ihn hvalid' hdrop2 hip hinv1 hheights1 (hmarks.ends hends) hblocks
    have hbefore := hverdict.before (p := s.ip) (.single ((step_eq hop).trans hif)) hafter (by omega)
      (hfirst.mono (by omega)) (next.within_reached _)
    refine hbefore.congr ?_
    rw [Body.CleanAt, Body.CleanAt, Body.blocks, forall_mem_cons, and_iff_right hfind]
    rfl
  · -- the condition is true
    obtain ⟨s₁, b, prev, hif, hip, hin, -, hskip, hend, hreach⟩ := aotCompileOpIf_true
      (s := s.advance (imm.length + 1)) results hinv.advance hheights hone hfind hparams
    rw [forall_mem_append] at hblocks
    have hverdict := Verdict.arm (thn.flow.reachesEnd false) hin.of_advance
      (.single ((step_eq hop).trans hif)) (Nat.le_add_right _ _) hend
      (fun ip _ => b.elsePending_of_skip hskip ip) ihn hvalid' hdrop2 hends
      (fun htrue => by simpa [htrue] using hblocks.2) hip hfirst iht hvalid hblocks.1 hdrop1
      (Or.inl hopEnd) le_rfl (by simp [Flow.reachesEnd, hreach])
    refine hverdict.congr ((cleanAt_then _).trans ?_)
    rw [Body.CleanAt, Body.blocks, forall_mem_cons, and_iff_right hfind]
    rfl

lemma cleanAt_ifElse
    (hfind : BlockAt.Found code ⟨true, p + (imm.length + 1), some (p + (imm.length + 1) + thn.size),
      p + (imm.length + 1) + thn.size + 1 + els.size⟩) :
    (Body.ifElse imm none params results thn els next).CleanAt code p ↔
      thn.CleanAt code (p + (imm.length + 1)) ∧
      (thn.flow.ending = .stops true → params = 0 ∧ 0 ∉ thn.flow.targets) ∧
      els.CleanAt code (p + (imm.length + 1) + thn.size + 1) ∧
      ((thn.flow.reachesEnd false || els.flow.reachesEnd false) = true →
        next.CleanAt code (p + (imm.length + 1) + thn.size + 1 + els.size + 1)) := by
  rw [cleanAt_then, Body.CleanAt, Body.CleanAt, Body.blocks, forall_mem_cons,
    and_iff_right hfind, forall_mem_append, Body.Clean]
  constructor
  · rintro ⟨⟨hthn, hok, hels, hnext⟩, hthns, hrest⟩
    exact ⟨⟨hthn, hthns⟩, hok, ⟨hels, hnext⟩, hrest⟩
  · rintro ⟨⟨hthn, hthns⟩, hok, ⟨hels, hnext⟩, hrest⟩
    exact ⟨⟨hthn, hok, hels, hnext⟩, hthns, hrest⟩

lemma reachesEnd_or (f g : Flow) : (f.reachesEnd false || g.reachesEnd false) = true ↔
    g.ending = .falls ∨ (f.ending = .falls ∨ 0 ∈ f.targets) ∨ 0 ∈ g.targets := by
  simp [Flow.reachesEnd]
  tauto

lemma simulates_ifElse_none (iht : Simulates code thn) (ihe : Simulates code els)
    (ihn : Simulates code next) :
    Simulates code (.ifElse imm none params results thn els next) := by
  rintro p h r hs labels m s rest ⟨hone, hparams, hvalid, hvalid', hvalid''⟩ hdrop rfl hinv hheights
    hends hblocks
  simp only [Body.bytes, append_assoc] at hdrop
  obtain ⟨hop, hdrop1⟩ := Body.drop_instr hdrop
  obtain ⟨hopElse, hdrop2⟩ := Body.drop_byte (Body.drop_body hdrop1)
  obtain ⟨hopEnd, hdrop3⟩ := Body.drop_byte (Body.drop_body hdrop2)
  have hstop : s.ip + (Body.ifElse imm none params results thn els next).size =
      s.ip + (imm.length + 1) + thn.size + 1 + els.size + 1 + next.size := by
    rw [Body.size_ifElse]
    omega
  rw [hstop] at hends ⊢
  rw [Body.blocks, forall_mem_cons] at hblocks
  obtain ⟨hsearch, hblocks⟩ := hblocks
  refine Verdict.of_search hop hsearch (fun hnone => congrArg (Option.bind · _) hnone)
    (fun hclean => hclean.2 _ (by simp [Body.blocks])) ?_
  intro hfind
  rw [forall_mem_append, forall_mem_append] at hblocks
  obtain ⟨hthn, hels, hnext⟩ := hblocks
  obtain ⟨s₁, b, prev, e, hif, hip, hin, hlabel, helse, hend, hblock, hskip, hreach⟩ :=
    aotCompileOpIf_else (s := s.advance (imm.length + 1)) results hinv.advance hheights hone hfind
      hparams
  have hstep := (step_eq hop).trans hif
  have hin := hin.of_advance
  have hwait : Waiting b e (s.ip + (imm.length + 1) + thn.size) := ⟨hlabel, helse, hblock, hskip, hreach⟩
  have hends1 : ∀ c ∈ s₁.blocks, s.ip + (imm.length + 1) + thn.size + 1 + els.size ≤ c.wasmCodeEnd := by
    rw [hin.blocks]
    intro c hc
    rcases mem_cons.mp hc with rfl | hc
    · exact hend.ge
    · have hfar := hin.marks.ends hends c hc
      omega
  have hfirst := within_first s.ip imm.length
  have hwithin := thn.within_reached (s.ip + (imm.length + 1))
  rcases iht hvalid hdrop1 hip hin.inv hin.heights (fun c hc => by
    have hfar := hends1 c hc
    omega) hthn with ⟨hclean, hout⟩ | ⟨hclean, hfaulty⟩
  · by_cases hok : thn.flow.ending = .stops true → params = 0 ∧ 0 ∉ thn.flow.targets
    · -- the walk comes to the second arm
      obtain ⟨s₃, b₃, prev₃, hvisits, hip3, hin3, helse3, hend3, hreach3⟩ :=
        hout.toElse hin hwait hopElse hok
      have hend3 := hend3.trans hend
      have hverdict := Verdict.arm (thn.flow.reachesEnd false || els.flow.reachesEnd false) hin3
        ((Visits.single hstep).trans hvisits) (by omega) hend3
        (fun ip hle => b₃.elsePending_of_lt helse3 (by omega)) ihn hvalid'' hdrop3 hends
        (fun htrue => by simpa only [htrue, if_true] using hnext) hip3
        (Within.cons hwithin.marked (by omega) (by omega)) ihe hvalid' hels hdrop2 (Or.inl hopEnd)
        le_rfl (by rw [hreach3, reachesEnd_or, and_iff_left rfl])
      refine hverdict.congr (Iff.trans ?_ (cleanAt_ifElse hfind).symm)
      exact ⟨fun hc => ⟨hclean, hok, hc⟩, fun hc => hc.2.2⟩
    · -- it does not, or without the parameters
      obtain ⟨hending, hbad⟩ := not_forall.mp hok
      have hfaulty := hout.missesElse (R := els.reached (s.ip + (imm.length + 1) + thn.size + 1) ++
        els.flow.marker (s.ip + (imm.length + 1) + thn.size + 1 + els.size)) hin hwait hending hbad
        (fun c hc => by
          have hfar := hends1 c hc
          omega)
        (fun hmem => by
          have hlt := (hwithin.2 _ hmem).2
          omega)
        (els.head_mem_reached _)
      refine Or.inr ⟨fun hc => hok ((cleanAt_ifElse hfind).mp hc).2.1, hfaulty.before (.single hstep) ?_ ?_⟩
      · exact hfirst.disjoint ((els.within_reached _).marked.mono_left (by omega))
      · intro x hx
        simp only [Body.reached, mem_cons, mem_append] at hx ⊢
        tauto
  · refine Or.inr ⟨fun hc => hclean ((cleanAt_ifElse hfind).mp hc).1, hfaulty.before (.single hstep)
      (hfirst.disjoint hwithin) ?_⟩
    intro x hx
    simp [Body.reached, hx]

lemma simulates_ifElse_some {const : Bool} (iht : Simulates code thn) (ihe : Simulates code els)
    (ihn : Simulates code next) :
    Simulates code (.ifElse imm (some const) params results thn els next) := by
  rintro p h r hs labels m s rest ⟨hone, hparams, hvalid, hvalid', hvalid''⟩ hdrop rfl hinv hheights
    hends hblocks
  simp only [Body.bytes, append_assoc] at hdrop
  obtain ⟨hop, hdrop1⟩ := Body.drop_instr hdrop
  obtain ⟨hopElse, hdrop2⟩ := Body.drop_byte (Body.drop_body hdrop1)
  obtain ⟨hopEnd, hdrop3⟩ := Body.drop_byte (Body.drop_body hdrop2)
  have hstop : s.ip + (Body.ifElse imm (some const) params results thn els next).size =
      s.ip + (imm.length + 1) + thn.size + 1 + els.size + 1 + next.size := by
    rw [Body.size_ifElse]
    omega
  rw [hstop] at hends ⊢
  have hmem : (⟨true, s.ip + (imm.length + 1), some (s.ip + (imm.length + 1) + thn.size),
      s.ip + (imm.length + 1) + thn.size + 1 + els.size⟩ : BlockAt) ∈
      (Body.ifElse imm (some const) params results thn els next).blocks s.ip := by
    cases const <;> exact List.mem_cons_self
  refine Verdict.of_search hop (hblocks _ hmem) (fun hnone => congrArg (Option.bind · _) hnone)
    (fun hclean => hclean.2 _ hmem) ?_
  intro hfind
  have hfirst := within_first s.ip imm.length
  cases const with
  | true =>
    rw [Body.blocks, forall_mem_cons, forall_mem_append] at hblocks
    obtain ⟨-, hthn, hnext⟩ := hblocks
    obtain ⟨s₁, b, prev, hif, hip, hin, hlabel, hskip, hend, hreach⟩ := aotCompileOpIf_true
      (s := s.advance (imm.length + 1)) results hinv.advance hheights hone hfind hparams
    have hverdict := Verdict.arm (thn.flow.reachesEnd false) hin.of_advance
      (.single ((step_eq hop).trans hif)) (Nat.le_add_right _ _) hend
      (fun ip _ => b.elsePending_of_skip hskip ip) ihn hvalid'' hdrop3 hends
      (fun htrue => by simpa [htrue] using hnext) hip hfirst iht hvalid hthn hdrop1
      (Or.inr ⟨hopElse, hlabel, hskip⟩) (Nat.le_add_right_of_le (Nat.le_succ _))
      (by simp [Flow.reachesEnd, hreach])
    refine hverdict.congr ((cleanAt_then _).trans ?_)
    rw [Body.CleanAt, Body.blocks, forall_mem_cons, and_iff_right hfind]
    rfl
  | false =>
    rw [Body.blocks, forall_mem_cons, forall_mem_append] at hblocks
    obtain ⟨-, hels, hnext⟩ := hblocks
    by_cases hzero : params = 0
    · subst hzero
      obtain ⟨s₁, b, prev, hif, hip, hin, helse, hend, hreach⟩ := aotCompileOpIf_false
        (s := s.advance (imm.length + 1)) results hinv.advance hheights hone hfind
      have hverdict := Verdict.arm (els.flow.reachesEnd false) hin.of_advance
        (.single ((step_eq hop).trans hif)) (by omega) hend
        (fun ip hle => b.elsePending_of_lt helse (by omega)) ihn hvalid'' hdrop3 hends
        (fun htrue => by simpa [htrue] using hnext) hip (hfirst.mono (by omega)) ihe hvalid' hels
        hdrop2 (Or.inl hopEnd) le_rfl (by simp [Flow.reachesEnd, hreach])
      refine hverdict.congr ((cleanAt_then _).trans ?_)
      rw [Body.CleanAt, Body.blocks, forall_mem_cons, and_iff_right hfind]
      simp [Body.Clean]
    · -- the compiler stops
      have hnone : step code s = none :=
        (step_eq hop).trans (aotCompileOpIf_false_eq_none results hfind hzero)
      exact Or.inr ⟨fun hc => hzero hc.1.1,
        faulty_of_step (List.getElem?_eq_some_iff.mp hop).1 hnone⟩

/-- The walk simulates control flow on every body. -/
theorem simulates (c : Body) : Simulates code c := by
  induction c with
  | done => exact simulates_done
  | plain _ _ _ _ _ _ _ ih => exact simulates_plain ih
  | block _ _ _ _ _ _ ihb ihn => exact simulates_block ihb ihn
  | ifThen _ _ _ _ _ _ iht ihn => exact simulates_ifThen iht ihn
  | ifElse _ const _ _ _ _ _ iht ihe ihn =>
    cases const with
    | none => exact simulates_ifElse_none iht ihe ihn
    | some _ => exact simulates_ifElse_some iht ihe ihn
  | br _ _ _ _ => exact simulates_br
  | brIf _ _ _ _ ih => exact simulates_brIf ih
  | brTable _ _ _ _ _ _ => exact simulates_brTable
  | ret _ _ => exact simulates_ret
  | unreachable _ _ => exact simulates_unreachable

/-! ## Functions -/

namespace Func

variable (f : Func)

lemma inv_start : Inv [⟨false, 0, f.results⟩] ((start f.code f.results).builder ::ₘ 0)
    (start f.code f.results) := by
  refine ⟨.cons ⟨by simp [funcBlock, newBlock], rfl, rfl, fun hl => absurd hl (by simp), ?_⟩ .nil,
    Cfg.pending_start, fun e he => absurd he (by simp [start])⟩
  simp [funcBlock, newBlock]

lemma finish (inner : Bool) {s₂ : State} (hinv : Inv [⟨false, 0, f.results⟩] 0 s₂)
    (hblocks : s₂.blocks = [b]) (hfun : b.labelType = .function)
    (hend : b.wasmCodeEnd = f.code.length) :
    ∃ t, resume inner s₂ = some t ∧ f.code.length ≤ t.ip ∧ t.cfg.Terminated ∧
      t.elses = s₂.elses := by
  have hnone : b.elsePending s₂.ip = none := b.elsePending_of_ne (by simp [hfun]) _
  by_cases hreach : b.isReachable = true
  · obtain ⟨e, he⟩ := Option.isSome_iff_exists.mp ((hinv.head hblocks).reachable hreach)
    have hres := (resume_of_reachable hblocks hreach (Or.inr hnone) : resume inner s₂ = _)
    have hleave : leaveBlock s₂ b [] = some (State.buildBr
        { s₂ with ip := b.wasmCodeEnd + 1, builder := e, blocks := [] } []) := by
      simp only [leaveBlock, he, bind_eq_bind, bind_some, hfun, if_true,
        pure_def]
    refine ⟨_, hres.trans hleave, ?_, ?_, rfl⟩
    · show f.code.length ≤ b.wasmCodeEnd + 1
      omega
    · have hpending := hinv.pending
      rw [hblocks] at hpending
      simp only [reachedEnds_cons, quietEnds_cons, Block.reachedEnd, Block.quietEnd, hreach, he,
        if_true, Option.elim_some, zero_add, reachedEnds_nil, quietEnds_nil,
        Multiset.singleton_add] at hpending
      exact (hpending.terminate fun x hx => absurd hx not_mem_nil).terminated
  · have hfalse : b.isReachable = false := by simpa using hreach
    have hdrop := giveUp_spec hinv hblocks hfalse
    refine ⟨{ s₂.dropEnd b with blocks := [], ip := b.wasmCodeEnd + 1 }, ?_, ?_, ?_,
      elses_dropEnd s₂ b⟩
    · cases inner <;>
        simp [resume, handleNextReachableBlock, hblocks, hnone, popUnreachable, hfalse]
    · show f.code.length ≤ b.wasmCodeEnd + 1
      omega
    · exact hdrop.pending.terminated

lemma visits_of_outcome
    (hout : Outcome f.code [⟨false, 0, f.results⟩] 0 f.results [] (start f.code f.results) 0
      f.body.size (f.body.reached 0) f.body.flow) :
    ∃ t, Visits f.code (start f.code f.results) f.reached t ∧ f.code.length ≤ t.ip ∧
      (∀ e ∈ t.elses, e.WithParams) ∧ t.cfg.Terminated := by
  unfold Outcome at hout
  -- the block of the function is the only one left
  have hblock : ∀ {s₂ : State}, Marks f.body.flow.targets (start f.code f.results).blocks s₂.blocks →
      ∃ b, s₂.blocks = [b] ∧ b.labelType = .function ∧ b.wasmCodeEnd = f.code.length := by
    intro s₂ hmarks
    obtain ⟨b, rest, hblocks, hb, hrest⟩ := hmarks.cons_inv rfl
    cases rest with
    | nil => exact ⟨b, hblocks, hb.labelType, hb.wasmCodeEnd⟩
    | cons _ _ => exact hrest.elim
  cases hending : f.body.flow.ending with
  | falls =>
    rw [hending] at hout
    obtain ⟨s₂, hvisits, hip2, hheights2, hafter2⟩ := hout
    obtain ⟨b, hblocks2, hfun, hend⟩ := hblock hafter2.marks
    have hop : f.code[f.body.size]? = some ⟨0x0b, .end_, 1⟩ := by
      simp [code, Body.size, instr]
    obtain ⟨s₃, e, v, hstep, -, hblocks3, hinv3, helses3⟩ :=
      closing_step (Or.inl (hip2 ▸ hop)) hblocks2 hafter2.inv hheights2
    obtain ⟨t, hres, hlength, hterm, helses⟩ := f.finish false hinv3 hblocks3 hfun hend
    refine ⟨t, ?_, hlength, ?_, hterm⟩
    · have hlast := Visits.single (hstep.trans hres)
      rw [hip2] at hlast
      have hmarker : f.body.flow.marker f.body.size = [f.body.size] := by
        simp [Flow.marker, hending]
      rw [reached, hmarker]
      exact hvisits.trans hlast
    · intro x hx
      rw [helses, helses3] at hx
      exact (hafter2.elses x hx).resolve_left not_mem_nil
  | stops inner =>
    rw [hending] at hout
    obtain ⟨s₂, hresume, -, -, -, hafter2⟩ := hout
    obtain ⟨b, hblocks2, hfun, hend⟩ := hblock hafter2.marks
    obtain ⟨t, hres, hlength, hterm, helses⟩ :=
      f.finish inner hafter2.inv hblocks2 hfun hend
    refine ⟨t, ?_, hlength, ?_, hterm⟩
    · have hmarker : f.body.flow.marker f.body.size = [] := by simp [Flow.marker, hending]
      rw [reached, hmarker, append_nil]
      exact hresume t hres
    · intro x hx
      rw [helses] at hx
      exact (hafter2.elses x hx).resolve_left not_mem_nil

lemma within_reached : Within 0 f.code.length f.reached := by
  have hlength : f.code.length = 0 + f.body.size + 1 := by simp [code, Body.size]
  have hmarked := (f.body.within_reached 0).marked
  rw [Nat.zero_add] at hmarked hlength
  rw [hlength]
  exact hmarked

lemma verdict (hends : f.Unmistaken) : Verdict f.code [⟨false, 0, f.results⟩] 0 f.results []
    (start f.code f.results) 0 f.body.size (f.body.reached 0) f.body.flow f.Clean := by
  have hblocks : ∀ b ∈ (start f.code f.results).blocks, 0 + f.body.size ≤ b.wasmCodeEnd := by
    intro b hb
    obtain rfl := mem_singleton.mp hb
    show 0 + f.body.size ≤ f.code.length
    simp [code, Body.size]
  have hverdict : Verdict f.code [⟨false, 0, f.results⟩] 0 f.results [] (start f.code f.results) 0
      (0 + f.body.size) (f.body.reached 0) f.body.flow f.Clean :=
    simulates f.body f.valid rfl rfl f.inv_start rfl hblocks hends
  rwa [Nat.zero_add] at hverdict

/-- A valid function is translated as a whole if it is clean.  Unless another place is mistaken for
the end of a block that control flow reaches, it is translated only then. -/
theorem translated_iff :
    (f.Clean → f.Translated) ∧ (f.Unmistaken → (f.Translated ↔ f.Clean)) := by
  have hclean : f.Clean → f.Translated := by
    intro hclean
    rcases f.verdict fun b hb => Or.inr (hclean.2 b hb) with ⟨-, hout⟩ | ⟨hnot, -⟩
    · obtain ⟨t, hvisits, hlength, helses, hterm⟩ := f.visits_of_outcome hout
      have hfuel : f.reached.length ≤ f.code.length := by
        have hroom := f.within_reached.length_le (Nat.zero_le _)
        rwa [Nat.zero_add] at hroom
      exact ⟨f.reached, t, walk_of_visits hvisits hlength _ hfuel, f.within_reached.nodup,
        fun p => Iff.rfl, helses, hterm⟩
    · exact absurd hclean hnot
  refine ⟨hclean, fun hends => ⟨?_, hclean⟩⟩
  rintro ⟨visited, s, hwalk, -, hmem, helses, -⟩
  obtain ⟨hvisits, hlength⟩ := visits_of_walk hwalk
  rcases f.verdict hends with ⟨hclean, -⟩ | ⟨-, hfaulty⟩
  · exact hclean
  · rcases hfaulty visited s hvisits hlength with ⟨q, hq, hmissed⟩ | ⟨e, he, hwithout⟩
    · exact absurd ((hmem q).mpr (mem_append.mpr (Or.inl hq))) hmissed
    · exact absurd (helses e he) hwithout

/-- A byte of an immediate, which no compiler reads an opcode from. -/
def operand (byte : UInt8) : CodeByte := ⟨byte, .unreachable, 1⟩

/-- An `if` whose first arm branches to the end of the `if` under a condition and then returns from
within a block: `if; br_if 0; block; return; end; else; nop; end`.  Conditions are local variables.
The `else` arm is never translated. -/
def returnInBlock : Func where
  body := .plain 0x20 [operand 0] 0 1 0 false <| .ifElse [operand 0x40] none 0 0
    (.plain 0x20 [operand 0] 0 1 0 false <| .brIf [operand 0] none 0 <|
      .block [operand 0x40] false 0 0 (.ret .done) .done)
    (.plain 0x01 [] 0 0 0 false .done) .done
  results := 0
  valid := by
    refine ⟨le_rfl, by decide, by decide, ⟨by decide, by decide, ?_, by decide, ?_, rfl⟩,
      ⟨by decide, rfl⟩, rfl⟩
    · exact ⟨_, rfl, by decide⟩
    · exact ⟨_, rfl, le_rfl⟩

/-- Its `else` arm, at position 13, is reached but not visited, and the basic block of the arm has a
predecessor and no terminator. -/
theorem returnInBlock_not_translated : ¬ returnInBlock.Translated := by
  rintro ⟨visited, s, hwalk, -, hmem, -, -⟩
  have hrun : (aotCompileFunc returnInBlock.code returnInBlock.results).map Prod.fst =
      some [0, 2, 4, 6, 8, 10, 15] := by
    decide +kernel
  rw [hwalk] at hrun
  obtain rfl : visited = [0, 2, 4, 6, 8, 10, 15] := Option.some.inj hrun
  have hreached : 13 ∈ returnInBlock.reached := by decide
  exact absurd ((hmem 13).mpr hreached) (by decide)

/-- A block in a block, the inner one of a type with the number 256. -/
def wideType : Func where
  body := .block [operand 0x40] false 0 0
    (.block [operand 0x80, operand 0x02] false 0 0 .done .done) .done
  results := 0
  valid := ⟨le_rfl, ⟨le_rfl, rfl, rfl⟩, rfl⟩

-- the second byte of the type passes for a `block`, and the outer block has no end
example : aotCompileFunc wideType.code wideType.results = none := by decide +kernel

end Func

end Watz.Aot.Walk
