import Watz.Aot.WalkRuns

/-!
# Well-formed states of the walk

Inside of a valid function the block stack corresponds to the labels of the validator, every block
whose end is reached has an end block, and the basic blocks without a terminator are those the
translation will still come to: the current one, the end blocks of the stack, and the `else` arms
that wait.  This file states that invariant and says what the functions of the walk do to it.
-/

namespace Watz.Aot.Walk

open Lib (Cfg)
open Lib.Cfg (Pending)
open Multiset (cons_add cons_swap mem_add singleton_add)

open Option (bind_eq_bind bind_some pure_def)

variable {code : List CodeByte} {s s₁ s₂ s' t : State} {b b' : Block} {bs bs' prev : List Block}
  {l : Label} {labels : List Label} {m : Multiset ℕ} {ts us hs vs succs : List ℕ}
  {d e h n q r x : ℕ} {g g' : Cfg}

/-! ## Depths of labels -/

@[simp] lemma outerDepths_succ : outerDepths [d + 1] = [d] := by
  simp [outerDepths]

/-! ## Blocks of the stack that are branched to -/

/-- A block after some code inside of it: its end may have been reached and its value stack may
have changed. -/
structure Block.Marked (hit : Prop) (b b' : Block) : Prop where
  same : { b' with
    llvmEndBlock := b.llvmEndBlock
    isReachable := b.isReachable
    valueStack := b.valueStack } = b
  reachable : b'.isReachable = true ↔ b.isReachable = true ∨ hit ∧ b.labelType ≠ .loop

namespace Block.Marked

variable {hit hit' : Prop} {b'' : Block}

lemma labelType (h : b.Marked hit b') : b'.labelType = b.labelType :=
  (congrArg Block.labelType h.same :)

lemma wasmCodeElse (h : b.Marked hit b') : b'.wasmCodeElse = b.wasmCodeElse :=
  (congrArg Block.wasmCodeElse h.same :)

lemma wasmCodeEnd (h : b.Marked hit b') : b'.wasmCodeEnd = b.wasmCodeEnd :=
  (congrArg Block.wasmCodeEnd h.same :)

lemma skipWasmCodeElse (h : b.Marked hit b') : b'.skipWasmCodeElse = b.skipWasmCodeElse :=
  (congrArg Block.skipWasmCodeElse h.same :)

lemma llvmElseBlock (h : b.Marked hit b') : b'.llvmElseBlock = b.llvmElseBlock :=
  (congrArg Block.llvmElseBlock h.same :)

lemma elsePending (h : b.Marked hit b') (ip : ℕ) : b'.elsePending ip = b.elsePending ip :=
  (congrArg (Block.elsePending · ip) h.same :)

lemma refl (b : Block) : b.Marked False b := ⟨rfl, by simp⟩

lemma of_stack (b : Block) (v : List Value) : b.Marked False { b with valueStack := v } :=
  ⟨rfl, by simp⟩

lemma of_loop (hb : b.labelType = .loop) : b.Marked hit b := ⟨rfl, by simp [hb]⟩

lemma atEnd (hb : b.labelType ≠ .loop) (e : ℕ) : b.Marked True (b.atEnd e) :=
  ⟨rfl, by simp [hb, Block.atEnd]⟩

lemma trans (h1 : b.Marked hit b') (h2 : b'.Marked hit' b'') : b.Marked (hit ∨ hit') b'' := by
  refine ⟨?_, ?_⟩
  · have hsame := congrArg
      (fun c : Block => { c with
        llvmEndBlock := b.llvmEndBlock
        isReachable := b.isReachable
        valueStack := b.valueStack }) h2.same
    exact hsame.trans h1.same
  · rw [h2.reachable, h1.reachable, h1.labelType]
    tauto

lemma congr (h : b.Marked hit b') (hiff : hit ↔ hit') : b.Marked hit' b' :=
  ⟨h.same, by rw [h.reachable, hiff]⟩

end Block.Marked

/-- The block stack after code that branches to some labels. -/
def Marks : List ℕ → List Block → List Block → Prop
  | _, [], [] => True
  | ts, b :: bs, b' :: bs' => b.Marked (0 ∈ ts) b' ∧ Marks (outerDepths ts) bs bs'
  | _, _, _ => False

namespace Marks

lemma refl : ∀ bs : List Block, Marks [] bs bs
  | [] => trivial
  | b :: bs => ⟨(Block.Marked.refl b).congr (by simp), refl bs⟩

lemma cons_inv {l : List Block} (h : Marks ts l bs') (hl : l = b :: bs) :
    ∃ b' bs'', bs' = b' :: bs'' ∧ b.Marked (0 ∈ ts) b' ∧ Marks (outerDepths ts) bs bs'' := by
  subst hl
  cases bs' with
  | nil => exact h.elim
  | cons b' bs'' => exact ⟨b', bs'', rfl, h.1, h.2⟩

lemma trans {bs'' : List Block} (h1 : Marks ts bs bs') (h2 : Marks us bs' bs'') :
    Marks (ts ++ us) bs bs'' := by
  induction bs generalizing ts us bs' bs'' with
  | nil =>
    cases bs' with
    | nil =>
      cases bs'' with
      | nil => trivial
      | cons _ _ => exact h2.elim
    | cons _ _ => exact h1.elim
  | cons b bs ih =>
    obtain ⟨b', rest, rfl, hb, hrest⟩ := h1.cons_inv rfl
    obtain ⟨b'', rest', rfl, hb', hrest'⟩ := h2.cons_inv rfl
    refine ⟨(hb.trans hb').congr (by simp), ?_⟩
    rw [outerDepths_append]
    exact ih hrest hrest'

lemma of_stack (b : Block) (v : List Value) (prev : List Block) :
    Marks [] (b :: prev) ({ b with valueStack := v } :: prev) :=
  ⟨(Block.Marked.of_stack b v).congr (by simp), refl prev⟩

lemma of_set (hb : bs[d]? = some b) (hmark : b.Marked True b') : Marks [d] bs (bs.set d b') := by
  induction bs generalizing d with
  | nil => exact absurd hb (by simp)
  | cons c bs ih =>
    cases d with
    | zero =>
      obtain rfl := Option.some.inj hb
      exact ⟨hmark.congr (by simp), refl bs⟩
    | succ d =>
      refine ⟨(Block.Marked.refl c).congr (by simp), ?_⟩
      rw [outerDepths_succ]
      exact ih hb

lemma ends (h : Marks ts bs bs') (hends : ∀ c ∈ bs, q ≤ c.wasmCodeEnd) :
    ∀ c ∈ bs', q ≤ c.wasmCodeEnd := by
  induction bs generalizing ts bs' with
  | nil =>
    cases bs' with
    | nil => exact hends
    | cons _ _ => exact h.elim
  | cons b bs ih =>
    obtain ⟨b', rest, rfl, hb, hrest⟩ := h.cons_inv rfl
    intro c hc
    rcases List.mem_cons.mp hc with rfl | hc
    · rw [hb.wasmCodeEnd]
      exact hends b (by simp)
    · exact ih hrest (fun c hc => hends c (by simp [hc])) c hc

end Marks

/-! ## Arms that wait -/

lemma Block.elsePending_of_ne (hb : b.labelType ≠ .if_) (ip : ℕ) : b.elsePending ip = none := by
  simp [Block.elsePending, hb]

lemma Block.elsePending_of_skip (hb : b.skipWasmCodeElse = true) (ip : ℕ) :
    b.elsePending ip = none := by
  simp [Block.elsePending, hb]

lemma Block.elsePending_of_noElse (hb : b.wasmCodeElse = none) (ip : ℕ) :
    b.elsePending ip = none := by
  simp [Block.elsePending, hb]

lemma Block.elsePending_of_lt (hb : b.wasmCodeElse = some q) {ip : ℕ} (hlt : q < ip) :
    b.elsePending ip = none := by
  simp only [Block.elsePending, hb]
  split
  · split
    · rename_i _ r _ heq
      obtain rfl := Option.some.inj heq
      exact if_neg (not_le.mpr hlt)
    · rfl
  · rfl

lemma Block.elsePending_of_le (hb : b.wasmCodeElse = some q) (hif : b.labelType = .if_)
    (hskip : b.skipWasmCodeElse = false) (helse : b.llvmElseBlock = some e) {ip : ℕ} (hle : ip ≤ q) :
    b.elsePending ip = some (e, q) := by
  simp [Block.elsePending, hb, hif, hskip, helse, hle]

/-! ## End blocks -/

/-- The end block of a block whose end is reached. -/
def Block.reachedEnd (b : Block) : Multiset ℕ :=
  if b.isReachable then b.llvmEndBlock.elim 0 fun e => {e} else 0

/-- The end block of a block whose end nothing reaches. -/
def Block.quietEnd (b : Block) : Multiset ℕ :=
  if b.isReachable then 0 else b.llvmEndBlock.elim 0 fun e => {e}

def reachedEnds (bs : List Block) : Multiset ℕ := (bs.map Block.reachedEnd).sum

def quietEnds (bs : List Block) : Multiset ℕ := (bs.map Block.quietEnd).sum

@[simp] lemma reachedEnds_nil : reachedEnds [] = 0 := rfl

@[simp] lemma quietEnds_nil : quietEnds [] = 0 := rfl

@[simp] lemma reachedEnds_cons : reachedEnds (b :: bs) = b.reachedEnd + reachedEnds bs := rfl

@[simp] lemma quietEnds_cons : quietEnds (b :: bs) = b.quietEnd + quietEnds bs := rfl

lemma ends_set (hb : bs[d]? = some b) (b' : Block) :
    ∃ R Q, reachedEnds bs = b.reachedEnd + R ∧ quietEnds bs = b.quietEnd + Q ∧
      reachedEnds (bs.set d b') = b'.reachedEnd + R ∧
      quietEnds (bs.set d b') = b'.quietEnd + Q := by
  induction bs generalizing d with
  | nil => exact absurd hb (by simp)
  | cons c bs ih =>
    cases d with
    | zero =>
      obtain rfl := Option.some.inj hb
      exact ⟨_, _, rfl, rfl, rfl, rfl⟩
    | succ d =>
      obtain ⟨R, Q, hR, hQ, hR', hQ'⟩ := ih hb
      refine ⟨c.reachedEnd + R, c.quietEnd + Q, ?_, ?_, ?_, ?_⟩
      · rw [reachedEnds_cons, hR, add_left_comm]
      · rw [quietEnds_cons, hQ, add_left_comm]
      · rw [List.set_cons_succ, reachedEnds_cons, hR', add_left_comm]
      · rw [List.set_cons_succ, quietEnds_cons, hQ', add_left_comm]

/-! ## The invariant -/

/-- A block of the stack stands for a label of the validator. -/
structure Frame (g : Cfg) (b : Block) (l : Label) : Prop where
  isLoop : b.labelType = .loop ↔ l.isLoop = true
  params : b.params = l.params
  results : b.results = l.results
  entry : l.isLoop = true → ∃ e, b.llvmEntryBlock = some e ∧ g.HasPred e
  reachable : b.isReachable = true → b.llvmEndBlock.isSome

lemma Frame.mono (hf : Frame g b l) (hpreds : ∀ e, g.HasPred e → g'.HasPred e) : Frame g' b l where
  isLoop := hf.isLoop
  params := hf.params
  results := hf.results
  entry := by
    intro hl
    obtain ⟨e, he, hpred⟩ := hf.entry hl
    exact ⟨e, he, hpreds e hpred⟩
  reachable := hf.reachable

/-- The invariant: the block stack stands for the labels, and the open basic blocks are those in
`m` and the end blocks of the stack. -/
structure Inv (labels : List Label) (m : Multiset ℕ) (s : State) : Prop where
  frames : List.Forall₂ (Frame s.cfg) s.blocks labels
  pending : Pending s.cfg (m + reachedEnds s.blocks) (quietEnds s.blocks)
  exception : ∀ e, s.gotExceptionBlock = some e → s.cfg.terminators e = 1

lemma Inv.head (hinv : Inv (l :: labels) m s) (hblocks : s.blocks = b :: prev) :
    Frame s.cfg b l := by
  have hframes := hinv.frames
  rw [hblocks] at hframes
  cases hframes with
  | cons hf _ => exact hf

/-- The heights of the value stacks. -/
def State.heights (s : State) : List ℕ := s.blocks.map fun b => b.valueStack.length

/-- Part of an opcode: blocks of the stack get an end, and the walk stays where it is. -/
structure Evolves (ts : List ℕ) (s s' : State) : Prop where
  marks : Marks ts s.blocks s'.blocks
  ip : s'.ip = s.ip
  builder : s'.builder = s.builder
  elses : s'.elses = s.elses
  ends : ∀ e ∈ reachedEnds s.blocks, e ∈ reachedEnds s'.blocks
  preds : ∀ e, s.cfg.HasPred e → s'.cfg.HasPred e

namespace Evolves

lemma refl (s : State) : Evolves [] s s :=
  ⟨Marks.refl _, rfl, rfl, rfl, fun _ h => h, fun _ h => h⟩

lemma trans (h1 : Evolves ts s s₁) (h2 : Evolves us s₁ s') : Evolves (ts ++ us) s s' where
  marks := h1.marks.trans h2.marks
  ip := h2.ip.trans h1.ip
  builder := h2.builder.trans h1.builder
  elses := h2.elses.trans h1.elses
  ends := fun e he => h2.ends e (h1.ends e he)
  preds := fun e he => h2.preds e (h1.preds e he)

lemma of_blocks_eq (hblocks : s'.blocks = s.blocks) (hip : s'.ip = s.ip)
    (hbuilder : s'.builder = s.builder) (helses : s'.elses = s.elses)
    (hpreds : ∀ e, s.cfg.HasPred e → s'.cfg.HasPred e) : Evolves [] s s' where
  marks := by rw [hblocks]; exact Marks.refl _
  ip := hip
  builder := hbuilder
  elses := helses
  ends := by rw [hblocks]; exact fun _ h => h
  preds := hpreds

end Evolves

/-! ## Basic blocks -/

lemma Inv.create (hinv : Inv labels m s) : Inv labels (s.cfg.count ::ₘ m) s.create where
  frames := hinv.frames.imp fun _ _ hf => hf.mono fun _ hpred => hpred
  pending := by
    rw [cons_add]
    exact hinv.pending.create.wake
  exception := hinv.exception

lemma Inv.terminate (hinv : Inv labels (x ::ₘ m) s) (succs : List ℕ)
    (hsuccs : ∀ y ∈ succs, y ∈ m + reachedEnds s.blocks ∨ s.cfg.HasPred y ∨
      s.cfg.terminators y = 1) :
    Inv labels m { s with cfg := s.cfg.terminate x succs } where
  frames := hinv.frames.imp fun _ _ hf =>
    hf.mono fun _ hpred => Cfg.hasPred_terminate.mpr (Or.inl hpred)
  pending := by
    have hpending := hinv.pending
    rw [cons_add] at hpending
    exact hpending.terminate hsuccs
  exception := by
    intro e he
    have hpending := hinv.pending
    rw [cons_add] at hpending
    exact hpending.terminators_of_finished (hinv.exception e he)

lemma Inv.exceptionBlock (hinv : Inv labels m s) :
    Inv labels m s.exceptionBlock.1 ∧
      s.exceptionBlock.1.cfg.terminators s.exceptionBlock.2 = 1 := by
  unfold State.exceptionBlock
  split
  · rename_i e he
    exact ⟨hinv, hinv.exception e he⟩
  · have hnew := hinv.create.terminate [] (fun y hy => absurd hy List.not_mem_nil)
    have hone : (s.cfg.create.terminate s.cfg.count []).terminators s.cfg.count = 1 := by
      rw [Cfg.terminators_terminate_self, Cfg.terminators_create, hinv.pending.terminators_count]
    refine ⟨⟨hnew.frames, hnew.pending, ?_⟩, hone⟩
    intro e he
    obtain rfl := Option.some.inj he
    exact hone

lemma exceptionBlock_eq (s : State) :
    s.exceptionBlock.1.blocks = s.blocks ∧ s.exceptionBlock.1.ip = s.ip ∧
      s.exceptionBlock.1.builder = s.builder ∧ s.exceptionBlock.1.elses = s.elses := by
  unfold State.exceptionBlock
  split
  · exact ⟨rfl, rfl, rfl, rfl⟩
  · exact ⟨rfl, rfl, rfl, rfl⟩

lemma Inv.aotEmitException (hinv : Inv labels (s.builder ::ₘ m) s) :
    Inv labels m (s.aotEmitException none) := by
  obtain ⟨hexc, hone⟩ := hinv.exceptionBlock
  obtain ⟨-, -, hbuilder, -⟩ := exceptionBlock_eq s
  rw [← hbuilder] at hexc
  refine hexc.terminate _ ?_
  intro y hy
  obtain rfl := List.mem_singleton.mp hy
  exact Or.inr (Or.inr hone)

lemma aotEmitException_eq (s : State) (condBrElse : Option ℕ) :
    (s.aotEmitException condBrElse).blocks = s.blocks ∧
      (s.aotEmitException condBrElse).ip = s.ip ∧
      (s.aotEmitException condBrElse).elses = s.elses := by
  obtain ⟨hblocks, hip, -, helses⟩ := exceptionBlock_eq s
  cases condBrElse with
  | none => exact ⟨hblocks, hip, helses⟩
  | some b => exact ⟨hblocks, hip, helses⟩

lemma Inv.check (hinv : Inv labels (s.builder ::ₘ m) s) :
    Inv labels (s.cfg.count ::ₘ m) (s.create.aotEmitException (some s.cfg.count)) := by
  have hcreate : Inv labels (s.builder ::ₘ s.cfg.count ::ₘ m) s.create := by
    rw [cons_swap]
    exact hinv.create
  obtain ⟨hexc, hone⟩ := hcreate.exceptionBlock
  obtain ⟨-, -, hbuilder, -⟩ := exceptionBlock_eq s.create
  have hbuilder' : s.create.exceptionBlock.1.builder = s.builder := hbuilder
  rw [← hbuilder'] at hexc
  have hended := hexc.terminate [s.create.exceptionBlock.2, s.cfg.count] (by
    intro y hy
    simp only [List.mem_cons, List.not_mem_nil, or_false] at hy
    rcases hy with rfl | rfl
    · exact Or.inr (Or.inr hone)
    · exact Or.inl (by simp))
  exact ⟨hended.frames, hended.pending, hended.exception⟩

lemma emitChecks_spec (n : ℕ) : ∀ s : State, Inv labels (s.builder ::ₘ m) s →
    Inv labels ((s.emitChecks n).builder ::ₘ m) (s.emitChecks n) ∧
      (s.emitChecks n).blocks = s.blocks ∧ (s.emitChecks n).ip = s.ip ∧
      (s.emitChecks n).elses = s.elses := by
  induction n with
  | zero => exact fun s hinv => ⟨hinv, rfl, rfl, rfl⟩
  | succ n ih =>
    intro s hinv
    obtain ⟨hblocks, hip, helses⟩ := aotEmitException_eq s.create (some s.cfg.count)
    obtain ⟨hinv', hblocks', hip', helses'⟩ :=
      ih (s.create.aotEmitException (some s.cfg.count)) hinv.check
    exact ⟨hinv', hblocks'.trans hblocks, hip'.trans hip, helses'.trans helses⟩

/-! ## Value stacks -/

lemma Inv.restack (hinv : Inv labels m s) (hblocks : s.blocks = b :: prev) (v : List Value) :
    Inv labels m { s with blocks := { b with valueStack := v } :: prev } := by
  have hframes := hinv.frames
  have hpending := hinv.pending
  rw [hblocks] at hframes hpending
  cases hframes with
  | cons hf hrest =>
    exact ⟨.cons ⟨hf.isLoop, hf.params, hf.results, hf.entry, hf.reachable⟩ hrest, hpending,
      hinv.exception⟩

lemma evolves_restack (hblocks : s.blocks = b :: prev) (v : List Value) :
    Evolves [] s { s with blocks := { b with valueStack := v } :: prev } where
  marks := by
    rw [hblocks]
    exact Marks.of_stack b v prev
  ip := rfl
  builder := rfl
  elses := rfl
  ends := by
    rw [hblocks]
    exact fun _ he => he
  preds := fun _ he => he

lemma exists_of_heights (h' : s.heights = h :: hs) :
    ∃ b prev, s.blocks = b :: prev ∧ b.valueStack.length = h ∧
      prev.map (fun b => b.valueStack.length) = hs := by
  unfold State.heights at h'
  cases hblocks : s.blocks with
  | nil =>
    rw [hblocks] at h'
    exact absurd h' (by simp)
  | cons b prev =>
    rw [hblocks, List.map_cons, List.cons.injEq] at h'
    exact ⟨b, prev, rfl, h'.1, h'.2⟩

lemma pop_spec (hheights : s.heights = h :: hs) (hn : n ≤ h) (hinv : Inv labels m s) :
    ∃ s', s.pop n = some s' ∧ s'.heights = (h - n) :: hs ∧ Inv labels m s' ∧ Evolves [] s s' := by
  obtain ⟨b, prev, hblocks, hlen, hrest⟩ := exists_of_heights hheights
  refine ⟨_, ?_, ?_, hinv.restack hblocks (b.valueStack.drop n), evolves_restack hblocks _⟩
  · simp only [State.pop, hblocks, hlen, if_pos hn]
  · simp [State.heights, hlen, hrest]

lemma pop_builder_spec (hheights : s.heights = h :: hs) (hn : n ≤ h)
    (hinv : Inv labels (s.builder ::ₘ m) s) :
    ∃ s', s.pop n = some s' ∧ s'.heights = (h - n) :: hs ∧ Inv labels (s'.builder ::ₘ m) s' ∧
      Evolves [] s s' := by
  obtain ⟨s', hpop, hheights', hinv', hevolves⟩ := pop_spec hheights hn hinv
  rw [← hevolves.builder] at hinv'
  exact ⟨s', hpop, hheights', hinv', hevolves⟩

lemma push_spec (hheights : s.heights = h :: hs) (values : List Value) (hinv : Inv labels m s) :
    ∃ s', s.push values = some s' ∧ s'.heights = (h + values.length) :: hs ∧ Inv labels m s' ∧
      Evolves [] s s' := by
  obtain ⟨b, prev, hblocks, hlen, hrest⟩ := exists_of_heights hheights
  refine ⟨_, ?_, ?_, hinv.restack hblocks (values ++ b.valueStack), evolves_restack hblocks _⟩
  · simp only [State.push, hblocks]
  · simp [State.heights, hlen, hrest, Nat.add_comm]

/-! ## Ends of blocks -/

lemma Frame.of_labels {R : Block → Label → Prop} (hframes : List.Forall₂ R bs labels)
    (hl : labels[d]? = some l) : ∃ b, bs[d]? = some b ∧ R b l := by
  induction hframes generalizing d with
  | nil => exact absurd hl (by simp)
  | cons hb _ ih =>
    cases d with
    | zero =>
      obtain rfl := Option.some.inj hl
      exact ⟨_, rfl, hb⟩
    | succ d => exact ih hl

lemma Frame.set {R : Block → Label → Prop} (hframes : List.Forall₂ R bs labels)
    (hl : labels[d]? = some l) (hb' : R b' l) : List.Forall₂ R (bs.set d b') labels := by
  induction hframes generalizing d with
  | nil => exact .nil
  | cons hb hrest ih =>
    cases d with
    | zero =>
      obtain rfl := Option.some.inj hl
      exact .cons hb' hrest
    | succ d => exact .cons hb (ih hl)

@[simp] lemma Block.reachedEnd_atEnd : (b.atEnd e).reachedEnd = {e} := rfl

@[simp] lemma Block.quietEnd_atEnd : (b.atEnd e).quietEnd = 0 := rfl

lemma Frame.atEnd (hf : Frame g b l) (e : ℕ) : Frame g (b.atEnd e) l :=
  ⟨hf.isLoop, hf.params, hf.results, hf.entry, fun _ => rfl⟩

lemma reachEnd_eq (hb : s.blocks[d]? = some b) :
    reachEnd s d = some ({ (s.endBlock b).1 with
      blocks := s.blocks.set d (b.atEnd (s.endBlock b).2) }, (s.endBlock b).2) := by
  simp only [reachEnd, hb, bind_eq_bind, bind_some, pure_def]

/-- Its end block is open once the end of a block is reached, whether it was there before or
not. -/
lemma pending_endBlock {R Q : Multiset ℕ} (hreach : b.isReachable = true → b.llvmEndBlock.isSome)
    (hpending : Pending s.cfg (m + (b.reachedEnd + R)) (b.quietEnd + Q)) :
    Pending (s.endBlock b).1.cfg (m + ({(s.endBlock b).2} + R)) Q := by
  have hadd : ∀ e, m + ({e} + R) = e ::ₘ (m + R) := by
    intro e
    rw [singleton_add, Multiset.add_cons]
  unfold State.endBlock
  cases hend : b.llvmEndBlock with
  | none =>
    have hnot : b.isReachable = false := by
      by_contra hne
      have hsome := hreach (by simpa using hne)
      rw [hend] at hsome
      exact absurd hsome (by simp)
    simp only [Block.reachedEnd, Block.quietEnd, hnot, hend, Option.elim_none, if_false,
      Bool.false_eq_true, zero_add] at hpending
    rw [hadd]
    exact hpending.create.wake
  | some e =>
    cases hr : b.isReachable with
    | true =>
      simpa only [Block.reachedEnd, Block.quietEnd, hr, hend, Option.elim_some, if_true,
        zero_add] using hpending
    | false =>
      simp only [Block.reachedEnd, Block.quietEnd, hr, hend, Option.elim_some, if_false,
        Bool.false_eq_true, zero_add, singleton_add] at hpending
      rw [hadd]
      exact hpending.wake

lemma hasPred_endBlock (s : State) (b : Block) (hpred : s.cfg.HasPred x) :
    (s.endBlock b).1.cfg.HasPred x := by
  unfold State.endBlock
  split
  · exact hpred
  · exact hpred

lemma reachEnd_spec (hinv : Inv labels m s) (hl : labels[d]? = some l) (hb : s.blocks[d]? = some b)
    (hf : Frame s.cfg b l) :
    ∃ s' e, reachEnd s d = some (s', e) ∧ Inv labels m s' ∧ e ∈ reachedEnds s'.blocks ∧
      s'.blocks = s.blocks.set d (b.atEnd e) ∧ s'.ip = s.ip ∧ s'.builder = s.builder ∧
      s'.elses = s.elses ∧ (∀ x ∈ reachedEnds s.blocks, x ∈ reachedEnds s'.blocks) ∧
      ∀ x, s.cfg.HasPred x → s'.cfg.HasPred x := by
  obtain ⟨hip, hbuilder, helses, hexc, hterms⟩ := endBlock_eq s b
  obtain ⟨R, Q, hR, hQ, hR', hQ'⟩ := ends_set hb (b.atEnd (s.endBlock b).2)
  rw [Block.reachedEnd_atEnd] at hR'
  rw [Block.quietEnd_atEnd, zero_add] at hQ'
  have hpending := hinv.pending
  rw [hR, hQ] at hpending
  have hframes : List.Forall₂ (Frame (s.endBlock b).1.cfg)
      (s.blocks.set d (b.atEnd (s.endBlock b).2)) labels :=
    Frame.set (hinv.frames.imp fun _ _ hf => hf.mono fun _ => hasPred_endBlock s b) hl
      ((hf.atEnd _).mono fun _ => hasPred_endBlock s b)
  refine ⟨_, _, reachEnd_eq hb, ⟨hframes, ?_, ?_⟩, ?_, rfl, hip, hbuilder, helses, ?_,
    fun _ => hasPred_endBlock s b⟩
  · show Pending (s.endBlock b).1.cfg (m + reachedEnds _) (quietEnds _)
    rw [hR', hQ']
    exact pending_endBlock hf.reachable hpending
  · intro e he
    rw [hterms]
    exact hinv.exception e (hexc ▸ he)
  · rw [hR']
    simp
  · intro x hx
    rw [hR', singleton_add, Multiset.mem_cons]
    rw [hR, mem_add] at hx
    refine hx.imp ?_ id
    intro hx
    -- an end block that was open before is the one that is found
    unfold Block.reachedEnd at hx
    unfold State.endBlock
    split at hx
    · cases hend : b.llvmEndBlock with
      | none => simp [hend] at hx
      | some e => simpa [hend] using hx
    · simp at hx

/-! ## Branches -/

lemma heights_set (hb : bs[d]? = some b) (hlen : b'.valueStack.length = b.valueStack.length) :
    (bs.set d b').map (fun b => b.valueStack.length) = bs.map fun b => b.valueStack.length := by
  induction bs generalizing d with
  | nil => rfl
  | cons c bs ih =>
    cases d with
    | zero =>
      obtain rfl := Option.some.inj hb
      simp [hlen]
    | succ d =>
      rw [List.set_cons_succ, List.map_cons, List.map_cons, ih hb]

lemma branchTarget_spec (hinv : Inv labels m s) (hheights : s.heights = h :: hs)
    (hvalid : Body.BranchValid labels d h) :
    ∃ s' target arity, branchTarget s d = some (s', target, arity) ∧ arity ≤ h ∧
      s'.heights = h :: hs ∧ Inv labels m s' ∧ Evolves [d] s s' ∧
      (target ∈ reachedEnds s'.blocks ∨ s'.cfg.HasPred target) := by
  obtain ⟨l, hl, harity⟩ := hvalid
  have hl : labels[d]? = some l := hl
  obtain ⟨b, hb, hf⟩ := Frame.of_labels hinv.frames hl
  by_cases hloop : b.labelType = .loop
  · have hlab : l.isLoop = true := hf.isLoop.mp hloop
    obtain ⟨entry, hentry, hpred⟩ := hf.entry hlab
    have harity' : b.params ≤ h := by
      rw [hf.params]
      simpa [Label.arity, hlab] using harity
    refine ⟨s, entry, b.params, ?_, harity', hheights, hinv, ?_, Or.inr hpred⟩
    · simp [branchTarget, hb, hloop, hentry]
    · have hmark := Marks.of_set hb (Block.Marked.of_loop hloop)
      have hsame : s.blocks.set d b = s.blocks := by
        obtain ⟨hlt, rfl⟩ := List.getElem?_eq_some_iff.mp hb
        exact List.set_getElem_self hlt
      rw [hsame] at hmark
      exact ⟨hmark, rfl, rfl, rfl, fun _ he => he, fun _ he => he⟩
  · have hlab : l.isLoop = false := by
      cases hl' : l.isLoop with
      | false => rfl
      | true => exact absurd (hf.isLoop.mpr hl') hloop
    obtain ⟨s', e, hreach, hinv', hmem, hblocks, hip, hbuilder, helses, hends, hpreds⟩ :=
      reachEnd_spec hinv hl hb hf
    have harity' : b.results ≤ h := by
      rw [hf.results]
      simpa [Label.arity, hlab] using harity
    refine ⟨s', e, b.results, ?_, harity', ?_, hinv', ?_, Or.inl hmem⟩
    · simp [branchTarget, hb, hloop, hreach]
    · rw [← hheights, State.heights, hblocks]
      exact heights_set hb rfl
    · refine ⟨?_, hip, hbuilder, helses, hends, hpreds⟩
      rw [hblocks]
      exact Marks.of_set hb (Block.Marked.atEnd hloop e)

lemma switchTargets_spec {depths : List ℕ} :
    ∀ {s : State}, Inv labels m s → s.heights = h :: hs →
      (∀ d ∈ depths, Body.BranchValid labels d h) →
      ∃ s' targets, switchTargets depths s = some (s', targets) ∧ s'.heights = h :: hs ∧
        Inv labels m s' ∧ Evolves depths s s' ∧
        ∀ x ∈ targets, x ∈ reachedEnds s'.blocks ∨ s'.cfg.HasPred x := by
  induction depths with
  | nil =>
    intro s hinv hheights _
    exact ⟨s, [], rfl, hheights, hinv, Evolves.refl s, fun x hx => absurd hx List.not_mem_nil⟩
  | cons d depths ih =>
    intro s hinv hheights hvalid
    obtain ⟨s₁, target, arity, htarget, harity, hheights1, hinv1, hevolves, hopen⟩ :=
      branchTarget_spec hinv hheights (hvalid d (by simp))
    obtain ⟨s₂, hpop, -⟩ := pop_spec hheights1 harity hinv1
    obtain ⟨s', targets, hswitch, hheights', hinv', hevolves', hopens⟩ :=
      ih hinv1 hheights1 fun d hd => hvalid d (by simp [hd])
    refine ⟨s', target :: targets, ?_, hheights', hinv', hevolves.trans hevolves', ?_⟩
    · simp [switchTargets, htarget, hpop, hswitch]
    · intro x hx
      rcases List.mem_cons.mp hx with rfl | hx
      · exact hopen.imp (hevolves'.ends _) (hevolves'.preds _)
      · exact hopens x hx

lemma Inv.buildBr (hinv : Inv labels (s.builder ::ₘ m) s) (succs : List ℕ)
    (hsuccs : ∀ x ∈ succs, x ∈ m ∨ x ∈ reachedEnds s.blocks ∨ s.cfg.HasPred x) :
    Inv labels m (s.buildBr succs) := by
  refine hinv.terminate succs ?_
  intro x hx
  rcases hsuccs x hx with hm | hend | hpred
  · exact Or.inl (mem_add.mpr (Or.inl hm))
  · exact Or.inl (mem_add.mpr (Or.inr hend))
  · exact Or.inr (Or.inl hpred)

lemma evolves_buildBr (s : State) (succs : List ℕ) : Evolves [] s (s.buildBr succs) :=
  Evolves.of_blocks_eq rfl rfl rfl rfl fun _ hpred => Cfg.hasPred_terminate.mpr (Or.inl hpred)

lemma aotCompileOpBr_spec (hinv : Inv labels (s.builder ::ₘ m) s) (hheights : s.heights = h :: hs)
    (hvalid : Body.BranchValid labels d h) :
    ∃ s', aotCompileOpBr s d = handleNextReachableBlock s' ∧ s'.heights.tail = hs ∧
      Inv labels m s' ∧ Evolves [d] s s' := by
  obtain ⟨s₁, target, arity, htarget, harity, hheights1, hinv1, hevolves1, hopen⟩ :=
    branchTarget_spec hinv hheights hvalid
  obtain ⟨s₂, hpop, hheights2, hinv2, hevolves2⟩ := pop_spec hheights1 harity hinv1
  have hbuilder : s₂.builder = s.builder := hevolves2.builder.trans hevolves1.builder
  rw [← hbuilder] at hinv2
  have hinv3 := hinv2.buildBr [target] (by
    intro x hx
    obtain rfl := List.mem_singleton.mp hx
    exact Or.inr (hopen.imp (hevolves2.ends _) (hevolves2.preds _)))
  refine ⟨s₂.buildBr [target], ?_, ?_, hinv3, ?_⟩
  · simp [aotCompileOpBr, htarget, hpop]
  · show s₂.heights.tail = hs
    rw [hheights2, List.tail_cons]
  · exact (hevolves1.trans hevolves2).trans (evolves_buildBr s₂ _)

/-! ## Leaving a block -/

/-- The walk after the current block has been ended, where it looks for the next reachable block;
`inner` says that a block has been given up already. -/
def resume (inner : Bool) (s : State) : Option State :=
  if inner then popUnreachable s 0 s.blocks else handleNextReachableBlock s

lemma popUnreachable_blocks (bs : List Block) :
    ∀ (s : State) (stale : List Block) (frameIp : ℕ),
      popUnreachable { s with blocks := stale } frameIp bs = popUnreachable s frameIp bs := by
  induction bs with
  | nil => exact fun _ _ _ => rfl
  | cons b prev ih =>
    intro s stale frameIp
    have hdrop : ({ s with blocks := stale } : State).dropEnd b =
        { s.dropEnd b with blocks := stale } := by
      unfold State.dropEnd
      split <;> rfl
    simp only [popUnreachable, hdrop, ih]
    rfl

lemma resume_of_reachable {inner : Bool} (hblocks : s.blocks = b :: prev)
    (hreach : b.isReachable = true) (hpending : inner = true ∨ b.elsePending s.ip = none) :
    resume inner s = leaveBlock s b prev := by
  cases inner with
  | true => simp [resume, hblocks, popUnreachable, hreach]
  | false =>
    have hnone : b.elsePending s.ip = none := by simpa using hpending
    simp [resume, handleNextReachableBlock, hblocks, hnone, popUnreachable, hreach]

lemma resume_of_unreachable {inner : Bool} {c : Block} (hblocks : s.blocks = b :: c :: prev)
    (hreach : b.isReachable = false) (hpending : b.elsePending s.ip = none) :
    resume inner s = resume true { s.dropEnd b with blocks := c :: prev } := by
  have hpop : ∀ frameIp, popUnreachable s frameIp (b :: c :: prev) =
      popUnreachable { s.dropEnd b with blocks := c :: prev } 0 (c :: prev) := by
    intro frameIp
    rw [popUnreachable_blocks (c :: prev) (s.dropEnd b) (c :: prev) 0]
    conv_lhs => unfold popUnreachable
    simp only [hreach, hpending, Bool.false_eq_true, if_false]
    rfl
  cases inner with
  | true => simp only [resume, if_true, hblocks, hpop]
  | false =>
    simp only [resume, handleNextReachableBlock, hblocks, hpending, hpop, if_true, if_false,
      Bool.false_eq_true]

lemma leaveBlock_spec (hinv : Inv (l :: labels) m s) (hblocks : s.blocks = b :: prev)
    (hfun : b.labelType ≠ .function) (hreach : b.isReachable = true)
    (hheights : prev.map (fun b => b.valueStack.length) = h :: hs) :
    ∃ t, leaveBlock s b prev = some t ∧ t.ip = b.wasmCodeEnd + 1 ∧
      t.heights = (h + l.results) :: hs ∧ Inv labels (t.builder ::ₘ m) t ∧
      Marks [] prev t.blocks ∧ t.elses = s.elses := by
  have hframes := hinv.frames
  have hpending := hinv.pending
  rw [hblocks] at hframes hpending
  cases hframes with
  | cons hf hrest =>
    obtain ⟨e, he⟩ := Option.isSome_iff_exists.mp (hf.reachable hreach)
    have hleft : Inv labels (e ::ₘ m)
        { s with ip := b.wasmCodeEnd + 1, builder := e, blocks := prev } := by
      refine ⟨hrest, ?_, hinv.exception⟩
      simp only [reachedEnds_cons, quietEnds_cons, Block.reachedEnd, Block.quietEnd, hreach, he,
        if_true, Option.elim_some, zero_add, singleton_add, Multiset.add_cons] at hpending
      rw [cons_add]
      exact hpending
    have hheights' : State.heights
        { s with ip := b.wasmCodeEnd + 1, builder := e, blocks := prev } = h :: hs := hheights
    obtain ⟨t, hpush, htheights, htinv, htevolves⟩ :=
      push_spec hheights' (phis e b.results) hleft
    rw [length_phis, hf.results] at htheights
    refine ⟨t, ?_, htevolves.ip, htheights, ?_, htevolves.marks, htevolves.elses⟩
    · simp only [leaveBlock, he, bind_eq_bind, bind_some, if_neg hfun]
      exact hpush
    · rw [htevolves.builder]
      exact htinv

/-- Giving up a block whose end nothing reaches. -/
lemma giveUp_spec (hinv : Inv (l :: labels) m s) (hblocks : s.blocks = b :: prev)
    (hreach : b.isReachable = false) : Inv labels m { s.dropEnd b with blocks := prev } := by
  have hframes := hinv.frames
  have hpending := hinv.pending
  rw [hblocks] at hframes hpending
  have hcfg : (s.dropEnd b).cfg = s.cfg ∧
      (s.dropEnd b).gotExceptionBlock = s.gotExceptionBlock := by
    unfold State.dropEnd
    split
    · rename_i e _ he
      refine ⟨Cfg.delete_of_terminators_eq_zero (hpending.bare e ?_), rfl⟩
      simp [quietEnds_cons, Block.quietEnd, hreach, he]
    · exact ⟨rfl, rfl⟩
  cases hframes with
  | cons hf hrest =>
    refine ⟨?_, ?_, ?_⟩
    · show List.Forall₂ (Frame (s.dropEnd b).cfg) prev labels
      rw [hcfg.1]
      exact hrest
    · show Pending (s.dropEnd b).cfg (m + reachedEnds prev) (quietEnds prev)
      rw [hcfg.1]
      have hzero : b.reachedEnd = 0 := by simp [Block.reachedEnd, hreach]
      rw [reachedEnds_cons, hzero, zero_add, quietEnds_cons, Block.quietEnd, hreach] at hpending
      cases hend : b.llvmEndBlock with
      | none =>
        rw [hend] at hpending
        simpa using hpending
      | some e =>
        rw [hend] at hpending
        simp only [Bool.false_eq_true, if_false, Option.elim_some,
          singleton_add] at hpending
        exact hpending.drop
    · intro e he
      rw [show ({ s.dropEnd b with blocks := prev } : State).cfg = s.cfg from hcfg.1]
      exact hinv.exception e (hcfg.2 ▸ he)

/-! ## Entering a block -/

/-- The walk is at the start of an arm of a block: the block is the innermost one, the state before
it is the rest of the stack, and `ts` are the labels branched to inside of the block so far. -/
structure Inside (labels : List Label) (l : Label) (m : Multiset ℕ) (ts : List ℕ) (h : ℕ)
    (hs : List ℕ) (s s₁ : State) (b : Block) (prev : List Block) : Prop where
  blocks : s₁.blocks = b :: prev
  marks : Marks (outerDepths ts) s.blocks prev
  inner : b.valueStack.length = l.params
  outer : prev.map (fun b => b.valueStack.length) = h :: hs
  elses : ∀ e ∈ s₁.elses, e ∈ s.elses ∨ e.WithParams
  inv : Inv (l :: labels) (s₁.builder ::ₘ m) s₁
  notFunction : b.labelType ≠ .function

lemma Inside.heights {ts : List ℕ} (hin : Inside labels l m ts h hs s s₁ b prev) :
    s₁.heights = l.params :: h :: hs := by
  rw [State.heights, hin.blocks, List.map_cons, hin.inner, hin.outer]

/-- A block stack whose innermost value stack may have changed. -/
def Restacked (bs bs' : List Block) : Prop :=
  bs' = bs ∨ ∃ b rest v, bs = b :: rest ∧ bs' = { b with valueStack := v } :: rest

namespace Restacked

lemma marks (hre : Restacked bs bs') : Marks [] bs bs' := by
  rcases hre with rfl | ⟨b, rest, v, rfl, rfl⟩
  · exact Marks.refl _
  · exact Marks.of_stack b v rest

lemma frames (hre : Restacked bs bs') (hframes : List.Forall₂ (Frame g) bs labels) :
    List.Forall₂ (Frame g) bs' labels := by
  rcases hre with rfl | ⟨b, rest, v, rfl, rfl⟩
  · exact hframes
  · cases hframes with
    | cons hf hrest =>
      exact .cons ⟨hf.isLoop, hf.params, hf.results, hf.entry, hf.reachable⟩ hrest

lemma ends_eq (hre : Restacked bs bs') :
    reachedEnds bs' = reachedEnds bs ∧ quietEnds bs' = quietEnds bs := by
  rcases hre with rfl | ⟨b, rest, v, rfl, rfl⟩
  · exact ⟨rfl, rfl⟩
  · exact ⟨rfl, rfl⟩

end Restacked

lemma pushBlock_spec (hheights : s.heights = h :: hs) (hparams : b.params ≤ h)
    (hentry : b.params = 0 ∨ b.llvmEntryBlock.isSome) (hstack : b.valueStack = []) :
    ∃ v prev, pushBlockAndPassParams s b =
        some { s with blocks := { b with valueStack := v } :: prev } ∧ v.length = b.params ∧
      prev.map (fun b => b.valueStack.length) = (h - b.params) :: hs ∧
      Restacked s.blocks prev := by
  obtain ⟨c, rest, hblocks, hlen, hrest⟩ := exists_of_heights hheights
  by_cases hzero : b.params = 0
  · refine ⟨[], s.blocks, ?_, by rw [hzero]; rfl, ?_, Or.inl rfl⟩
    · rw [pushBlockAndPassParams, if_pos hzero, ← hstack]
    · rw [hzero, Nat.sub_zero]
      exact hheights
  · obtain ⟨e, he⟩ := Option.isSome_iff_exists.mp (hentry.resolve_left hzero)
    refine ⟨phis e b.params, { c with valueStack := c.valueStack.drop b.params } :: rest, ?_,
      length_phis _ _, ?_, Or.inr ⟨c, rest, _, hblocks, rfl⟩⟩
    · have hpop : s.pop b.params =
          some { s with blocks := { c with valueStack := c.valueStack.drop b.params } :: rest } := by
        simp only [State.pop, hblocks, hlen, if_pos hparams]
      simp only [pushBlockAndPassParams, if_neg hzero, he, hpop, bind_eq_bind,
        bind_some, pure_def]
    · simp [hlen, hrest]

lemma Inside.before {ts : List ℕ} (hin : Inside labels l m ts h hs t s₁ b prev)
    (hmarks : Marks [] s.blocks t.blocks) (helses : t.elses = s.elses) :
    Inside labels l m ts h hs s s₁ b prev :=
  ⟨hin.blocks, hmarks.trans hin.marks, hin.inner, hin.outer, fun e he => helses ▸ hin.elses e he,
    hin.inv, hin.notFunction⟩

lemma Inside.of_advance {ts : List ℕ} {width : ℕ}
    (hin : Inside labels l m ts h hs (s.advance width) s₁ b prev) :
    Inside labels l m ts h hs s s₁ b prev := hin.before (Marks.refl _) rfl

section Open

variable (hheights : t.heights = h :: hs) (hparams : b.params ≤ h)
  (hentry : b.params = 0 ∨ b.llvmEntryBlock.isSome) (hstack : b.valueStack = [])
  (hfun : b.labelType ≠ .function) (hf : Frame t.cfg b l)
include hheights hparams hentry hstack hfun hf

/-- A block is put on the stack, and the translation goes on in a basic block `x` of its own. -/
lemma openBlock_spec (hframes : List.Forall₂ (Frame t.cfg) t.blocks labels)
    (hpending : Pending t.cfg (x ::ₘ m + (b.reachedEnd + reachedEnds t.blocks))
      (b.quietEnd + quietEnds t.blocks))
    (hexc : ∀ e, t.gotExceptionBlock = some e → t.cfg.terminators e = 1) :
    ∃ v prev, pushBlockAndPassParams t b =
        some { t with blocks := { b with valueStack := v } :: prev } ∧
      Inside labels l m [] (h - l.params) hs t
        (State.setBuilderPos { t with blocks := { b with valueStack := v } :: prev } x)
        { b with valueStack := v } prev := by
  obtain ⟨v, prev, hpush, hv, hprev, hre⟩ := pushBlock_spec hheights hparams hentry hstack
  obtain ⟨hreached, hquiet⟩ := hre.ends_eq
  rw [hf.params] at hv hprev
  rw [← hreached, ← hquiet] at hpending
  have hf' : Frame t.cfg { b with valueStack := v } l :=
    ⟨hf.isLoop, hf.params, hf.results, hf.entry, hf.reachable⟩
  exact ⟨v, prev, hpush, rfl, hre.marks, hv, hprev, fun e he => Or.inl he,
    ⟨.cons hf' (hre.frames hframes), hpending, hexc⟩, hfun⟩

lemma openBlock_of_inv (hinv : Inv labels (x ::ₘ (b.reachedEnd + m)) t) (hquiet : b.quietEnd = 0) :
    ∃ v prev, pushBlockAndPassParams t b =
        some { t with blocks := { b with valueStack := v } :: prev } ∧
      Inside labels l m [] (h - l.params) hs t
        (State.setBuilderPos { t with blocks := { b with valueStack := v } :: prev } x)
        { b with valueStack := v } prev := by
  refine openBlock_spec hheights hparams hentry hstack hfun hf hinv.frames ?_ hinv.exception
  have hpending := hinv.pending
  rw [add_comm b.reachedEnd, ← cons_add, add_assoc] at hpending
  rwa [hquiet, zero_add]

end Open

/-- The current basic block jumps to a new one. -/
lemma Inv.jump (hinv : Inv labels (s.builder ::ₘ m) s) :
    Inv labels (s.cfg.count ::ₘ m) (s.create.buildBr [s.cfg.count]) := by
  have hcreate : Inv labels (s.create.builder ::ₘ s.cfg.count ::ₘ m) s.create := by
    rw [cons_swap]
    exact hinv.create
  refine hcreate.buildBr _ ?_
  intro x hx
  obtain rfl := List.mem_singleton.mp hx
  exact Or.inl (by simp)

lemma ends_eq_zero (hend : b.llvmEndBlock = none) : b.reachedEnd = 0 ∧ b.quietEnd = 0 := by
  simp [Block.reachedEnd, Block.quietEnd, hend]

lemma enterBlock_spec (hinv : Inv labels (s.builder ::ₘ m) s) (hheights : s.heights = h :: hs)
    (hparams : b.params ≤ h) (hstack : b.valueStack = []) (hend : b.llvmEndBlock = none)
    (hreach : b.isReachable = false) (hfun : b.labelType ≠ .function)
    (hloop : b.labelType = .loop ↔ l.isLoop = true) (hlp : b.params = l.params)
    (hlr : b.results = l.results) :
    ∃ s₁ v prev, enterBlock s b = some s₁ ∧ s₁.ip = s.ip ∧
      Inside labels l m [] (h - l.params) hs s s₁
        { b with llvmEntryBlock := some s.cfg.count, valueStack := v } prev := by
  let b' : Block := { b with llvmEntryBlock := some s.cfg.count }
  obtain ⟨hreached, hquiet⟩ := ends_eq_zero (b := b') hend
  have hframe : Frame (s.cfg.create.terminate s.builder [s.cfg.count]) b' l :=
    ⟨hloop, hlp, hlr, fun _ => ⟨s.cfg.count, rfl, by simp⟩, by simp [b', hreach]⟩
  obtain ⟨v, prev, hpush, hin⟩ := openBlock_of_inv (t := s.create.buildBr [s.cfg.count]) (b := b')
    hheights hparams (Or.inr rfl) hstack hfun hframe (by rw [hreached, zero_add]; exact hinv.jump)
    hquiet
  have hin' := hin.before (s := s) (Marks.refl _) rfl
  refine ⟨_, v, prev, ?_, ?_, hin'⟩
  · simp only [enterBlock, hpush, b', bind_eq_bind, bind_some, pure_def]
  · rfl

lemma aotCompileOpBlock_spec (isLoop : Bool) {params : ℕ} (results : ℕ)
    (hfind : findBlockAddr false code s.ip = some (none, r))
    (hinv : Inv labels (s.builder ::ₘ m) s) (hheights : s.heights = h :: hs) (hparams : params ≤ h) :
    ∃ s₁ b prev, aotCompileOpBlock code s (if isLoop then .loop else .block) params results =
        some s₁ ∧ s₁.ip = s.ip ∧
      Inside labels ⟨isLoop, params, results⟩ m [] (h - params) hs s s₁ b prev ∧
      b.labelType ≠ .if_ ∧ b.wasmCodeEnd = r ∧ b.isReachable = false := by
  let label : LabelType := if isLoop then .loop else .block
  have hlabel : label ≠ .function ∧ label ≠ .if_ ∧ (label = .loop ↔ isLoop = true) := by
    cases isLoop <;> simp [label]
  obtain ⟨s₁, v, prev, henter, hip, hin⟩ := enterBlock_spec
    (l := ⟨isLoop, params, results⟩) (b := newBlock label params results none r)
    hinv hheights hparams rfl rfl rfl hlabel.1 hlabel.2.2 rfl rfl
  refine ⟨s₁, _, prev, ?_, hip, hin, hlabel.2.1, rfl, rfl⟩
  simp only [aotCompileOpBlock, hfind, bind_eq_bind, bind_some]
  exact henter

/-! ## Entering an `if` -/

section If

variable {params : ℕ} (results : ℕ)

section Condition

variable (hinv : Inv labels (s.builder ::ₘ m) s) (hheights : s.heights = h :: hs) (hone : 1 ≤ h)
include hinv hheights hone

lemma aotCompileOpIf_else (hfind : findBlockAddr true code s.ip = some (some q, r))
    (hparams : params ≤ h - 1) :
    ∃ s₁ b prev e, aotCompileOpIf code s none params results = some s₁ ∧ s₁.ip = s.ip ∧
      Inside labels ⟨false, params, results⟩ (e ::ₘ m) [] (h - 1 - params) hs s s₁ b prev ∧
      b.labelType = .if_ ∧ b.wasmCodeElse = some q ∧ b.wasmCodeEnd = r ∧
      b.llvmElseBlock = some e ∧ b.skipWasmCodeElse = false ∧ b.isReachable = false := by
  obtain ⟨s₀, hpop, hheights0, hinv0, hevolves⟩ := pop_builder_spec hheights hone hinv
  let b : Block := { newBlock .if_ params results (some q) r with
    llvmEntryBlock := some s₀.cfg.count
    llvmEndBlock := some (s₀.cfg.count + 1)
    llvmElseBlock := some (s₀.cfg.count + 2) }
  let t := s₀.create.create.create.buildBr [s₀.cfg.count, s₀.cfg.count + 2]
  -- the end block stays quiet, the other two blocks have the current one as their predecessor
  have hpending : Pending t.cfg
      (s₀.cfg.count ::ₘ (s₀.cfg.count + 2) ::ₘ m + reachedEnds s₀.blocks)
      ((s₀.cfg.count + 1) ::ₘ quietEnds s₀.blocks) := by
    have hcreated := hinv0.pending.create.wake.create.create.wake
    have hswap : (s₀.cfg.count + 2) ::ₘ s₀.cfg.count ::ₘ
        (s₀.builder ::ₘ m + reachedEnds s₀.blocks) =
        s₀.builder ::ₘ (s₀.cfg.count ::ₘ (s₀.cfg.count + 2) ::ₘ m + reachedEnds s₀.blocks) := by
      simp only [cons_add]
      rw [cons_swap (s₀.cfg.count + 2), cons_swap _ s₀.builder,
        cons_swap _ s₀.builder]
    have hopen : Pending s₀.cfg.create.create.create _ _ := hcreated
    rw [Cfg.count_create, Cfg.count_create, hswap] at hopen
    refine hopen.terminate ?_
    intro x hx
    simp only [List.mem_cons, List.not_mem_nil, or_false] at hx
    rcases hx with rfl | rfl <;> exact Or.inl (by simp)
  have hframe : Frame t.cfg b ⟨false, params, results⟩ :=
    ⟨by simp [b, newBlock], rfl, rfl, fun hl => absurd hl (by simp), fun _ => rfl⟩
  have hexc : ∀ e, t.gotExceptionBlock = some e → t.cfg.terminators e = 1 := by
    intro e he
    have hone : s₀.cfg.create.create.create.terminators e = 1 := hinv0.exception e he
    have hbuilder : e ≠ s₀.builder := by
      rintro rfl
      have hzero := hinv0.pending.eq_zero_of_mem (b := s₀.builder) (by simp)
      exact absurd (hone.symm.trans hzero) one_ne_zero
    exact (Cfg.terminators_terminate_of_ne hbuilder).trans hone
  obtain ⟨v, prev, hpush, hin⟩ := openBlock_spec (t := t) (b := b) (l := ⟨false, params, results⟩)
    hheights0 hparams (Or.inr rfl) rfl (by simp [b, newBlock]) hframe
    (hinv0.frames.imp fun _ _ hf => hf.mono fun _ hpred => Cfg.hasPred_terminate.mpr (Or.inl hpred))
    (m := (s₀.cfg.count + 2) ::ₘ m) (x := s₀.cfg.count)
    (by
      show Pending t.cfg (_ + (0 + _)) ({s₀.cfg.count + 1} + _)
      rwa [zero_add, singleton_add])
    hexc
  refine ⟨_, _, prev, s₀.cfg.count + 2, ?_, ?_, hin.before hevolves.marks hevolves.elses, rfl, rfl,
    rfl, rfl, rfl, rfl⟩
  · simp only [aotCompileOpIf, hfind, hpop, bind_eq_bind, bind_some]
    exact congrArg (Option.bind · _) hpush
  · exact hevolves.ip

lemma aotCompileOpIf_noElse (hfind : findBlockAddr true code s.ip = some (none, r))
    (hparams : params ≤ h - 1) :
    ∃ s₁ b prev, aotCompileOpIf code s none params results = some s₁ ∧ s₁.ip = s.ip ∧
      Inside labels ⟨false, params, results⟩ m [] (h - 1 - params) hs s s₁ b prev ∧
      b.wasmCodeElse = none ∧ b.wasmCodeEnd = r ∧ b.isReachable = true := by
  obtain ⟨s₀, hpop, hheights0, hinv0, hevolves⟩ := pop_builder_spec hheights hone hinv
  let b : Block := { newBlock .if_ params results none r with
    llvmEntryBlock := some s₀.cfg.count
    llvmEndBlock := some (s₀.cfg.count + 1)
    isReachable := true }
  let t := s₀.create.create.buildBr [s₀.cfg.count, s₀.cfg.count + 1]
  have hended : Inv labels (s₀.cfg.count ::ₘ (s₀.cfg.count + 1) ::ₘ m) t := by
    have hcreated : Inv labels
        (s₀.create.create.builder ::ₘ s₀.cfg.count ::ₘ (s₀.cfg.count + 1) ::ₘ m)
        s₀.create.create := by
      rw [cons_swap s₀.cfg.count, cons_swap s₀.create.create.builder,
        cons_swap s₀.create.create.builder]
      exact hinv0.create.create
    refine hcreated.buildBr _ ?_
    intro x hx
    simp only [List.mem_cons, List.not_mem_nil, or_false] at hx
    rcases hx with rfl | rfl <;> exact Or.inl (by simp)
  have hframe : Frame t.cfg b ⟨false, params, results⟩ :=
    ⟨by simp [b, newBlock], rfl, rfl, fun hl => absurd hl (by simp), fun _ => rfl⟩
  obtain ⟨v, prev, hpush, hin⟩ := openBlock_of_inv (t := t) (b := b)
    (l := ⟨false, params, results⟩) hheights0 hparams (Or.inr rfl) rfl (by simp [b, newBlock]) hframe
    (show Inv labels (s₀.cfg.count ::ₘ ({s₀.cfg.count + 1} + m)) t from
      (singleton_add _ m).symm ▸ hended) rfl
  refine ⟨_, _, prev, ?_, ?_, hin.before hevolves.marks hevolves.elses, rfl, rfl, rfl⟩
  · simp only [aotCompileOpIf, hfind, hpop, bind_eq_bind, bind_some]
    exact congrArg (Option.bind · _) hpush
  · exact hevolves.ip

lemma aotCompileOpIf_true {elseAddr : Option ℕ}
    (hfind : findBlockAddr true code s.ip = some (elseAddr, r)) (hparams : params ≤ h - 1) :
    ∃ s₁ b prev, aotCompileOpIf code s (some true) params results = some s₁ ∧ s₁.ip = s.ip ∧
      Inside labels ⟨false, params, results⟩ m [] (h - 1 - params) hs s s₁ b prev ∧
      b.labelType = .if_ ∧ b.skipWasmCodeElse = true ∧ b.wasmCodeEnd = r ∧
      b.isReachable = false := by
  obtain ⟨s₀, hpop, hheights0, hinv0, hevolves⟩ := pop_builder_spec hheights hone hinv
  let b : Block := { newBlock .if_ params results elseAddr r with skipWasmCodeElse := true }
  obtain ⟨s₁, v, prev, henter, hip, hin⟩ := enterBlock_spec (l := ⟨false, params, results⟩) (b := b)
    hinv0 hheights0 hparams rfl rfl rfl (by simp [b, newBlock]) (by simp [b, newBlock]) rfl rfl
  have hif : aotCompileOpIf code s (some true) params results = some s₁ := by
    simp only [aotCompileOpIf, hfind, hpop, bind_eq_bind, bind_some]
    exact henter
  exact ⟨s₁, _, prev, hif, hip.trans hevolves.ip, hin.before hevolves.marks hevolves.elses, rfl, rfl,
    rfl, rfl⟩

lemma aotCompileOpIf_false (hfind : findBlockAddr true code s.ip = some (some q, r)) :
    ∃ s₁ b prev, aotCompileOpIf code s (some false) 0 results = some s₁ ∧ s₁.ip = q + 1 ∧
      Inside labels ⟨false, 0, results⟩ m [] (h - 1) hs s s₁ b prev ∧
      b.wasmCodeElse = some q ∧ b.wasmCodeEnd = r ∧ b.isReachable = false := by
  obtain ⟨s₀, hpop, hheights0, hinv0, hevolves⟩ := pop_builder_spec hheights hone hinv
  let b : Block := { newBlock .if_ 0 results (some q) r with llvmElseBlock := some s₀.cfg.count }
  have hframe : Frame (s₀.cfg.create.terminate s₀.builder [s₀.cfg.count]) b ⟨false, 0, results⟩ :=
    ⟨by simp [b, newBlock], rfl, rfl, fun hl => absurd hl (by simp), by simp [b, newBlock]⟩
  obtain ⟨hreached, hquiet⟩ := ends_eq_zero (b := b) rfl
  obtain ⟨v, prev, hpush, hin⟩ := openBlock_of_inv (t := s₀.create.buildBr [s₀.cfg.count]) (b := b)
    hheights0 (Nat.zero_le _) (Or.inl rfl) rfl (by simp [b, newBlock]) hframe
    (by rw [hreached, zero_add]; exact hinv0.jump) hquiet
  obtain rfl : v = [] := List.eq_nil_of_length_eq_zero hin.inner
  have hif : aotCompileOpIf code s (some false) 0 results = some
      { s₀.create.buildBr [s₀.cfg.count] with
        blocks := { b with valueStack := [] } :: prev
        builder := s₀.cfg.count
        ip := q + 1
        elses := s₀.elses ++ [⟨s₀.cfg.count, 0, []⟩] } := by
    simp only [aotCompileOpIf, hfind, hpop, bind_eq_bind, bind_some]
    exact congrArg (Option.bind · _) hpush
  refine ⟨_, { b with valueStack := [] }, prev, hif, rfl,
    ⟨rfl, hevolves.marks.trans hin.marks, rfl, hin.outer, ?_,
      ⟨hin.inv.frames, hin.inv.pending, hin.inv.exception⟩, hin.notFunction⟩, rfl, rfl, rfl⟩
  intro e he
  rcases List.mem_append.mp he with he | he
  · exact Or.inl (hevolves.elses ▸ he)
  · obtain rfl := List.mem_singleton.mp he
    exact Or.inr rfl

end Condition

lemma aotCompileOpIf_false_eq_none (hfind : findBlockAddr true code s.ip = some (some q, r))
    (hparams : params ≠ 0) : aotCompileOpIf code s (some false) params results = none := by
  simp only [aotCompileOpIf, hfind, bind_eq_bind, bind_some]
  cases s.pop 1 with
  | none => rfl
  | some s₀ =>
    have hnull : ∀ c : Block, c.params ≠ 0 → c.llvmEntryBlock = none →
        pushBlockAndPassParams (s₀.create.buildBr [s₀.cfg.count]) c = none := by
      intro c hc hentry
      simp [pushBlockAndPassParams, hc, hentry]
    exact congrArg (Option.bind · _) (hnull _ hparams rfl)

lemma aotCompileOpIf_skip (params : ℕ) (hfind : findBlockAddr true code s.ip = some (none, r))
    (hinv : Inv labels m s) (hheights : s.heights = h :: hs) (hone : 1 ≤ h) :
    ∃ s₁, aotCompileOpIf code s (some false) params results = some s₁ ∧ s₁.ip = r + 1 ∧
      s₁.heights = (h - 1) :: hs ∧ Inv labels m s₁ ∧ s₁.builder = s.builder ∧
      Marks [] s.blocks s₁.blocks ∧ s₁.elses = s.elses := by
  obtain ⟨s₀, hpop, hheights0, hinv0, hevolves⟩ := pop_spec hheights hone hinv
  refine ⟨{ s₀ with ip := r + 1 }, ?_, rfl, hheights0,
    ⟨hinv0.frames, hinv0.pending, hinv0.exception⟩, hevolves.builder, hevolves.marks,
    hevolves.elses⟩
  simp only [aotCompileOpIf, hfind, hpop, bind_eq_bind, bind_some, pure_def]

end If

end Watz.Aot.Walk
