import Watz.Aot.Compiler
import Watz.Aot.Walk

/-!
# Structured bodies and what they reach

The opcodes of a valid function are those of a tree of nested blocks.  This file has the trees, the
opcodes they are written as, what the validator asks of them, and, independently of the compiler,
which opcodes control flow can reach: code falls through from one instruction to the next, a branch
leads to the end of a block or the start of a loop, and a condition that is a constant takes one way
only.
-/

namespace Watz.Aot.Walk

/-- The instructions of a block, each with the bytes of its immediates and with those behind it. -/
inductive Body where
  /-- The end of the block. -/
  | done
  | plain (opcode : UInt8) (imm : List CodeByte) (pops pushes checks : ℕ) (traps : Bool)
      (next : Body)
  /-- A `block` or a `loop`. -/
  | block (imm : List CodeByte) (isLoop : Bool) (params results : ℕ) (body next : Body)
  | ifThen (imm : List CodeByte) (const : Option Bool) (params results : ℕ) (thn next : Body)
  | ifElse (imm : List CodeByte) (const : Option Bool) (params results : ℕ) (thn els next : Body)
  | br (imm : List CodeByte) (depth : ℕ) (next : Body)
  | brIf (imm : List CodeByte) (const : Option Bool) (depth : ℕ) (next : Body)
  | brTable (imm : List CodeByte) (const : Option ℕ) (depths : List ℕ) (default : ℕ) (next : Body)
  | ret (next : Body)
  | unreachable (next : Body)
deriving DecidableEq

/-- The bytes of an instruction. -/
def instr (opcode : UInt8) (op : Op) (imm : List CodeByte) : List CodeByte :=
  ⟨opcode, op, imm.length + 1⟩ :: imm

@[simp] lemma outerDepths_append {ts us : List ℕ} :
    outerDepths (ts ++ us) = outerDepths ts ++ outerDepths us := by
  simp [outerDepths]

namespace Body

/-- The bytes of the instructions, without the `end` or `else` behind them. -/
def bytes : Body → List CodeByte
  | done => []
  | plain opcode imm pops pushes checks traps next =>
    instr opcode (.plain pops pushes checks traps) imm ++ next.bytes
  | block imm isLoop params results body next =>
    instr (if isLoop then 0x03 else 0x02)
      (if isLoop then .loop params results else .block params results) imm ++
      (body.bytes ++ (instr 0x0b .end_ [] ++ next.bytes))
  | ifThen imm const params results thn next =>
    instr 0x04 (.if_ const params results) imm ++
      (thn.bytes ++ (instr 0x0b .end_ [] ++ next.bytes))
  | ifElse imm const params results thn els next =>
    instr 0x04 (.if_ const params results) imm ++
      (thn.bytes ++ (instr 0x05 .else_ [] ++
        (els.bytes ++ (instr 0x0b .end_ [] ++ next.bytes))))
  | br imm depth next => instr 0x0c (.br depth) imm ++ next.bytes
  | brIf imm const depth next => instr 0x0d (.brIf const depth) imm ++ next.bytes
  | brTable imm const depths default next =>
    instr 0x0e (.brTable const depths default) imm ++ next.bytes
  | ret next => instr 0x0f .ret [] ++ next.bytes
  | unreachable next => instr 0x00 .unreachable [] ++ next.bytes

/-- How many bytes there are. -/
def size (c : Body) : ℕ := c.bytes.length

/-! ## Validity -/

/-- A branch finds its label and the values it takes along. -/
def BranchValid (labels : List Label) (depth height : ℕ) : Prop :=
  ∃ l ∈ labels[depth]?, l.arity ≤ height

instance (labels : List Label) (depth height : ℕ) : Decidable (BranchValid labels depth height) :=
  inferInstanceAs (Decidable (∃ l ∈ labels[depth]?, l.arity ≤ height))

/-- What the validator asks of instructions, for the labels around them, the height of the stack of
their block before the first and the height asked for at the end.  An `if` without `else` has as
many results as parameters.  Code behind an unconditional branch is validated with a stack of any
height; nothing is asked of it here. -/
def Valid (labels : List Label) : ℕ → ℕ → Body → Prop
  | height, results, done => height = results
  | height, results, plain _ _ pops pushes _ _ next =>
    pops ≤ height ∧ next.Valid labels (height - pops + pushes) results
  | height, results, block _ isLoop params res body next =>
    params ≤ height ∧ body.Valid (⟨isLoop, params, res⟩ :: labels) params res ∧
      next.Valid labels (height - params + res) results
  | height, results, ifThen _ _ params res thn next =>
    1 ≤ height ∧ params ≤ height - 1 ∧ params = res ∧
      thn.Valid (⟨false, params, res⟩ :: labels) params res ∧
      next.Valid labels (height - 1 - params + res) results
  | height, results, ifElse _ _ params res thn els next =>
    1 ≤ height ∧ params ≤ height - 1 ∧ thn.Valid (⟨false, params, res⟩ :: labels) params res ∧
      els.Valid (⟨false, params, res⟩ :: labels) params res ∧
      next.Valid labels (height - 1 - params + res) results
  | height, _, br _ depth _ => BranchValid labels depth height
  | height, results, brIf _ _ depth next =>
    1 ≤ height ∧ BranchValid labels depth (height - 1) ∧ next.Valid labels (height - 1) results
  | height, _, brTable _ _ depths default _ =>
    1 ≤ height ∧ ∀ depth ∈ depths ++ [default], BranchValid labels depth (height - 1)
  | height, _, ret _ => ∃ l ∈ labels.getLast?, l.results ≤ height
  | _, _, unreachable _ => True

/-! ## What control flow reaches -/

/-- How instructions end: control falls off the last one, or it never gets there.  In the second
case it matters to the compiler whether it stops at an instruction of the block itself or inside of
an inner block whose end nothing reaches. -/
inductive Ending where
  | falls
  | stops (inner : Bool)
deriving DecidableEq, Repr

/-- The depths of the labels that are branched to, and the ending. -/
structure Flow where
  targets : List ℕ
  ending : Ending
deriving DecidableEq, Repr

/-- Instructions behind others that branch to some labels and fall through. -/
def Flow.before (targets : List ℕ) (f : Flow) : Flow := ⟨targets ++ f.targets, f.ending⟩

/-- Instructions behind a block, which branches to some labels; they matter only if the end of the
block is reached. -/
def Flow.after (reached : Bool) (targets : List ℕ) (f : Flow) : Flow :=
  if reached then f.before targets else ⟨targets, .stops true⟩

/-- The end of a block is reached by its own instructions or, unless it is a loop, by a branch. -/
def Flow.reachesEnd (isLoop : Bool) (f : Flow) : Bool :=
  f.ending = .falls ∨ isLoop = false ∧ 0 ∈ f.targets

/-- The branches and the ending of instructions. -/
def flow : Body → Flow
  | done => ⟨[], .falls⟩
  | plain _ _ _ _ _ traps next => if traps then ⟨[], .stops false⟩ else next.flow
  | block _ isLoop _ _ body next =>
    next.flow.after (body.flow.reachesEnd isLoop) (outerDepths body.flow.targets)
  | ifThen _ none _ _ thn next => next.flow.before (outerDepths thn.flow.targets)
  | ifThen _ (some true) _ _ thn next =>
    next.flow.after (thn.flow.reachesEnd false) (outerDepths thn.flow.targets)
  | ifThen _ (some false) _ _ _ next => next.flow
  | ifElse _ none _ _ thn els next =>
    next.flow.after (thn.flow.reachesEnd false || els.flow.reachesEnd false)
      (outerDepths (thn.flow.targets ++ els.flow.targets))
  | ifElse _ (some true) _ _ thn _ next =>
    next.flow.after (thn.flow.reachesEnd false) (outerDepths thn.flow.targets)
  | ifElse _ (some false) _ _ _ els next =>
    next.flow.after (els.flow.reachesEnd false) (outerDepths els.flow.targets)
  | br _ depth _ => ⟨[depth], .stops false⟩
  | brIf _ none depth next => next.flow.before [depth]
  | brIf _ (some true) depth _ => ⟨[depth], .stops false⟩
  | brIf _ (some false) _ next => next.flow
  | brTable _ none depths default _ => ⟨depths ++ [default], .stops false⟩
  | brTable _ (some index) depths default _ => ⟨[depths[index]?.getD default], .stops false⟩
  | ret _ => ⟨[], .stops false⟩
  | unreachable _ => ⟨[], .stops false⟩

/-- The `end` or `else` behind instructions, if control falls into it. -/
def Flow.marker (f : Flow) (p : ℕ) : List ℕ := if f.ending = .falls then [p] else []

/-- The positions of the opcodes that control flow reaches, for instructions that are reached and
start at some position. -/
def reached (p : ℕ) : Body → List ℕ
  | done => []
  | plain _ imm _ _ _ traps next => p :: if traps then [] else next.reached (p + (imm.length + 1))
  | block imm isLoop _ _ body next =>
    let q := p + (imm.length + 1)
    p :: (body.reached q ++ body.flow.marker (q + body.size) ++
      if body.flow.reachesEnd isLoop then next.reached (q + body.size + 1) else [])
  | ifThen imm const _ _ thn next =>
    let q := p + (imm.length + 1)
    match const with
    | none =>
      p :: (thn.reached q ++ thn.flow.marker (q + thn.size) ++ next.reached (q + thn.size + 1))
    | some true =>
      p :: (thn.reached q ++ thn.flow.marker (q + thn.size) ++
        if thn.flow.reachesEnd false then next.reached (q + thn.size + 1) else [])
    | some false => p :: next.reached (q + thn.size + 1)
  | ifElse imm const _ _ thn els next =>
    let q := p + (imm.length + 1) + thn.size
    let r := q + 1 + els.size
    match const with
    | none =>
      p :: (thn.reached (p + (imm.length + 1)) ++ thn.flow.marker q ++
        (els.reached (q + 1) ++ els.flow.marker r ++
          if thn.flow.reachesEnd false || els.flow.reachesEnd false
          then next.reached (r + 1) else []))
    | some true =>
      p :: (thn.reached (p + (imm.length + 1)) ++ thn.flow.marker q ++
        if thn.flow.reachesEnd false then next.reached (r + 1) else [])
    | some false =>
      p :: (els.reached (q + 1) ++ els.flow.marker r ++
        if els.flow.reachesEnd false then next.reached (r + 1) else [])
  | br _ _ _ => [p]
  | brIf imm const _ next =>
    p :: if const = some true then [] else next.reached (p + (imm.length + 1))
  | brTable _ _ _ _ _ => [p]
  | ret _ => [p]
  | unreachable _ => [p]

/-- A block with the addresses behind its type, of its `else` and of its `end`. -/
structure BlockAt where
  isIf : Bool
  start : ℕ
  elseAddr : Option ℕ
  endAddr : ℕ

/-- The search for the end of the block finds it. -/
def BlockAt.Found (code : List CodeByte) (b : BlockAt) : Prop :=
  findBlockAddr b.isIf code b.start = some (b.elseAddr, b.endAddr)

/-- The search for the end of the block finds it or fails; it does not mistake another place for
it. -/
def BlockAt.Unmistaken (code : List CodeByte) (b : BlockAt) : Prop :=
  findBlockAddr b.isIf code b.start = none ∨ b.Found code

/-- The blocks that control flow reaches. -/
def blocks (p : ℕ) : Body → List BlockAt
  | done => []
  | plain _ imm _ _ _ traps next => if traps then [] else next.blocks (p + (imm.length + 1))
  | block imm isLoop _ _ body next =>
    let q := p + (imm.length + 1)
    ⟨false, q, none, q + body.size⟩ :: (body.blocks q ++
      if body.flow.reachesEnd isLoop then next.blocks (q + body.size + 1) else [])
  | ifThen imm const _ _ thn next =>
    let q := p + (imm.length + 1)
    ⟨true, q, none, q + thn.size⟩ ::
      match const with
      | none => thn.blocks q ++ next.blocks (q + thn.size + 1)
      | some true => thn.blocks q ++
          if thn.flow.reachesEnd false then next.blocks (q + thn.size + 1) else []
      | some false => next.blocks (q + thn.size + 1)
  | ifElse imm const _ _ thn els next =>
    let q := p + (imm.length + 1) + thn.size
    let r := q + 1 + els.size
    ⟨true, p + (imm.length + 1), some q, r⟩ ::
      match const with
      | none => thn.blocks (p + (imm.length + 1)) ++ (els.blocks (q + 1) ++
          if thn.flow.reachesEnd false || els.flow.reachesEnd false
          then next.blocks (r + 1) else [])
      | some true => thn.blocks (p + (imm.length + 1)) ++
          if thn.flow.reachesEnd false then next.blocks (r + 1) else []
      | some false => els.blocks (q + 1) ++
          if els.flow.reachesEnd false then next.blocks (r + 1) else []
  | br _ _ _ => []
  | brIf imm const _ next =>
    if const = some true then [] else next.blocks (p + (imm.length + 1))
  | brTable _ _ _ _ _ => []
  | ret _ => []
  | unreachable _ => []

/-! ## The condition -/

/-- No reached `if` has a shape that the compiler gets wrong.  An `if` with both arms to translate
must not have a first arm that stops inside of an inner block, unless it has no parameters and
nothing in that arm branches to its end.  An `if` whose condition is constantly false and that has
an `else` must not have parameters. -/
def Clean : Body → Prop
  | done => True
  | plain _ _ _ _ _ traps next => traps = false → next.Clean
  | block _ isLoop _ _ body next => body.Clean ∧ (body.flow.reachesEnd isLoop → next.Clean)
  | ifThen _ none _ _ thn next => thn.Clean ∧ next.Clean
  | ifThen _ (some true) _ _ thn next => thn.Clean ∧ (thn.flow.reachesEnd false → next.Clean)
  | ifThen _ (some false) _ _ _ next => next.Clean
  | ifElse _ none params _ thn els next =>
    thn.Clean ∧ (thn.flow.ending = .stops true → params = 0 ∧ 0 ∉ thn.flow.targets) ∧ els.Clean ∧
      (thn.flow.reachesEnd false || els.flow.reachesEnd false → next.Clean)
  | ifElse _ (some true) _ _ thn _ next => thn.Clean ∧ (thn.flow.reachesEnd false → next.Clean)
  | ifElse _ (some false) params _ _ els next =>
    params = 0 ∧ els.Clean ∧ (els.flow.reachesEnd false → next.Clean)
  | br _ _ _ => True
  | brIf _ none _ next => next.Clean
  | brIf _ (some true) _ _ => True
  | brIf _ (some false) _ next => next.Clean
  | brTable _ _ _ _ _ => True
  | ret _ => True
  | unreachable _ => True

/-- Instructions at some position of the code are clean, and the search finds the end of every block
that control flow reaches. -/
def CleanAt (code : List CodeByte) (p : ℕ) (c : Body) : Prop :=
  c.Clean ∧ ∀ b ∈ c.blocks p, b.Found code

end Body

/-! ## Functions -/

/-- A valid function: its instructions and the number of its results. -/
structure Func where
  body : Body
  results : ℕ
  valid : body.Valid [⟨false, 0, results⟩] 0 results

namespace Func

/-- The bytes of a function. -/
def code (f : Func) : List CodeByte := f.body.bytes ++ instr 0x0b .end_ []

/-- The positions that control flow reaches. -/
def reached (f : Func) : List ℕ := f.body.reached 0 ++ f.body.flow.marker f.body.size

/-- The function is translated as a whole.  The walk comes to its end; it visits each opcode that
control flow reaches, and no other, exactly once; every `else` arm starts with exactly the
parameters of its block; and every basic block that has a predecessor has exactly one terminator. -/
def Translated (f : Func) : Prop :=
  ∃ visited s, aotCompileFunc f.code f.results = some (visited, s) ∧
    visited.Nodup ∧ (∀ p, p ∈ visited ↔ p ∈ f.reached) ∧
    (∀ e ∈ s.elses, e.WithParams) ∧ s.cfg.Terminated

/-- The condition for a function. -/
def Clean (f : Func) : Prop := f.body.CleanAt f.code 0

/-- No other place is mistaken for the end of a block that control flow reaches. -/
def Unmistaken (f : Func) : Prop := ∀ b ∈ f.body.blocks 0, b.Unmistaken f.code

end Func

/-! ## Layout -/

namespace Body

variable {p params results depth default : ℕ} {imm : List CodeByte} {const : Option Bool}
  {next thn c : Body} {isLoop : Bool} {depths : List ℕ}

@[simp] lemma length_instr (opcode : UInt8) (op : Op) (imm : List CodeByte) :
    (instr opcode op imm).length = imm.length + 1 := rfl

@[simp] lemma size_done : done.size = 0 := rfl

section Sizes

attribute [local simp] size bytes

@[simp] lemma size_plain {opcode : UInt8} {pops pushes checks : ℕ} {traps : Bool} :
    (plain opcode imm pops pushes checks traps next).size = imm.length + 1 + next.size := by
  simp

@[simp] lemma size_block {body : Body} :
    (block imm isLoop params results body next).size =
      imm.length + 1 + body.size + 1 + next.size := by
  simp
  omega

@[simp] lemma size_ifThen :
    (ifThen imm const params results thn next).size =
      imm.length + 1 + thn.size + 1 + next.size := by
  simp
  omega

@[simp] lemma size_ifElse {els : Body} :
    (ifElse imm const params results thn els next).size =
      imm.length + 1 + thn.size + 1 + els.size + 1 + next.size := by
  simp
  omega

@[simp] lemma size_br : (br imm depth next).size = imm.length + 1 + next.size := by
  simp

@[simp] lemma size_brIf : (brIf imm const depth next).size = imm.length + 1 + next.size := by
  simp

@[simp] lemma size_brTable {const : Option ℕ} :
    (brTable imm const depths default next).size = imm.length + 1 + next.size := by
  simp

@[simp] lemma size_ret : (ret next).size = 1 + next.size := by
  simp

@[simp] lemma size_unreachable : (unreachable next).size = 1 + next.size := by
  simp

end Sizes

section Drop

variable {code rest : List CodeByte} {opcode : UInt8} {op : Op}

lemma drop_instr (hdrop : code.drop p = instr opcode op imm ++ rest) :
    code[p]? = some ⟨opcode, op, imm.length + 1⟩ ∧ code.drop (p + (imm.length + 1)) = rest := by
  refine ⟨?_, ?_⟩
  · rw [← Nat.add_zero p, ← List.getElem?_drop, hdrop]
    rfl
  · rw [← List.drop_drop, hdrop]
    exact List.drop_left

lemma drop_byte (hdrop : code.drop p = instr opcode op [] ++ rest) :
    code[p]? = some ⟨opcode, op, 1⟩ ∧ code.drop (p + 1) = rest := drop_instr hdrop

lemma drop_body (hdrop : code.drop p = c.bytes ++ rest) :
    code.drop (p + c.size) = rest := by
  rw [← List.drop_drop, hdrop]
  exact List.drop_left

end Drop

/-! ## Reached positions -/

/-- Positions in increasing order between two bounds. -/
def Within (a b : ℕ) (l : List ℕ) : Prop := l.Pairwise (· < ·) ∧ ∀ v ∈ l, a ≤ v ∧ v < b

namespace Within

variable {a b e : ℕ} {l l₁ l₂ : List ℕ}

lemma nil : Within a b [] := ⟨List.Pairwise.nil, fun _ hv => absurd hv List.not_mem_nil⟩

lemma append (h1 : Within a b l₁) (h2 : Within b e l₂) (hab : a ≤ b) (hbe : b ≤ e) :
    Within a e (l₁ ++ l₂) := by
  refine ⟨List.pairwise_append.mpr ⟨h1.1, h2.1, ?_⟩, ?_⟩
  · intro v hv w hw
    exact (h1.2 v hv).2.trans_le (h2.2 w hw).1
  · intro v hv
    rcases List.mem_append.mp hv with hv | hv
    · exact ⟨(h1.2 v hv).1, (h1.2 v hv).2.trans_le hbe⟩
    · exact ⟨hab.trans (h2.2 v hv).1, (h2.2 v hv).2⟩

lemma cons (h : Within e b l) (hae : a < e) (heb : e ≤ b) : Within a b (a :: l) := by
  refine ⟨List.pairwise_cons.mpr ⟨fun v hv => hae.trans_le (h.2 v hv).1, h.1⟩, ?_⟩
  intro v hv
  rcases List.mem_cons.mp hv with rfl | hv
  · exact ⟨le_rfl, hae.trans_le heb⟩
  · exact ⟨hae.le.trans (h.2 v hv).1, (h.2 v hv).2⟩

lemma mono (h : Within a b l) (hbe : b ≤ e) : Within a e l :=
  ⟨h.1, fun v hv => ⟨(h.2 v hv).1, (h.2 v hv).2.trans_le hbe⟩⟩

lemma mono_left (h : Within b e l) (hab : a ≤ b) : Within a e l :=
  ⟨h.1, fun v hv => ⟨hab.trans (h.2 v hv).1, (h.2 v hv).2⟩⟩

lemma ite {P : Prop} [Decidable P] (h : Within a b l) : Within a b (if P then l else []) := by
  split
  · exact h
  · exact nil

lemma disjoint (h1 : Within a b l₁) (h2 : Within b e l₂) : ∀ v ∈ l₂, v ∉ l₁ := by
  intro v hv hmem
  exact absurd (h1.2 v hmem).2 (not_lt.mpr (h2.2 v hv).1)

lemma length_le (h : Within a b l) (hab : a ≤ b) : a + l.length ≤ b := by
  induction l generalizing a with
  | nil => exact hab
  | cons v l ih =>
    obtain ⟨hav, hvb⟩ := h.2 v (by simp)
    obtain ⟨hlt, hpairs⟩ := List.pairwise_cons.mp h.1
    have hrest := ih ⟨hpairs, fun w hw => ⟨hlt w hw, (h.2 w (by simp [hw])).2⟩⟩ hvb
    rw [List.length_cons]
    omega

lemma nodup (h : Within a b l) : l.Nodup := h.1.imp fun hlt => hlt.ne

end Within

lemma within_marker (f : Flow) (p : ℕ) : Within p (p + 1) (f.marker p) :=
  Within.ite (Within.cons Within.nil (Nat.lt_succ_self p) le_rfl)

lemma Within.marked (h : Within p (p + c.size) (c.reached p)) :
    Within p (p + c.size + 1) (c.reached p ++ c.flow.marker (p + c.size)) :=
  h.append (within_marker _ _) (by omega) (by omega)

/-- Reached positions are in increasing order and are positions of the instructions. -/
lemma within_reached (c : Body) : ∀ p, Within p (p + c.size) (c.reached p) := by
  induction c with
  | done => exact fun _ => Within.nil
  | plain opcode imm pops pushes checks traps next ih =>
    intro p
    rw [size_plain]
    have hnext := (ih (p + (imm.length + 1))).mono (e := p + (imm.length + 1 + next.size)) (by omega)
    cases traps with
    | true => exact Within.cons Within.nil (Nat.lt_succ_self p) (by omega)
    | false => exact Within.cons hnext (by omega) (by omega)
  | block imm isLoop params results body next ihb ihn =>
    intro p
    rw [size_block]
    refine Within.cons (Within.append (ihb _).marked (Within.ite (ihn _)) ?_ ?_ |>.mono ?_) ?_ ?_
    all_goals omega
  | ifThen imm const params results thn next iht ihn =>
    intro p
    rw [size_ifThen]
    rcases const with _ | _ | _
    · refine Within.cons (Within.append (iht _).marked (ihn _) ?_ ?_ |>.mono ?_) ?_ ?_
      all_goals omega
    · refine Within.cons ((ihn _).mono ?_) ?_ ?_
      all_goals omega
    · refine Within.cons (Within.append (iht _).marked (Within.ite (ihn _)) ?_ ?_ |>.mono ?_) ?_ ?_
      all_goals omega
  | ifElse imm const params results thn els next iht ihe ihn =>
    intro p
    rw [size_ifElse]
    rcases const with _ | _ | _
    · refine Within.cons (Within.append (iht _).marked
        (Within.append (ihe _).marked (Within.ite (ihn _)) ?_ ?_) ?_ ?_ |>.mono ?_) ?_ ?_
      all_goals omega
    · refine Within.cons
        (Within.append (ihe _).marked (Within.ite (ihn _)) ?_ ?_ |>.mono ?_) ?_ ?_
      all_goals omega
    · refine Within.cons (Within.append (iht _).marked
        (Within.mono_left (Within.ite (ihn _)) ?_) ?_ ?_ |>.mono ?_) ?_ ?_
      all_goals omega
  | brIf imm const depth next ih =>
    intro p
    rw [size_brIf]
    have hnext := (ih (p + (imm.length + 1))).mono (e := p + (imm.length + 1 + next.size)) (by omega)
    refine Within.cons ?_ (show p < p + (imm.length + 1) by omega) (by omega)
    show Within _ _ (if const = some true then [] else _)
    split
    · exact Within.nil
    · exact hnext
  | br imm _ next _ | brTable imm _ _ _ next _ =>
    exact fun p => Within.cons Within.nil (Nat.lt_succ_self p) (by simp; omega)
  | ret next _ | unreachable next _ =>
    exact fun p => Within.cons Within.nil (Nat.lt_succ_self p) (by simp)

/-- An arm has a first reached position: that of its first instruction or of the marker. -/
lemma head_mem_reached (c : Body) (p : ℕ) :
    p ∈ c.reached p ++ c.flow.marker (p + c.size) := by
  cases c with
  | done => simp [reached, flow, Flow.marker]
  | ifThen _ const _ _ _ _ => rcases const with _ | _ | _ <;> simp [reached]
  | ifElse _ const _ _ _ _ _ => rcases const with _ | _ | _ <;> simp [reached]
  | _ => simp [reached]

/-! ## The trees of the translation -/

/-- What is known of the condition on the stack. -/
def condition (slots : List Slot) : Option Bool :=
  (slots.head?.bind Slot.const).map fun k => decide (k ≠ 0)

/-- The instructions of a tree, for the values on the stack.  Their bytes are left out. -/
def ofCode (env : CompEnv) (labels : List Label) : List Slot → Code → Body
  | _, .done => done
  | s, .const n next => plain 0 [] 0 1 0 false (ofCode env labels (⟨some n, none⟩ :: s) next)
  | s, .op id pops pushes next =>
    match env.fold id ((s.take pops).map Slot.const) with
    | .traps => plain 0 [] pops pushes 0 true done
    | .pushes consts => plain 0 [] pops pushes 0 false (ofCode env labels
        ((List.range pushes).map (fun k => ⟨(consts[k]?).join, none⟩) ++ (pop pops s).getD []) next)
  | s, .localGet idx next =>
    plain 0 [] 0 1 0 false (ofCode env labels (⟨none, some idx⟩ :: s) next)
  | s, .localSet _ next => plain 0 [] 1 0 0 false (ofCode env labels ((pop 1 s).getD []) next)
  | s, .localTee _ next => plain 0 [] 1 1 0 false (ofCode env labels ((repush 1 s).getD []) next)
  | s, .access above _ _ pushes next => plain 0 [] (above + 1) pushes 1 false
      (ofCode env labels (List.replicate pushes .unknown ++ ((pop above s).getD []).tail) next)
  | s, .block params results body next =>
    block [] false params results
      (ofCode env (⟨false, params, results⟩ :: labels) (List.replicate params .unknown) body)
      (ofCode env labels (List.replicate results .unknown ++ (pop params s).getD []) next)
  | s, .loop params results body next =>
    block [] true params results
      (ofCode env (⟨true, params, results⟩ :: labels) (List.replicate params .unknown) body)
      (ofCode env labels (List.replicate results .unknown ++ (pop params s).getD []) next)
  | s, .ifThen params results thn next =>
    ifThen [] (condition s) params results
      (ofCode env (⟨false, params, results⟩ :: labels) (List.replicate params .unknown) thn)
      (ofCode env labels (if condition s = some false then s.tail
        else List.replicate results .unknown ++ (pop params s.tail).getD []) next)
  | s, .ifElse params results thn els next =>
    let thn := ofCode env (⟨false, params, results⟩ :: labels) (List.replicate params .unknown) thn
    ifElse [] (condition s) params results thn
      (ofCode env (⟨false, params, results⟩ :: labels)
        (if thn.flow.ending = .stops true then [] else List.replicate params .unknown) els)
      (ofCode env labels (List.replicate results .unknown ++ (pop params s.tail).getD []) next)
  | _, .br depth _ => br [] depth done
  | s, .brIf depth next => brIf [] (condition s) depth (ofCode env labels
      (if condition s = none then (labels[depth]?.bind fun l => repush l.arity s.tail).getD []
        else s.tail) next)
  | s, .brTable depths default _ => brTable [] (s.head?.bind Slot.const) depths default done
  | _, .ret _ => ret done
  | _, .unreachable _ => unreachable done

/-- The branches and the ending of a translation. -/
def flowOf (r : Compiled) : Flow where
  targets := r.reached
  ending := match r.exit with
    | .falls _ _ => .falls
    | .stops inner => .stops inner

section Trees

variable {env : CompEnv} {r : Compiled} {slots : List Slot} {tag : Option ℕ}

lemma condition_none : condition (⟨none, tag⟩ :: slots) = none := rfl

lemma condition_zero : condition (⟨some 0, tag⟩ :: slots) = some false := rfl

lemma condition_succ (k : ℕ) : condition (⟨some (k + 1), tag⟩ :: slots) = some true := rfl

variable {reached : Bool} {labels : List Label}

lemma reachesEnd_flowOf {results : ℕ} (h : endReached results isLoop r = some reached) :
    (flowOf r).reachesEnd isLoop = reached := by
  obtain ⟨code, targets, exit⟩ := r
  cases exit with
  | falls slots checked =>
    obtain ⟨_, -, rfl⟩ := Option.map_eq_some_iff.mp h
    simp [flowOf, Flow.reachesEnd]
  | stops inner =>
    cases h
    cases isLoop <;> simp [flowOf, Flow.reachesEnd]

lemma after_flowOf {wrap : Emitted → Emitted} {next : Option Compiled} {f : Flow}
    (h : afterBlock reached wrap depths next = some r) (hnext : ∀ n, next = some n → f = flowOf n) :
    f.after reached depths = flowOf r := by
  rw [afterBlock] at h
  cases reached with
  | true =>
    obtain ⟨n, hn, rfl⟩ := Option.map_eq_some_iff.mp h
    rw [hnext n hn]
    rfl
  | false =>
    cases h
    rfl

lemma flowOf_br {slots : List Slot} {depth : ℕ} (h : compileBr labels slots depth = some r) :
    flowOf r = ⟨[depth], .stops false⟩ := by
  simp only [compileBr, Option.bind_eq_bind, Option.bind_eq_some_iff] at h
  obtain ⟨_, -, _, -, h⟩ := h
  cases h
  rfl

lemma slots_of_else {params : ℕ} {slots : List Slot}
    (h : elseSlots params reached r.exit = some slots) :
    slots = if (flowOf r).ending = .stops true then [] else List.replicate params .unknown := by
  obtain ⟨code, targets, exit⟩ := r
  rcases exit with _ | _ | _
  · cases h
    rfl
  · cases h
    rfl
  · rw [elseSlots] at h
    split_ifs at h
    cases h
    rfl

/-- **The two models of the compiler agree.**  The translation of a tree branches to the labels, and
ends in the way, that control flow does in its instructions. -/
theorem flow_ofCode {slots : List Slot} {checked : List CheckedAddr} {c : Code}
    (h : compile env labels slots checked c = some r) :
    (ofCode env labels slots c).flow = flowOf r := by
  induction c generalizing labels slots checked r with
  | done =>
    cases h
    rfl
  | const n next ih =>
    obtain ⟨c, hc, rfl⟩ := Option.map_eq_some_iff.mp h
    exact (ih hc :)
  | op id pops pushes next ih =>
    obtain ⟨rest, hrest, h⟩ := Option.bind_eq_some_iff.mp h
    rw [ofCode, hrest]
    cases hfold : env.fold id ((slots.take pops).map Slot.const) with
    | traps =>
      simp only [hfold] at h
      cases h
      rfl
    | pushes consts =>
      simp only [hfold] at h
      obtain ⟨c, hc, rfl⟩ := Option.map_eq_some_iff.mp h
      exact (ih hc :)
  | localGet idx next ih =>
    rw [compile, Option.ite_none_right_eq_some] at h
    obtain ⟨c, hc, rfl⟩ := Option.map_eq_some_iff.mp h.2
    exact (ih hc :)
  | localSet idx next ih | localTee idx next ih =>
    rw [compile, Option.ite_none_right_eq_some] at h
    obtain ⟨rest, hrest, h⟩ := Option.bind_eq_some_iff.mp h.2
    obtain ⟨c, hc, rfl⟩ := Option.map_eq_some_iff.mp h
    rw [ofCode, hrest]
    exact (ih hc :)
  | access above offset width pushes next ih =>
    obtain ⟨rest, hrest, h⟩ := Option.bind_eq_some_iff.mp h
    rw [ofCode, hrest]
    cases rest with
    | nil => cases h
    | cons addr rest =>
      obtain ⟨c, hc, rfl⟩ := Option.map_eq_some_iff.mp h
      exact (ih hc :)
  | block params results body next ihb ihn | loop params results body next ihb ihn =>
    simp only [compile, Option.bind_eq_bind, Option.bind_eq_some_iff] at h
    obtain ⟨rest, hrest, b, hb, reached, hreached, h⟩ := h
    rw [ofCode, hrest, flow, ihb hb, reachesEnd_flowOf hreached]
    exact after_flowOf h fun _ hn => ihn hn
  | ifThen params results thn next iht ihn =>
    cases slots with
    | nil => cases h
    | cons cond slots =>
      obtain ⟨const, tag⟩ := cond
      rcases const with _ | _ | k <;>
        simp only [compile, Option.bind_eq_bind, Option.bind_eq_some_iff] at h
      · obtain ⟨rest, hrest, b, hb, reached, -, h⟩ := h
        rw [ofCode, condition_none, List.tail_cons, hrest, flow, iht hb]
        exact after_flowOf h fun _ hn => ihn hn
      · exact (ihn h :)
      · obtain ⟨rest, hrest, b, hb, reached, hreached, h⟩ := h
        rw [ofCode, condition_succ, List.tail_cons, hrest, flow, iht hb, reachesEnd_flowOf hreached]
        exact after_flowOf h fun _ hn => ihn hn
  | ifElse params results thn els next iht ihe ihn =>
    cases slots with
    | nil => cases h
    | cons cond slots =>
      obtain ⟨const, tag⟩ := cond
      rcases const with _ | _ | k <;>
        simp only [compile, Option.bind_eq_bind, Option.bind_eq_some_iff] at h <;>
        obtain ⟨rest, hrest, h⟩ := h
      · obtain ⟨t, ht, tr, htr, es, hes, e, he, er, her, h⟩ := h
        rw [slots_of_else hes] at he
        rw [ofCode, condition_none, List.tail_cons, hrest, flow, iht ht, ihe he, reachesEnd_flowOf htr,
           reachesEnd_flowOf her, outerDepths_append]
        exact after_flowOf h fun _ hn => ihn hn
      · split_ifs at h with hzero
        obtain rfl := not_not.mp hzero
        simp only [Option.bind_eq_some_iff] at h
        obtain ⟨e, he, reached, hreached, h⟩ := h
        rw [ofCode, condition_zero, List.tail_cons, hrest, flow, List.replicate_zero, ite_self, ihe he,
          reachesEnd_flowOf hreached]
        exact after_flowOf h fun _ hn => ihn hn
      · obtain ⟨b, hb, reached, hreached, h⟩ := h
        rw [ofCode, condition_succ, List.tail_cons, hrest, flow, iht hb, reachesEnd_flowOf hreached]
        exact after_flowOf h fun _ hn => ihn hn
  | br depth next ih => exact (flowOf_br h).symm
  | brIf depth next ih =>
    cases slots with
    | nil => cases h
    | cons cond slots =>
      obtain ⟨const, tag⟩ := cond
      rcases const with _ | _ | k
      · simp only [compile, Option.bind_eq_bind, Option.bind_eq_some_iff] at h
        obtain ⟨label, hlabel, slots', hslots, h⟩ := h
        obtain ⟨c, hc, rfl⟩ := Option.map_eq_some_iff.mp h
        rw [ofCode, List.tail_cons, hlabel, Option.bind_some, hslots]
        exact congrArg (Flow.before [depth]) (ih hc)
      · exact (ih h :)
      · exact (flowOf_br h).symm
  | brTable depths default next ih =>
    cases slots with
    | nil => cases h
    | cons idx slots =>
      obtain ⟨const, tag⟩ := idx
      cases const with
      | none =>
        obtain ⟨targets, -, h⟩ := Option.bind_eq_some_iff.mp h
        cases h
        rfl
      | some k =>
        rw [flowOf_br h, List.getD_eq_getElem?_getD]
        rfl
  | ret next ih =>
    simp only [compile, Option.bind_eq_bind, Option.bind_eq_some_iff] at h
    obtain ⟨_, -, _, -, h⟩ := h
    cases h
    rfl
  | unreachable next ih =>
    cases h
    rfl

end Trees

end Body

end Watz.Aot.Walk
