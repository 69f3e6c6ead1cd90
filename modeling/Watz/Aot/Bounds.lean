import Watz.Aot.Compiler

/-!
# Emitted code and the bounds of linear memory

The emitted code runs on a machine with local variables, operands and a memory that may grow.
Every access is recorded with the state it met.  A discipline on emitted code says which checks
may be left out, given a list of addresses that are known to be checked; the compiler keeps to
it, and code that keeps to it stays inside memory, as long as an operand that was read from a
local variable is still the value of that variable when it is used as an address.
-/

namespace Watz.Aot

open Option (bind_eq_bind bind_eq_some_iff map_eq_some_iff)

/-! ## Running emitted code -/

/-- One access as it happened: the operand, the local variables and the size of memory at that
time, and the bytes that were touched, relative to the base of memory. -/
structure Touch where
  code : AccessCode
  operand : ℕ
  locals : ℕ → ℕ
  memSize : ℕ
  first : ℤ

/-- The machine. -/
structure Machine where
  locals : ℕ → ℕ
  stack : List ℕ
  memSize : ℕ
  /-- How many results of operators have been asked for. -/
  time : ℕ
  log : List Touch

/-- What the operators and accesses that run do: the values they leave, how much memory grows,
and whether an exception is thrown. -/
structure World where
  value : ℕ → ℕ → ℕ
  grow : ℕ → ℕ
  stops : ℕ → Bool

/-- An index of type `i32` is sign-extended when an address is computed from it. -/
def signExtend32 (n : ℕ) : ℤ := if n < 2 ^ 31 then n else (n : ℤ) - 2 ^ 32

/-- The first byte an access touches, or an exception.  The bound is the size of memory minus the
number of bytes. -/
def Machine.address (env : CompEnv) (m : Machine) (code : AccessCode) (operand : ℕ) : Option ℤ :=
  let offset1 : ℕ := operand % 2 ^ 32 + code.offset
  match code.check with
  | .inside memOffset => some (signExtend32 memOffset)
  | .elided => some offset1
  | .checked =>
    if env.initPageCount = 0 ∧ m.memSize = 0 then none
    else if (m.memSize : ℤ) - code.bytes < offset1 then none
    else some offset1

/-- Replace the uppermost operands by results. -/
def Machine.results (m : Machine) (world : World) (pops pushes : ℕ) : Machine :=
  { m with
    stack := (List.range pushes).map (world.value m.time) ++ m.stack.drop pops
    time := m.time + 1 }

/-- Record an access. -/
def Machine.touch (m : Machine) (code : AccessCode) (operand : ℕ) (first : ℤ) : Machine :=
  { m with log := m.log ++ [⟨code, operand, m.locals, m.memSize, first⟩] }

def Machine.setLocal (m : Machine) (idx v : ℕ) : Machine :=
  { m with locals := Function.update m.locals idx v }

/-- How a piece of code ends. -/
inductive Outcome where
  | falls (m : Machine)
  | branches (depth : ℕ) (m : Machine)
  | stops (m : Machine)

def Outcome.machine : Outcome → Machine
  | falls m => m
  | branches _ m => m
  | stops m => m

/-- Behind the code of a block: its results or the values of a branch to its label are put on the
operands that were there before, and a branch further out goes on. -/
def Outcome.leave (results : ℕ) (rest : List ℕ) (next label : Machine → Outcome) :
    Outcome → Outcome
  | falls m => next { m with stack := m.stack.take results ++ rest }
  | branches 0 m => label { m with stack := m.stack ++ rest }
  | branches (d + 1) m => branches d m
  | stops m => stops m

/-- Run emitted code for a number of steps. -/
def exec (env : CompEnv) (world : World) : ℕ → Emitted → Machine → Outcome
  | 0, _, m => .stops m
  | _ + 1, .done, m => .falls m
  | n + 1, .push v next, m => exec env world n next { m with stack := v :: m.stack }
  | n + 1, .op pops pushes next, m =>
    let m' := { m.results world pops pushes with memSize := m.memSize + world.grow m.time }
    if world.stops m.time then .stops m' else exec env world n next m'
  | n + 1, .localGet idx next, m =>
    exec env world n next { m with stack := m.locals idx :: m.stack }
  | n + 1, .localSet idx next, m =>
    exec env world n next { m.setLocal idx (m.stack.headD 0) with stack := m.stack.drop 1 }
  | n + 1, .localTee idx next, m => exec env world n next (m.setLocal idx (m.stack.headD 0))
  | n + 1, .access above code pushes next, m =>
    let operand := (m.stack.drop above).headD 0
    match m.address env code operand with
    | none => .stops m
    | some first =>
      exec env world n next ((m.touch code operand first).results world (above + 1) pushes)
  | n + 1, .block params results body next, m =>
    (exec env world n body { m with stack := m.stack.take params }).leave results
      (m.stack.drop params) (exec env world n next) (exec env world n next)
  | n + 1, .loop params results body next, m =>
    (exec env world n body { m with stack := m.stack.take params }).leave results
      (m.stack.drop params) (exec env world n next)
      (exec env world n (.loop params results body next))
  | n + 1, .ifElse params results thn els next, m =>
    let taken := if m.stack.headD 0 ≠ 0 then thn else els
    let stack := m.stack.drop 1
    (exec env world n taken { m with stack := stack.take params }).leave results
      (stack.drop params) (exec env world n next) (exec env world n next)
  | _ + 1, .br depth arity, m => .branches depth { m with stack := m.stack.take arity }
  | n + 1, .brIf depth arity next, m =>
    let stack := m.stack.drop 1
    if m.stack.headD 0 ≠ 0 then .branches depth { m with stack := stack.take arity }
    else exec env world n next { m with stack := stack }
  | _ + 1, .brTable targets default, m =>
    let target := targets.getD (m.stack.headD 0) default
    .branches target.1 { m with stack := (m.stack.drop 1).take target.2 }
  | _ + 1, .ret, m => .stops m
  | _ + 1, .trap, m => .stops m

/-- The access stays inside memory. -/
def Touch.InBounds (t : Touch) : Prop := 0 ≤ t.first ∧ t.first + t.code.bytes ≤ t.memSize

instance (t : Touch) : Decidable t.InBounds := inferInstanceAs (Decidable (_ ∧ _))

/-- An operand that was read from a local variable is still the value of the variable, and a
constant address is not negative as a signed number. -/
def Touch.Regular (t : Touch) : Prop :=
  (∀ idx, t.code.tag = some idx → t.operand = t.locals idx)
    ∧ ∀ memOffset, t.code.check = .inside memOffset → memOffset < 2 ^ 31

/-! ## The discipline -/

/-- A check may be left out for a constant address inside the initial memory, and for a local
variable of a list of checked addresses. -/
def Allowed (env : CompEnv) (checked : List CheckedAddr) (code : AccessCode) : Prop :=
  match code.check with
  | .inside memOffset => memOffset + code.bytes ≤ env.memDataSize
  | .elided => ∃ idx, code.tag = some idx
      ∧ checkedAddrListFind checked idx code.offset code.bytes = true
  | .checked => True

/-- A check puts the variable of its operand on the list. -/
def listBehind (checked : List CheckedAddr) (code : AccessCode) : List CheckedAddr :=
  match code.check, code.tag with
  | .checked, some idx => checkedAddrListAdd checked idx code.offset code.bytes
  | _, _ => checked

/-- Code that leaves out only the checks it may.  An assignment takes a variable off the list, and
where paths meet or a loop begins nothing is known. -/
def Disciplined (env : CompEnv) : List CheckedAddr → Emitted → Prop
  | _, .done => True
  | checked, .push _ next => Disciplined env checked next
  | checked, .op _ _ next => Disciplined env checked next
  | checked, .localGet _ next => Disciplined env checked next
  | checked, .localSet idx next => Disciplined env (checkedAddrListDel checked idx) next
  | checked, .localTee idx next => Disciplined env (checkedAddrListDel checked idx) next
  | checked, .access _ code _ next =>
    Allowed env checked code ∧ Disciplined env (listBehind checked code) next
  | checked, .block _ _ body next => Disciplined env checked body ∧ Disciplined env [] next
  | _, .loop _ _ body next => Disciplined env [] body ∧ Disciplined env [] next
  | checked, .ifElse _ _ thn els next =>
    Disciplined env checked thn ∧ Disciplined env [] els ∧ Disciplined env [] next
  | _, .br _ _ => True
  | checked, .brIf _ _ next => Disciplined env checked next
  | _, .brTable _ _ => True
  | _, .ret => True
  | _, .trap => True

/-! ## The compiler keeps to the discipline -/

variable {bytes offset : ℕ}

section Compiler

variable {env : CompEnv} {labels : List Label} {slots : List Slot} {checked : List CheckedAddr}

variable {c : Compiled}

/-- Code behind a block starts with nothing known. -/
lemma disciplined_afterBlock {reached : Bool} {wrap : Emitted → Emitted} {depths : List ℕ}
    {next : Option Compiled} (h : afterBlock reached wrap depths next = some c)
    (hwrap : ∀ e, Disciplined env [] e → Disciplined env checked (wrap e))
    (hnext : ∀ n, next = some n → Disciplined env [] n.code) : Disciplined env checked c.code := by
  rw [afterBlock] at h
  split at h
  · obtain ⟨n, hn, rfl⟩ := map_eq_some_iff.mp h
    exact hwrap _ (hnext n hn)
  · obtain rfl := Option.some.inj h
    exact hwrap _ trivial

lemma disciplined_compileBr {depth : ℕ} (h : compileBr labels slots depth = some c) :
    Disciplined env checked c.code := by
  simp only [compileBr, bind_eq_bind, bind_eq_some_iff, Option.pure_def,
    Option.some.injEq] at h
  obtain ⟨label, -, rest, -, rfl⟩ := h
  trivial

lemma le_of_insideInitial {addr : Slot} (h : insideInitial env addr offset bytes = true) :
    addr.const.getD 0 + offset + bytes ≤ env.memDataSize := by
  obtain ⟨const, tag⟩ := addr
  cases const with
  | none => cases h
  | some c => exact of_decide_eq_true h

/-- What is emitted for an address fits the list that the compiler keeps. -/
lemma disciplined_access {addr : Slot} {above pushes : ℕ} {next : Emitted}
    (h : Disciplined env (checkMemoryOverflow env addr offset bytes checked).2 next) :
    Disciplined env checked
      (.access above (checkMemoryOverflow env addr offset bytes checked).1 pushes next) := by
  by_cases hinside : insideInitial env addr offset bytes = true
  · rw [checkMemoryOverflow, if_pos hinside] at h ⊢
    exact ⟨le_of_insideInitial hinside, h⟩
  · rw [checkMemoryOverflow, if_neg hinside] at h ⊢
    cases htag : addr.tag with
    | none =>
      simp only [htag] at h ⊢
      exact ⟨trivial, h⟩
    | some idx =>
      simp only [htag] at h ⊢
      by_cases hfind : checkedAddrListFind checked idx offset bytes = true
      · rw [if_pos hfind] at h ⊢
        exact ⟨⟨idx, rfl, hfind⟩, h⟩
      · rw [if_neg hfind] at h ⊢
        exact ⟨trivial, h⟩

/-- By induction on the body: the list of the discipline is the compiler's own. -/
lemma disciplined_compile {body : Code} (h : compile env labels slots checked body = some c) :
    Disciplined env checked c.code := by
  induction body generalizing labels slots checked c with
  | done =>
    obtain rfl := Option.some.inj h
    trivial
  | const n next ih =>
    obtain ⟨c', hc', rfl⟩ := map_eq_some_iff.mp h
    exact (ih hc' :)
  | op id pops pushes next ih =>
    simp only [compile, bind_eq_bind, bind_eq_some_iff] at h
    obtain ⟨rest, -, h⟩ := h
    split at h
    · obtain rfl := Option.some.inj h
      trivial
    · obtain ⟨c', hc', rfl⟩ := map_eq_some_iff.mp h
      exact (ih hc' :)
  | localGet idx next ih =>
    simp only [compile, Option.ite_none_right_eq_some] at h
    obtain ⟨c', hc', rfl⟩ := map_eq_some_iff.mp h.2
    exact (ih hc' :)
  | localSet idx next ih | localTee idx next ih =>
    simp only [compile, Option.ite_none_right_eq_some, bind_eq_bind,
      bind_eq_some_iff] at h
    obtain ⟨-, rest, -, h⟩ := h
    obtain ⟨c', hc', rfl⟩ := map_eq_some_iff.mp h
    exact (ih hc' :)
  | access above offset width pushes next ih =>
    simp only [compile, bind_eq_bind, bind_eq_some_iff] at h
    obtain ⟨slots', -, h⟩ := h
    cases slots' with
    | nil => cases h
    | cons addr rest =>
      obtain ⟨c', hc', rfl⟩ := map_eq_some_iff.mp h
      exact disciplined_access (ih hc')
  | block params results body next ihBody ihNext | loop params results body next ihBody ihNext =>
    simp only [compile, bind_eq_bind, bind_eq_some_iff] at h
    obtain ⟨rest, -, b, hb, reached, -, h⟩ := h
    exact disciplined_afterBlock h (fun e he => ⟨ihBody hb, he⟩) fun n hn => ihNext hn
  | ifThen params results thn next ihThn ihNext =>
    cases slots with
    | nil => simp [compile] at h
    | cons cond slots =>
      simp only [compile] at h
      split at h
      · exact ihNext h
      · simp only [bind_eq_bind, bind_eq_some_iff] at h
        obtain ⟨rest, -, t, ht, reached, -, h⟩ := h
        exact disciplined_afterBlock h (fun e he => ⟨ihThn ht, he⟩) fun n hn => ihNext hn
      · simp only [bind_eq_bind, bind_eq_some_iff] at h
        obtain ⟨rest, -, t, ht, reached, -, h⟩ := h
        exact disciplined_afterBlock h (fun e he => ⟨ihThn ht, trivial, he⟩) fun n hn => ihNext hn
  | ifElse params results thn els next ihThn ihEls ihNext =>
    cases slots with
    | nil => simp [compile] at h
    | cons cond slots =>
      simp only [compile, bind_eq_bind, bind_eq_some_iff] at h
      obtain ⟨rest, -, h⟩ := h
      split at h
      · simp only [Option.ite_none_left_eq_some, bind_eq_some_iff] at h
        obtain ⟨-, e, he, reached, -, h⟩ := h
        exact disciplined_afterBlock h (fun e' he' => ⟨ihEls he, he'⟩) fun n hn => ihNext hn
      · simp only [bind_eq_some_iff] at h
        obtain ⟨t, ht, reached, -, h⟩ := h
        exact disciplined_afterBlock h (fun e he => ⟨ihThn ht, he⟩) fun n hn => ihNext hn
      · simp only [bind_eq_some_iff] at h
        obtain ⟨t, ht, thnReached, -, elsSlots, -, e, he, elsReached, -, h⟩ := h
        exact disciplined_afterBlock h (fun e' he' => ⟨ihThn ht, ihEls he, he'⟩)
          fun n hn => ihNext hn
  | br depth next ih => exact disciplined_compileBr h
  | brIf depth next ih =>
    cases slots with
    | nil => simp [compile] at h
    | cons cond slots =>
      simp only [compile] at h
      split at h
      · exact ih h
      · exact disciplined_compileBr h
      · simp only [bind_eq_bind, bind_eq_some_iff] at h
        obtain ⟨label, -, slots', -, h⟩ := h
        obtain ⟨c', hc', rfl⟩ := map_eq_some_iff.mp h
        exact (ih hc' :)
  | brTable depths default next ih =>
    cases slots with
    | nil => simp [compile] at h
    | cons idx slots =>
      simp only [compile] at h
      split at h
      · exact disciplined_compileBr h
      · simp only [bind_eq_bind, bind_eq_some_iff] at h
        obtain ⟨targets, -, h⟩ := h
        obtain rfl := Option.some.inj h
        trivial
  | ret next ih =>
    simp only [compile, bind_eq_bind, bind_eq_some_iff] at h
    obtain ⟨label, -, rest, -, h⟩ := h
    obtain rfl := Option.some.inj h
    trivial
  | unreachable next ih =>
    obtain rfl := Option.some.inj h
    trivial

end Compiler

/-! ## Disciplined code stays inside memory -/

section Run

variable {env : CompEnv} {world : World} {checked : List CheckedAddr} {m m' : Machine}

/-- The variable of a checked address holds an address at which the access is inside memory. -/
def Covered (m : Machine) (node : CheckedAddr) : Prop :=
  m.locals node.localIdx % 2 ^ 32 + node.offset + node.bytes ≤ m.memSize

/-- The invariant of a run: the initial memory is still there and, as long as the accesses were
regular, they were inside memory and the checked addresses still are. -/
structure Sound (env : CompEnv) (checked : List CheckedAddr) (m : Machine) : Prop where
  initial : env.numBytesPerPage * env.initPageCount ≤ m.memSize
  inBounds : (∀ t ∈ m.log, t.Regular) → ∀ t ∈ m.log, t.InBounds
  covered : (∀ t ∈ m.log, t.Regular) → ∀ node ∈ checked, Covered m node

variable {code : AccessCode} {first : ℤ} {operand : ℕ}

namespace Sound

section

variable (h : Sound env checked m)

include h

/-- What is neither a variable nor the log may change, and memory may grow. -/
lemma of_eq (hlocals : m'.locals = m.locals) (hlog : m'.log = m.log) (hmem : m.memSize ≤ m'.memSize) :
    Sound env checked m' where
  initial := h.initial.trans hmem
  inBounds := by
    rw [hlog]
    exact h.inBounds
  covered := by
    intro hreg node hnode
    rw [hlog] at hreg
    have hcovered := h.covered hreg node hnode
    unfold Covered at hcovered ⊢
    rw [hlocals]
    exact hcovered.trans hmem

lemma nil : Sound env [] m :=
  ⟨h.initial, h.inBounds, fun _ _ hnode => by simp at hnode⟩

/-- An assignment takes the variable off the list. -/
lemma setLocal (idx v : ℕ) :
    Sound env (checkedAddrListDel checked idx) (m.setLocal idx v) where
  initial := h.initial
  inBounds := h.inBounds
  covered := by
    intro hreg node hnode
    obtain ⟨hmem, hne⟩ := List.mem_filter.mp hnode
    have hcovered := h.covered hreg node hmem
    have hne : node.localIdx ≠ idx := of_decide_eq_true hne
    simpa [Covered, Machine.setLocal, hne] using hcovered

/-- Recording an access that is inside memory, if it is regular. -/
lemma touch
    (hin : (∀ t ∈ m.log, t.Regular) → (Touch.mk code operand m.locals m.memSize first).Regular →
      (Touch.mk code operand m.locals m.memSize first).InBounds) :
    Sound env checked (m.touch code operand first) where
  initial := h.initial
  inBounds := by
    intro hreg t ht
    have hbefore : ∀ t ∈ m.log, t.Regular := fun t ht => hreg t (List.mem_append_left _ ht)
    rcases List.mem_append.mp ht with ht | ht
    · exact h.inBounds hbefore t ht
    · obtain rfl := List.mem_singleton.mp ht
      exact hin hbefore (hreg _ (List.mem_append_right _ (List.mem_singleton_self _)))
  covered := fun hreg => h.covered fun t ht => hreg t (List.mem_append_left _ ht)

/-- A check that was passed puts the variable of a regular access on the list. -/
lemma add {t : Touch} (ht : t ∈ m.log) {idx : ℕ}
    (hcovered : t.Regular → Covered m ⟨idx, t.code.offset, t.code.bytes⟩) :
    Sound env (checkedAddrListAdd checked idx t.code.offset t.code.bytes) m where
  initial := h.initial
  inBounds := h.inBounds
  covered := by
    intro hreg node hnode
    rcases List.mem_cons.mp hnode with rfl | hnode
    · exact hcovered (hreg t ht)
    · exact h.covered hreg node hnode

end

end Sound

/-- A check that was passed. -/
lemma address_checked {tag : Option ℕ}
    (h : m.address env ⟨offset, bytes, tag, .checked⟩ operand = some first) :
    first = (operand % 2 ^ 32 + offset : ℕ)
      ∧ operand % 2 ^ 32 + offset + bytes ≤ m.memSize := by
  simp only [Machine.address] at h
  split at h
  · cases h
  · split at h
    · cases h
    · rename_i hbound
      exact ⟨(Option.some.inj h).symm, by omega⟩

/-- An access found in the list is inside memory. -/
lemma inBounds_of_find {idx : ℕ} (hcovered : ∀ node ∈ checked, Covered m node)
    (hfind : checkedAddrListFind checked idx offset bytes = true) :
    m.locals idx % 2 ^ 32 + offset + bytes ≤ m.memSize := by
  obtain ⟨node, hnode, hcond⟩ := List.any_eq_true.mp hfind
  obtain ⟨rfl, rfl, hbytes⟩ := of_decide_eq_true hcond
  have h := hcovered node hnode
  unfold Covered at h
  omega

/-- An access that the discipline allows is inside memory if it is regular. -/
lemma inBounds_of_address (h : Sound env checked m) (hallowed : Allowed env checked code)
    (haddr : m.address env code operand = some first) (hlog : ∀ t ∈ m.log, t.Regular)
    (hreg : (Touch.mk code operand m.locals m.memSize first).Regular) :
    (Touch.mk code operand m.locals m.memSize first).InBounds := by
  obtain ⟨offset, bytes, tag, check⟩ := code
  obtain ⟨htag, hconst⟩ := hreg
  cases check with
  | inside memOffset =>
    obtain rfl := Option.some.inj haddr
    have hsmall : memOffset < 2 ^ 31 := hconst memOffset rfl
    have hsize : memOffset + bytes ≤ env.memDataSize := hallowed
    have hmod : env.memDataSize ≤ env.numBytesPerPage * env.initPageCount := Nat.mod_le _ _
    have hinitial := h.initial
    simp only [Touch.InBounds, signExtend32, if_pos hsmall]
    omega
  | elided =>
    obtain rfl := Option.some.inj haddr
    obtain ⟨idx, rfl, hfind⟩ := hallowed
    have hoperand : operand = m.locals idx := htag idx rfl
    have hin : m.locals idx % 2 ^ 32 + offset + bytes ≤ m.memSize :=
      inBounds_of_find (h.covered hlog) hfind
    simp only [Touch.InBounds, hoperand]
    omega
  | checked =>
    obtain ⟨hfirst, hle⟩ := address_checked haddr
    simp only [Touch.InBounds]
    omega

/-- One access: the invariant goes on with the list behind it. -/
lemma Sound.access (h : Sound env checked m) (hallowed : Allowed env checked code)
    (haddr : m.address env code operand = some first) :
    Sound env (listBehind checked code) (m.touch code operand first) := by
  have htouch : Sound env checked (m.touch code operand first) :=
    h.touch fun hlog hreg => inBounds_of_address h hallowed haddr hlog hreg
  obtain ⟨offset, bytes, tag, check⟩ := code
  cases check with
  | inside memOffset => exact htouch
  | elided => exact htouch
  | checked =>
    cases tag with
    | none => exact htouch
    | some idx =>
      refine htouch.add (List.mem_append_right _ (List.mem_singleton_self _)) fun hreg => ?_
      have hoperand : operand = m.locals idx := hreg.1 idx rfl
      obtain ⟨hfirst, hle⟩ := address_checked haddr
      show m.locals idx % 2 ^ 32 + offset + bytes ≤ m.memSize
      rw [← hoperand]
      omega

/-- Leaving a block, with a rule for each way on. -/
lemma Sound.leave {o : Outcome} (h : Sound env [] o.machine) {results : ℕ} {rest : List ℕ}
    {next label : Machine → Outcome}
    (hnext : ∀ m, Sound env [] m → Sound env [] (next m).machine)
    (hlabel : ∀ m, Sound env [] m → Sound env [] (label m).machine) :
    Sound env [] (o.leave results rest next label).machine := by
  cases o with
  | falls m => exact hnext _ (h.of_eq rfl rfl le_rfl)
  | branches d m =>
    cases d with
    | zero => exact hlabel _ (h.of_eq rfl rfl le_rfl)
    | succ d => exact h
  | stops m => exact h

/-- By induction on the number of steps: disciplined code keeps the invariant. -/
lemma sound_exec (n : ℕ) {code : Emitted} (hcode : Disciplined env checked code)
    (h : Sound env checked m) : Sound env [] (exec env world n code m).machine := by
  induction n generalizing checked code m with
  | zero => exact h.nil
  | succ n ih =>
    cases code with
    | done => exact h.nil
    | push v next => exact ih hcode (h.of_eq rfl rfl le_rfl)
    | op pops pushes next =>
      have hresults : Sound env checked
          { m.results world pops pushes with memSize := m.memSize + world.grow m.time } :=
        h.of_eq rfl rfl (Nat.le_add_right _ _)
      simp only [exec]
      split
      · exact hresults.nil
      · exact ih hcode hresults
    | localGet idx next => exact ih hcode (h.of_eq rfl rfl le_rfl)
    | localSet idx next =>
      exact ih hcode ((h.setLocal idx (m.stack.headD 0)).of_eq rfl rfl le_rfl)
    | localTee idx next => exact ih hcode (h.setLocal idx (m.stack.headD 0))
    | access above code pushes next =>
      simp only [exec]
      split
      · exact h.nil
      · rename_i first haddr
        exact ih hcode.2 ((h.access hcode.1 haddr).of_eq rfl rfl le_rfl)
    | block params results body next =>
      refine Sound.leave ?_ (fun m' h' => ih hcode.2 h') fun m' h' => ih hcode.2 h'
      exact ih hcode.1 (h.of_eq rfl rfl le_rfl)
    | loop params results body next =>
      -- a branch to the label runs the loop itself again
      have hloop : Disciplined env [] (.loop params results body next) := hcode
      refine Sound.leave ?_ (fun m' h' => ih hcode.2 h') fun m' h' => ih hloop h'
      exact ih hcode.1 (h.nil.of_eq rfl rfl le_rfl)
    | ifElse params results thn els next =>
      obtain ⟨hthn, hels, hnext⟩ := hcode
      refine Sound.leave ?_ (fun m' h' => ih hnext h') fun m' h' => ih hnext h'
      split
      · exact ih hthn (h.of_eq rfl rfl le_rfl)
      · exact ih hels (h.nil.of_eq rfl rfl le_rfl)
    | br depth arity => exact h.nil.of_eq rfl rfl le_rfl
    | brIf depth arity next =>
      simp only [exec]
      split
      · exact h.nil.of_eq rfl rfl le_rfl
      · exact ih hcode (h.of_eq rfl rfl le_rfl)
    | brTable targets default => exact h.nil.of_eq rfl rfl le_rfl
    | ret => exact h.nil
    | trap => exact h.nil

end Run

/-! ## Compiled functions -/

/-- A module with some pages of 64 KiB, one local variable and no constant folding. -/
def sampleEnv (pages : ℕ) : CompEnv := ⟨65536, pages, 1, fun _ _ => .pushes []⟩

/-- Operators leave zeros, memory does not grow and nothing is thrown. -/
def sampleWorld : World := ⟨fun _ _ => 0, fun _ => 0, fun _ => false⟩

/-- A machine at the start of a function whose argument is given. -/
def sampleMachine (pages arg : ℕ) : Machine := ⟨fun _ => arg, [], 65536 * pages, 0, []⟩

/-- For every body that is translated and every run of the code from a machine that has at least
the initial memory: if every access of the run was regular then every access was inside memory. -/
theorem compiled_accesses_inBounds (env : CompEnv) (results : ℕ) (body : Code) (code : Emitted)
    (hcode : compileFunc env results body = some code) (world : World) (n : ℕ) (m : Machine)
    (hmem : env.numBytesPerPage * env.initPageCount ≤ m.memSize) (hlog : m.log = [])
    (hreg : ∀ t ∈ (exec env world n code m).machine.log, t.Regular) :
    ∀ t ∈ (exec env world n code m).machine.log, t.InBounds := by
  simp only [compileFunc, bind_eq_bind, bind_eq_some_iff] at hcode
  obtain ⟨c, hc, reached, -, hcode⟩ := hcode
  obtain rfl := Option.some.inj hcode
  have hinit : Sound env [] m := ⟨hmem, by simp [hlog], by simp⟩
  exact (sound_exec n (disciplined_compile hc) hinit).inBounds hreg

/-- Two loads through the same variable: the second one is not checked. -/
def loadTwice : Code :=
  .localGet 0 (.load 0 .four (.op 0 1 0 (.localGet 0 (.load 0 .four (.op 0 1 0 .done)))))

/-- The code emitted for `loadTwice`. -/
def loadTwiceCode : Emitted :=
  .localGet 0 (.access 0 ⟨0, 4, some 0, .checked⟩ 1 (.op 1 0
    (.localGet 0 (.access 0 ⟨0, 4, some 0, .elided⟩ 1 (.op 1 0 .done)))))

/-- Two loads from the same variable, of which the first one is checked. -/
theorem compiled_accesses_inBounds_loadTwice :
    compileFunc (sampleEnv 1) 0 loadTwice = some loadTwiceCode
      ∧ ∀ t ∈ (exec (sampleEnv 1) sampleWorld 9 loadTwiceCode (sampleMachine 1 16)).machine.log,
        t.InBounds :=
  ⟨by decide +kernel,
    compiled_accesses_inBounds (sampleEnv 1) 0 loadTwice loadTwiceCode (by decide +kernel)
      sampleWorld 9 (sampleMachine 1 16) (by decide) rfl
      (by simp [loadTwiceCode, exec, Machine.address, Machine.touch, Machine.results, sampleEnv,
        sampleWorld, sampleMachine, Touch.Regular, Outcome.machine])⟩

/-- The variable is set to zero while its old value is still an operand.  The first load checks
zero, and the second one uses the old value as if that had been checked. -/
def loadStale : Code :=
  .localGet 0 (.const 0 (.localSet 0 (.localGet 0 (.load 0 .four (.op 0 1 0
    (.load 0 .four (.op 0 1 0 .done)))))))

/-- A load from a constant address in the upper half of a large initial memory. -/
def loadHigh : Code := .const (2 ^ 31) (.load 0 .four (.op 0 1 0 .done))

/-- With the argument `2 ^ 32 - 1` and one page of memory, `loadStale` reads four gigabytes behind
the base of memory.  With 40000 pages `loadHigh` reads two gigabytes before it. -/
theorem accesses_outOfBounds :
    (∃ code, compileFunc (sampleEnv 1) 0 loadStale = some code
      ∧ ∃ t ∈ (exec (sampleEnv 1) sampleWorld 9 code (sampleMachine 1 (2 ^ 32 - 1))).machine.log,
        t.code.check = .elided ∧ t.first = 2 ^ 32 - 1 ∧ ¬ t.InBounds)
    ∧ ∃ code, compileFunc (sampleEnv 40000) 0 loadHigh = some code
      ∧ ∃ t ∈ (exec (sampleEnv 40000) sampleWorld 9 code (sampleMachine 40000 0)).machine.log,
        t.first = - 2 ^ 31 ∧ ¬ t.InBounds := by
  refine ⟨⟨((compileFunc (sampleEnv 1) 0 loadStale).getD .done), by decide +kernel, ?_⟩,
    (compileFunc (sampleEnv 40000) 0 loadHigh).getD .done, by decide +kernel, ?_⟩
  · decide +kernel
  · decide +kernel

end Watz.Aot
