import Watz.Lib.History
import Watz.Verifier.Spec

/-!
# Sessions with the verifier

The entry points of the trusted application (`main.c`).  A client in the normal world opens a
session and then invokes commands in any order, with parameters of its choice.  All commands work
on the same context; a panic ends the application, and the client is told that its target is
dead.
-/

namespace Watz.Verifier

open Lib

/-! ## Commands -/

/-- The types of a command parameter. -/
inductive ParamType where
  | none
  | valueInput | valueOutput | valueInout
  | memrefInput | memrefOutput | memrefInout
deriving DecidableEq

/-- `TEE_PARAM_TYPES`. -/
structure ParamTypes where
  p0 : ParamType
  p1 : ParamType
  p2 : ParamType
  p3 : ParamType
deriving DecidableEq

/-- The commands of the verifier. -/
inductive Cmd where
  | bootstrapSecret
  | handleMsg0
  | prepareMsg1
  | handleMsg2
  | prepareMsg3
deriving DecidableEq

namespace Cmd

/-- `VERIFIER_COMMAND_*`. -/
def id : Cmd → UInt32
  | bootstrapSecret => 0
  | handleMsg0 => 1
  | prepareMsg1 => 2
  | handleMsg2 => 3
  | prepareMsg3 => 4

/-- The `switch` over the command identifier. -/
def ofId (n : UInt32) : Option Cmd :=
  [bootstrapSecret, handleMsg0, prepareMsg1, handleMsg2, prepareMsg3].find? (·.id = n)

/-- The parameters a command expects. -/
def paramTypes : Cmd → ParamTypes
  | bootstrapSecret => ⟨.memrefInput, .none, .none, .none⟩
  | handleMsg0 => ⟨.memrefInput, .none, .none, .none⟩
  | prepareMsg1 => ⟨.memrefOutput, .valueOutput, .none, .none⟩
  | handleMsg2 => ⟨.memrefInput, .valueOutput, .memrefOutput, .none⟩
  | prepareMsg3 => ⟨.memrefOutput, .memrefOutput, .none, .none⟩

end Cmd

/-- A command as the client invokes it.  `memref` is the content of the memory it shares as the
first parameter; the outcomes of the TEE calls made on the way come with the command. -/
structure Request where
  cmdId : UInt32
  paramTypes : ParamTypes
  memref : List UInt8
  env : Env Fn

/-- A command with its own parameters, during which every call succeeds. -/
def Request.calm (cmd : Cmd) (memref : List UInt8) (freshKey : ℕ) : Request where
  cmdId := cmd.id
  paramTypes := cmd.paramTypes
  memref := memref
  env := Env.calm Fn freshKey

/-- What a successful command hands back: the shared memory and the value of the second
parameter, where the command writes them. -/
structure Output where
  memref : Option (List UInt8)
  value : Option ℕ
deriving DecidableEq

section

variable (C : Crypto)

/-! ## Entry points -/

/-- `TA_OpenSessionEntryPoint`. -/
def taOpenSessionEntryPoint (env : Env Fn) (attestationKey : Point) (paramTypes : ParamTypes) :
    Prog Unit := do
  failIf (paramTypes ≠ ⟨.none, .none, .none, .none⟩) (.error .badParameters)
  importAttesterAttestationKey env attestationKey
  generateEcdsaKeypair C env

/-- `TA_ConfigureCustomSecret`.  The result of `TEE_Malloc` is used unchecked. -/
def taConfigureCustomSecret (env : Env Fn) (secret : List UInt8) : Prog Unit := do
  teeVoid env .configureCustomSecret .malloc 0
  modify fun s => { s with ctx.secret := secret }

/-- The body of `TA_InvokeCommandEntryPoint` for a command. -/
def runCmd (r : Request) : Cmd → Prog Output
  | .bootstrapSecret => do
    taConfigureCustomSecret r.env r.memref
    pure ⟨none, none⟩
  | .handleMsg0 => do
    handleMsg0 C r.env r.memref
    pure ⟨none, none⟩
  | .prepareMsg1 => do
    let msg1 ← prepareMsg1 C r.env r.memref.length
    pure ⟨some (msg1 ++ r.memref.drop msg1.length), some msg1.length⟩
  | .handleMsg2 => do
    handleMsg2 C r.env r.memref
    let s ← get
    pure ⟨none, some s.ctx.isQuoteValid.toNat⟩
  | .prepareMsg3 => do
    let s ← get
    let buffer ← prepareMsg3 C r.env r.memref s.ctx.secret
    pure ⟨some buffer, none⟩

/-- `TA_InvokeCommandEntryPoint`. -/
def taInvokeCommandEntryPoint (r : Request) : Prog Output :=
  match Cmd.ofId r.cmdId with
  | some cmd => do
    failIf (r.paramTypes ≠ cmd.paramTypes) (.error .badParameters)
    runCmd C r cmd
  | none => throw (.error .badParameters)

/-! ## Runs -/

/-- One command of a session, `none` being the state of an application that has panicked. -/
def step (st : Option State) (r : Request) : Except TeeError Output × Option State :=
  match st with
  | none => (.error .targetDead, none)
  | some s =>
    match taInvokeCommandEntryPoint C r s with
    | .ok out s' => (.ok out, some s')
    | .error (.error e) s' => (.error e, some s')
    | .error .panic _ => (.error .targetDead, none)

/-- The states a session can start in. -/
def Opened (attestationKey : Point) (s : State) : Prop :=
  ∃ env paramTypes,
    taOpenSessionEntryPoint C env attestationKey paramTypes State.zero = .ok () s

/-- One entry of the history of a session. -/
abbrev Event := Entry (Option State) Request (Except TeeError Output)

/-- The history of a session. -/
def session (s : State) (rs : List Request) : List Event := history (step C) (some s) rs

/-- The entry is a command with the given identifier. -/
def Event.IsCmd (e : Event) (cmd : Cmd) : Prop := e.input.cmdId = cmd.id

/-- The entry is a command with the given identifier that returns `TEE_SUCCESS`. -/
def Event.Succeeds (e : Event) (cmd : Cmd) : Prop := e.IsCmd cmd ∧ ∃ out, e.output = .ok out

end

section

variable {C : Crypto} {r : Request} {s s' : State}

lemma taOpenSessionEntryPoint_eq_ok {env : Env Fn} {attestationKey : Point}
    {paramTypes : ParamTypes} {u : Unit} :
    taOpenSessionEntryPoint C env attestationKey paramTypes s = .ok u s' ↔
      paramTypes = ⟨.none, .none, .none, .none⟩
        ∧ CallsOk Fn.sites env [.importAttesterAttestationKey, .generateEcdsaKeypair]
        ∧ s.opened C attestationKey env.freshKey = s' := by
  rw [taOpenSessionEntryPoint, failIf_bind_eq_ok, not_not]
  simp only [bind_eq_ok, importAttesterAttestationKey_eq_ok, generateEcdsaKeypair_eq_ok,
    callsOk_cons, callsOk_nil]
  constructor
  · rintro ⟨htypes, _, _, ⟨h1, rfl⟩, h2, rfl⟩
    exact ⟨htypes, ⟨h1, h2, trivial⟩, rfl⟩
  · rintro ⟨htypes, ⟨h1, h2, -⟩, rfl⟩
    exact ⟨htypes, (), _, ⟨h1, rfl⟩, h2, rfl⟩

lemma opened_of_allOk {env : Env Fn} (henv : env.AllOk) (attestationKey : Point) :
    Opened C attestationKey (State.zero.opened C attestationKey env.freshKey) :=
  ⟨env, ⟨.none, .none, .none, .none⟩,
    taOpenSessionEntryPoint_eq_ok.mpr ⟨rfl, callsOk_of_allOk henv _, rfl⟩⟩

lemma Cmd.eq_id_of_ofId {n : UInt32} {cmd : Cmd} (h : Cmd.ofId n = some cmd) : n = cmd.id := by
  have hid := List.find?_some h
  exact (of_decide_eq_true hid).symm

lemma Cmd.ofId_id (cmd : Cmd) : Cmd.ofId cmd.id = some cmd := by
  cases cmd <;> rfl

lemma taInvokeCommandEntryPoint_eq_runCmd {cmd : Cmd} (hid : r.cmdId = cmd.id)
    (htypes : r.paramTypes = cmd.paramTypes) :
    taInvokeCommandEntryPoint C r s = runCmd C r cmd s := by
  have hpass : failIf (r.paramTypes ≠ cmd.paramTypes) (Stop.error .badParameters) s = .ok () s :=
    failIf_eq_ok.mpr ⟨not_not.mpr htypes, rfl⟩
  rw [taInvokeCommandEntryPoint, hid, Cmd.ofId_id]
  exact bind_of_ok hpass

lemma taInvokeCommandEntryPoint_cases (C : Crypto) (r : Request) (s : State) :
    (∃ e, taInvokeCommandEntryPoint C r s = .error e s)
      ∨ ∃ cmd : Cmd, r.cmdId = cmd.id ∧ r.paramTypes = cmd.paramTypes
        ∧ taInvokeCommandEntryPoint C r s = runCmd C r cmd s := by
  cases hid : Cmd.ofId r.cmdId with
  | none =>
    rw [taInvokeCommandEntryPoint, hid]
    exact .inl ⟨_, rfl⟩
  | some cmd =>
    by_cases htypes : r.paramTypes = cmd.paramTypes
    · have hcmd := Cmd.eq_id_of_ofId hid
      exact .inr ⟨cmd, hcmd, htypes, taInvokeCommandEntryPoint_eq_runCmd hcmd htypes⟩
    · rw [taInvokeCommandEntryPoint, hid]
      exact .inl ⟨_, bind_of_error (failIf_of_pos htypes)⟩

/-- The state after a command is the one its entry point leaves, unless it panics. -/
lemma final_of_step (h : (step C (some s) r).2 = some s') :
    final (taInvokeCommandEntryPoint C r s) = s' := by
  rw [step] at h
  cases hinv : taInvokeCommandEntryPoint C r s with
  | ok out t =>
    simp only [hinv, Option.some.injEq] at h
    exact h
  | error stop t =>
    cases stop with
    | error e =>
      simp only [hinv, Option.some.injEq] at h
      exact h
    | panic => simp only [hinv, reduceCtorEq] at h

lemma step_none (C : Crypto) (r : Request) : step C none r = (.error .targetDead, none) := rfl

lemma exists_output_of_isOk {x : Except TeeError Output} (h : x.isOk = true) :
    ∃ out, x = .ok out := by
  cases x with
  | ok out => exact ⟨out, rfl⟩
  | error e => exact absurd h (by simp [Except.isOk, Except.toBool])

lemma step_of_ok {out : Output} (h : taInvokeCommandEntryPoint C r s = .ok out s') :
    step C (some s) r = (.ok out, some s') := by
  simp only [step, h]

lemma final_of_keeps {I : State → Prop}
    (hcmd : ∀ cmd : Cmd, r.cmdId = cmd.id → Keeps I (runCmd C r cmd)) (hs : I s) :
    I (final (taInvokeCommandEntryPoint C r s)) := by
  rcases taInvokeCommandEntryPoint_cases C r s with ⟨e, he⟩ | ⟨cmd, hid, -, hrun⟩
  · rw [he]
    exact hs
  · rw [hrun]
    exact (hcmd cmd hid).final_of hs

/-- What every command of a session keeps holds after each of its requests, also after one that
ends the application. -/
lemma final_of_mem_session {I : State → Prop} {rs : List Request} (hs : I s)
    (hcmds : ∀ r ∈ rs, ∀ cmd : Cmd, r.cmdId = cmd.id → Keeps I (runCmd C r cmd)) :
    ∀ e ∈ session C s rs, ∀ t ∈ e.before, I (final (taInvokeCommandEntryPoint C e.input t)) := by
  have hstep : ∀ (st : Option State) (r : Request), (∀ t ∈ st, I t) →
      (∀ cmd : Cmd, r.cmdId = cmd.id → Keeps I (runCmd C r cmd)) →
      ∀ t ∈ (step C st r).2, I t := by
    intro st r hst hcmd t ht
    cases st with
    | none => simp [step_none] at ht
    | some t₀ =>
      rw [← final_of_step ht]
      exact final_of_keeps hcmd (hst t₀ rfl)
  have hinit : ∀ t ∈ some s, I t := by
    intro t ht
    obtain rfl := Option.mem_some.mp ht
    exact hs
  have hmem : ∀ e ∈ session C s rs, ∀ cmd : Cmd, e.input.cmdId = cmd.id →
      Keeps I (runCmd C e.input cmd) := fun e he => hcmds _ (input_mem_of_mem_history he)
  intro e he t ht
  exact final_of_keeps (hmem e he) (invariant_before hstep hinit hmem e he t ht)

end

end Watz.Verifier
