import Watz.Protocol.HonestRun

/-!
# The host of the verifier

The process in the normal world that accepts the connection of an attester and passes its messages
to the trusted application (`host/main.c`).  It has one buffer for all four messages, whose size
follows from the size of the secret, and it fetches each message with a single `read`.
-/

namespace Watz.Host

open Lib Verifier
open List (drop_length length_append length_drop length_replicate replicate)

/-! ## Serving a connection -/

/-- The process while it serves a connection. -/
structure Connection where
  /-- The trusted application. -/
  ta : Option State
  /-- `buff`, of `buff_size` bytes. -/
  buff : List UInt8
  /-- The bytes the attester has sent and no `read` has fetched. -/
  stream : List UInt8
  /-- What the attester sends after each message it gets. -/
  replies : List (List UInt8)
  /-- The commands invoked so far, with the buffer each of them was given. -/
  calls : List (Cmd × List UInt8)
  /-- What has been written to the socket. -/
  written : List (List UInt8)

/-- A connection on which the attester has sent `msg0` and will answer `msg1` with `msg2`. -/
def Connection.accepted (s : State) (msg0 msg2 : List UInt8) : Connection where
  ta := some s
  buff := []
  stream := msg0
  replies := [msg2]
  calls := []
  written := []

/-- A function of the host.  It may end the process with `errx`. -/
abbrev Prog (α : Type) := EStateM Unit Connection α

/-- `buff_size`, a sum of 32-bit integers. -/
def buffSize (secretSize : UInt32) : ℕ := (secretSize.toNat + Msg3.layout.size + 16) % 2 ^ 32

/-- `read` into the buffer, at most `n` bytes being there when it is called.  The result is not
looked at. -/
def readSocket (n : ℕ) : Prog Unit := modify fun c =>
  let bytes := c.stream.take (min n c.buff.length)
  { c with buff := bytes ++ c.buff.drop bytes.length, stream := c.stream.drop bytes.length }

/-- `write` of some bytes, which the attester answers. -/
def writeSocket (bytes : List UInt8) : Prog Unit := modify fun c =>
  { c with
    written := c.written ++ [bytes]
    stream := c.stream ++ c.replies.headD []
    replies := c.replies.tail }

section

variable (C : Crypto) (envs : Cmd → Env Fn)

/-- `TEEC_InvokeCommand` with the buffer as the first parameter, as in `receive_msg0`,
`prepare_msg1`, `receive_msg2` and `prepare_msg3`. -/
def invoke (cmd : Cmd) : Prog Output := do
  let c ← get
  match step C c.ta ⟨cmd.id, cmd.paramTypes, c.buff, envs cmd⟩ with
  | (.ok out, ta) =>
    set { c with ta := ta, calls := c.calls ++ [(cmd, c.buff)], buff := out.memref.getD c.buff }
    pure out
  | (.error _, ta) =>
    set { c with ta := ta, calls := c.calls ++ [(cmd, c.buff)] }
    throw ()

/-- `handle_connection`, `n₀` and `n₂` bytes being there at most for its two calls of `read`. -/
def handleConnection (secretSize : UInt32) (n₀ n₂ : ℕ) : Prog Unit := do
  modify fun c => { c with buff := replicate (buffSize secretSize) 0 }
  readSocket n₀
  let _ ← invoke C envs .handleMsg0
  let msg1 ← invoke C envs .prepareMsg1
  let c ← get
  writeSocket (c.buff.take (msg1.value.getD 0))
  readSocket n₂
  let _ ← invoke C envs .handleMsg2
  let _ ← invoke C envs .prepareMsg3
  let c ← get
  writeSocket c.buff

/-- The trusted application with the messages themselves and with buffers of the size of its own
messages. -/
def relay (msg0 msg2 : List UInt8) : Verifier.Prog (List UInt8 × List UInt8) := do
  handleMsg0 C (envs .handleMsg0) msg0
  let msg1 ← prepareMsg1 C (envs .prepareMsg1) Msg1.layout.size
  handleMsg2 C (envs .handleMsg2) msg2
  let s ← get
  let msg3 ← prepareMsg3 C (envs .prepareMsg3)
    (replicate (Msg3.layout.size + s.ctx.secret.length) 0) s.ctx.secret
  pure (msg1, msg3)

end

/-- The buffer a command should be given. -/
def Suits (msg0 msg2 : List UInt8) (secretSize : UInt32) : Cmd → List UInt8 → Prop
  | .bootstrapSecret, _ => True
  | .handleMsg0, buff => msg0 <+: buff
  | .prepareMsg1, buff => Msg1.layout.size ≤ buff.length
  | .handleMsg2, buff => msg2 <+: buff
  | .prepareMsg3, buff => Msg3.layout.size + secretSize.toNat ≤ buff.length

/-- Every command was given a buffer that suits it. -/
def HandsOver (msg0 msg2 : List UInt8) (secretSize : UInt32) (c : Connection) : Prop :=
  ∀ call ∈ c.calls, Suits msg0 msg2 secretSize call.1 call.2

/-- The host is a faithful transport for secrets of a size and reads that fetch at most `n₀` and
`n₂` bytes: whatever the attester sends, the trusted application is given the messages and buffers
that are large enough; and if it accepts the messages, the attester is sent all it produces. -/
def Faithful (secretSize : UInt32) (n₀ n₂ : ℕ) : Prop :=
  ∀ (C : Crypto) (envs : Cmd → Env Fn) (s : State)
    (msg0 msg2 : List UInt8), s.ctx.secret.length = secretSize.toNat →
    msg0.length = Msg0.layout.size → msg2.length = Msg2.layout.size →
      HandsOver msg0 msg2 secretSize
        (final (handleConnection C envs secretSize n₀ n₂ (.accepted s msg0 msg2)))
      ∧ ∀ msg1 msg3 s', relay C envs msg0 msg2 s = .ok (msg1, msg3) s' →
          ∃ c rest, handleConnection C envs secretSize n₀ n₂ (.accepted s msg0 msg2) = .ok () c
            ∧ c.written = [msg1, msg3 ++ rest] ∧ c.ta = some s'

/-! ## What one call does -/

/-- The buffer after a message has been written to its beginning. -/
def overwrite (msg buff : List UInt8) : List UInt8 := msg ++ buff.drop msg.length

variable {buff msg1 : List UInt8} {c : Connection} {cmd : Cmd} {out : Output}
  {s' : State}

lemma overwrite_length {msg : List UInt8} (h : msg.length ≤ buff.length) :
    (overwrite msg buff).length = buff.length := by
  rw [overwrite, length_append, length_drop]
  omega

lemma take_overwrite (msg buff : List UInt8) : (overwrite msg buff).take msg.length = msg :=
  List.take_left' rfl

section

variable {C : Crypto} {envs : Cmd → Env Fn}

lemma readSocket_eq (n : ℕ) (c : Connection) :
    readSocket n c = .ok () { c with
      buff := c.stream.take (min n c.buff.length)
        ++ c.buff.drop (c.stream.take (min n c.buff.length)).length
      stream := c.stream.drop (c.stream.take (min n c.buff.length)).length } := rfl

lemma invoke_of_ok {ta : Option State}
    (h : step C c.ta ⟨cmd.id, cmd.paramTypes, c.buff, envs cmd⟩ = (.ok out, ta)) :
    invoke C envs cmd c = .ok out { c with
      ta := ta, calls := c.calls ++ [(cmd, c.buff)], buff := out.memref.getD c.buff } := by
  rw [invoke]
  refine (bind_of_ok (get_eq_ok.mpr ⟨rfl, rfl⟩)).trans ?_
  simp only [h]
  rfl

lemma invoke_of_error {e : TeeError} {ta : Option State}
    (h : step C c.ta ⟨cmd.id, cmd.paramTypes, c.buff, envs cmd⟩ = (.error e, ta)) :
    invoke C envs cmd c = .error () { c with
      ta := ta, calls := c.calls ++ [(cmd, c.buff)] } := by
  rw [invoke]
  refine (bind_of_ok (get_eq_ok.mpr ⟨rfl, rfl⟩)).trans ?_
  simp only [h]
  rfl

lemma invoke_of_runCmd {s : State} (hta : c.ta = some s)
    (h : runCmd C ⟨cmd.id, cmd.paramTypes, c.buff, envs cmd⟩ cmd s = .ok out s') :
    invoke C envs cmd c = .ok out { c with
      ta := some s', calls := c.calls ++ [(cmd, c.buff)], buff := out.memref.getD c.buff } := by
  refine invoke_of_ok ?_
  rw [hta]
  exact step_of_ok ((taInvokeCommandEntryPoint_eq_runCmd rfl rfl).trans h)

lemma invoke_handleMsg0 {s : State} (hta : c.ta = some s)
    (h : handleMsg0 C (envs .handleMsg0) c.buff s = .ok () s') :
    invoke C envs .handleMsg0 c = .ok ⟨none, none⟩ { c with
      ta := some s', calls := c.calls ++ [(.handleMsg0, c.buff)] } :=
  invoke_of_runCmd hta (bind_eq_ok.mpr ⟨(), s', h, rfl⟩)

lemma invoke_prepareMsg1 {s : State} (hta : c.ta = some s)
    (h : prepareMsg1 C (envs .prepareMsg1) c.buff.length s = .ok msg1 s') :
    invoke C envs .prepareMsg1 c = .ok ⟨some (overwrite msg1 c.buff), some msg1.length⟩
      { c with
        ta := some s'
        calls := c.calls ++ [(.prepareMsg1, c.buff)]
        buff := overwrite msg1 c.buff } :=
  invoke_of_runCmd hta (bind_eq_ok.mpr ⟨msg1, s', h, rfl⟩)

lemma length_memref_of_runCmd {r : Request} {s : State}
    (h : runCmd C r cmd s = .ok out s') :
    (out.memref.getD r.memref).length = r.memref.length := by
  cases cmd with
  | bootstrapSecret =>
    obtain ⟨_, _, -, hout⟩ := bind_eq_ok.mp h
    obtain ⟨rfl, -⟩ := pure_eq_ok.mp hout
    rfl
  | handleMsg0 =>
    obtain ⟨_, _, -, hout⟩ := bind_eq_ok.mp h
    obtain ⟨rfl, -⟩ := pure_eq_ok.mp hout
    rfl
  | prepareMsg1 =>
    obtain ⟨msg1, _, hmsg1, hout⟩ := bind_eq_ok.mp h
    obtain ⟨rfl, -⟩ := pure_eq_ok.mp hout
    obtain ⟨hlen, -, data, d, k, data', -, -, -, -, rfl, -⟩ := prepareMsg1_eq_ok.mp hmsg1
    simp only [Option.getD_some, length_append, length_drop, Layout.enc_length,
      Msg1.layout_size]
    omega
  | handleMsg2 =>
    obtain ⟨_, _, -, hget⟩ := bind_eq_ok.mp h
    have hout := get_bind_eq_ok.mp hget
    obtain ⟨rfl, -⟩ := pure_eq_ok.mp hout
    rfl
  | prepareMsg3 =>
    obtain ⟨buffer, _, hmsg3, hout⟩ := bind_eq_ok.mp (get_bind_eq_ok.mp h)
    obtain ⟨rfl, -⟩ := pure_eq_ok.mp hout
    obtain ⟨hlen, -, k, -, rfl, -⟩ := prepareMsg3_eq_ok.mp hmsg3
    simp only [Option.getD_some, length_append, length_drop, msg3Image_length]
    omega

lemma length_memref_of_step {r : Request} {st st' : Option State}
    (h : step C st r = (.ok out, st')) :
    (out.memref.getD r.memref).length = r.memref.length := by
  cases st with
  | none => simp [step_none] at h
  | some s =>
    rcases taInvokeCommandEntryPoint_cases C r s with ⟨stop, he⟩ | ⟨cmd, -, -, hrun⟩
    · cases stop <;> simp [step, he] at h
    · rw [step, hrun] at h
      cases hcmd : runCmd C r cmd s with
      | ok out' s' =>
        simp only [hcmd, Prod.mk.injEq, Except.ok.injEq] at h
        rw [← h.1]
        exact length_memref_of_runCmd hcmd
      | error stop s' => cases stop <;> simp [hcmd] at h

end

/-! ## The buffers -/

section

variable {C : Crypto} {envs : Cmd → Env Fn} {msg0 msg2 : List UInt8}
  {secretSize : UInt32} {size : ℕ} {stream : List UInt8} {replies : List (List UInt8)}

/-- The host between two calls: what it has handed over so far was right, and the buffer has its
size. -/
structure Ready (msg0 msg2 : List UInt8) (secretSize : UInt32) (size : ℕ) (stream : List UInt8)
    (replies : List (List UInt8)) (c : Connection) : Prop where
  handsOver : HandsOver msg0 msg2 secretSize c
  length_buff : c.buff.length = size
  stream_eq : c.stream = stream
  replies_eq : c.replies = replies

lemma handsOver_of_calls {c' : Connection} (h : HandsOver msg0 msg2 secretSize c)
    (hsuits : Suits msg0 msg2 secretSize cmd c.buff)
    (hcalls : c'.calls = c.calls ++ [(cmd, c.buff)]) : HandsOver msg0 msg2 secretSize c' := by
  intro call hcall
  rw [hcalls, List.mem_append, List.mem_singleton] at hcall
  rcases hcall with hcall | rfl
  · exact h call hcall
  · exact hsuits

lemma triple_invoke (cmd : Cmd) :
    Triple (fun c => Ready msg0 msg2 secretSize size stream replies c
        ∧ Suits msg0 msg2 secretSize cmd c.buff) (invoke C envs cmd)
      (fun _ => Ready msg0 msg2 secretSize size stream replies)
      (HandsOver msg0 msg2 secretSize) := by
  rintro c ⟨hready, hsuits⟩
  rcases hstep : step C c.ta ⟨cmd.id, cmd.paramTypes, c.buff, envs cmd⟩ with ⟨reply, ta⟩
  cases reply with
  | ok out =>
    rw [invoke_of_ok hstep]
    refine ⟨fun _ _ h => ?_, fun _ _ h => nomatch h⟩
    obtain ⟨-, rfl⟩ := EStateM.Result.ok.inj h
    exact ⟨handsOver_of_calls hready.handsOver hsuits rfl,
      (length_memref_of_step hstep).trans hready.length_buff, hready.stream_eq, hready.replies_eq⟩
  | error e =>
    rw [invoke_of_error hstep]
    refine ⟨fun _ _ h => (nomatch h), fun _ _ h => ?_⟩
    obtain ⟨-, rfl⟩ := EStateM.Result.error.inj h
    exact handsOver_of_calls hready.handsOver hsuits rfl

variable {n : ℕ}

/-- A `read` that fetches a whole message. -/
lemma triple_readSocket {msg : List UInt8} (hn : msg.length ≤ n) (hsize : msg.length ≤ size) :
    Triple (Ready msg0 msg2 secretSize size msg replies) (readSocket n)
      (fun _ c => Ready msg0 msg2 secretSize size [] replies c ∧ msg <+: c.buff)
      (HandsOver msg0 msg2 secretSize) := by
  refine Triple.modify fun c hc => ?_
  have htake : c.stream.take (min n c.buff.length) = msg := by
    rw [hc.stream_eq, hc.length_buff]
    exact List.take_of_length_le (le_min hn hsize)
  refine ⟨⟨hc.handsOver, ?_, ?_, hc.replies_eq⟩, ?_⟩
  · have hlen := hc.length_buff
    simp only [htake, length_append, length_drop]
    omega
  · simp only [htake]
    rw [hc.stream_eq, drop_length]
  · simp only [htake]
    exact List.prefix_append _ _

lemma triple_writeSocket (bytes : List UInt8) (msg : List UInt8) :
    Triple (Ready msg0 msg2 secretSize size [] (msg :: replies)) (writeSocket bytes)
      (fun _ => Ready msg0 msg2 secretSize size msg replies)
      (HandsOver msg0 msg2 secretSize) := by
  refine Triple.modify fun c hc => ⟨hc.handsOver, hc.length_buff, ?_, ?_⟩
  · simp [hc.stream_eq, hc.replies_eq]
  · simp [hc.replies_eq]

lemma room_of_buffSize (h : 288 ≤ buffSize secretSize) :
    buffSize secretSize = 68 + secretSize.toNat := by
  have hlt := secretSize.toNat_lt
  rw [buffSize, Msg3.layout_size] at h ⊢
  omega

lemma handsOver_handleConnection {n₀ n₂ : ℕ} (h0 : msg0.length = 72) (h2 : msg2.length = 288)
    (hn0 : 72 ≤ n₀) (hn2 : 288 ≤ n₂) (hsize : 288 ≤ buffSize secretSize) (s : State) :
    HandsOver msg0 msg2 secretSize
      (final (handleConnection C envs secretSize n₀ n₂ (.accepted s msg0 msg2))) := by
  have hroom := room_of_buffSize hsize
  have htriple : Triple (fun c => c = Connection.accepted s msg0 msg2)
      (handleConnection C envs secretSize n₀ n₂)
      (fun _ => HandsOver msg0 msg2 secretSize) (HandsOver msg0 msg2 secretSize) := by
    rw [handleConnection]
    refine Triple.bind (Triple.modify
      (Q := fun _ => Ready msg0 msg2 secretSize (buffSize secretSize) msg0 [msg2]) ?_) fun _ => ?_
    · rintro _ rfl
      exact ⟨by simp [HandsOver, Connection.accepted], length_replicate .., rfl, rfl⟩
    refine Triple.bind (triple_readSocket (by omega) (by omega)) fun _ => ?_
    refine Triple.bind (triple_invoke .handleMsg0) fun _ => ?_
    refine Triple.bind ((triple_invoke .prepareMsg1).conseq (fun c hc => ⟨hc, ?_⟩)
      (fun _ _ hc => hc) fun _ hc => hc) fun _ => ?_
    · rw [Suits, hc.length_buff, Msg1.layout_size]
      omega
    refine Triple.bind (Triple.get fun _ hc => hc) fun c => ?_
    refine Triple.bind (triple_writeSocket _ msg2) fun _ => ?_
    refine Triple.bind (triple_readSocket (by omega) (by omega)) fun _ => ?_
    refine Triple.bind (triple_invoke .handleMsg2) fun _ => ?_
    refine Triple.bind ((triple_invoke .prepareMsg3).conseq (fun c hc => ⟨hc, ?_⟩)
      (fun _ _ hc => hc) fun _ hc => hc) fun _ => ?_
    · rw [Suits, hc.length_buff, Msg3.layout_size]
      omega
    refine Triple.bind (Triple.get fun _ hc => hc) fun c => ?_
    exact Triple.modify fun _ hc => hc.handsOver
  obtain ⟨hok, herr⟩ := htriple _ rfl
  cases h : handleConnection C envs secretSize n₀ n₂ (.accepted s msg0 msg2) with
  | ok _ c => exact hok _ _ h
  | error _ c => exact herr _ _ h

/-! ## The messages -/

lemma handleMsg0_overwrite {env : Env Fn} (h : msg0.length = Msg0.layout.size)
    (buff : List UInt8) :
    handleMsg0 C env (overwrite msg0 buff) = handleMsg0 C env msg0 := by
  have hstore : storeMsg0 (overwrite msg0 buff) = storeMsg0 msg0 := by
    rw [overwrite, storeMsg0, storeMsg0, Msg0.layout.dec_append h,
      failIf_of_neg (by rw [length_append]; omega), failIf_of_neg (by omega)]
  rw [handleMsg0, hstore, handleMsg0]

lemma handleMsg2_overwrite {env : Env Fn} (h : msg2.length = Msg2.layout.size)
    (buff : List UInt8) :
    handleMsg2 C env (overwrite msg2 buff) = handleMsg2 C env msg2 := by
  have hstore : storeMsg2 (overwrite msg2 buff) = storeMsg2 msg2 := by
    rw [overwrite, storeMsg2, storeMsg2, Msg2.layout.dec_append h,
      failIf_of_neg (by rw [length_append]; omega), failIf_of_neg (by omega)]
  rw [handleMsg2, hstore, handleMsg2]

/-- A `read` that fetches a whole message. -/
lemma readSocket_of_le (hn : c.stream.length ≤ n) (hsize : c.stream.length ≤ c.buff.length) :
    readSocket n c = .ok () { c with
      buff := c.stream ++ c.buff.drop c.stream.length, stream := [] } := by
  rw [readSocket_eq, List.take_of_length_le (le_min hn hsize), drop_length]

lemma secret_of_relay {s s₁ s₂ s₃ : State} {u : Unit}
    (h0 : handleMsg0 C (envs .handleMsg0) msg0 s = .ok u s₁)
    (h1 : prepareMsg1 C (envs .prepareMsg1) n s₁ = .ok msg1 s₂)
    (h2 : handleMsg2 C (envs .handleMsg2) msg2 s₂ = .ok u s₃) :
    s₃.ctx.secret = s.ctx.secret := by
  obtain ⟨-, -, x, y, key, -, -, -, rfl⟩ := handleMsg0_eq_ok.mp h0
  obtain ⟨-, -, data, d, k, data', -, -, -, -, -, rfl⟩ := prepareMsg1_eq_ok.mp h1
  obtain ⟨-, -, -, rfl⟩ := handleMsg2_eq_ok.mp h2
  rfl

/-- The buffer of a connection into which the first message was read. -/
def firstBuff (secretSize : UInt32) (msg : List UInt8) : List UInt8 :=
  overwrite msg (replicate (buffSize secretSize) 0)

lemma firstBuff_length (h : msg0.length ≤ buffSize secretSize) :
    (firstBuff secretSize msg0).length = buffSize secretSize := by
  rw [firstBuff, overwrite_length (h.trans (length_replicate ..).ge), length_replicate]

lemma handleConnection_of_runs {n₀ n₂ : ℕ} {s s₁ s₂ s₃ s₄ : State}
    {b₀ b₁ b₂ b₃ : List UInt8} {k : ℕ} (hn0 : msg0.length ≤ n₀) (hn2 : msg2.length ≤ n₂)
    (hsize0 : msg0.length ≤ buffSize secretSize) (hsize2 : msg2.length ≤ b₁.length)
    (hb0 : firstBuff secretSize msg0 = b₀) (hb2 : overwrite msg2 b₁ = b₂)
    (h₀ : runCmd C ⟨1, Cmd.handleMsg0.paramTypes, b₀, envs .handleMsg0⟩
      .handleMsg0 s = .ok ⟨none, none⟩ s₁)
    (h₁ : runCmd C ⟨2, Cmd.prepareMsg1.paramTypes, b₀, envs .prepareMsg1⟩
      .prepareMsg1 s₁ = .ok ⟨some b₁, some k⟩ s₂)
    (h₂ : runCmd C ⟨3, Cmd.handleMsg2.paramTypes, b₂, envs .handleMsg2⟩
      .handleMsg2 s₂ = .ok out s₃) (hout : out.memref = none)
    (h3 : runCmd C ⟨4, Cmd.prepareMsg3.paramTypes, b₂, envs .prepareMsg3⟩
      .prepareMsg3 s₃ = .ok ⟨some b₃, none⟩ s₄) :
    handleConnection C envs secretSize n₀ n₂ (.accepted s msg0 msg2) = .ok () {
      ta := some s₄
      buff := b₃
      stream := []
      replies := []
      calls := [(.handleMsg0, b₀), (.prepareMsg1, b₀), (.handleMsg2, b₂), (.prepareMsg3, b₂)]
      written := [b₁.take k, b₃] } := by
  subst hb0 hb2
  rw [handleConnection]
  refine (bind_of_ok rfl).trans ?_
  refine (bind_of_ok (readSocket_of_le hn0 ?_)).trans ?_
  · exact hsize0.trans (length_replicate ..).ge
  refine (bind_of_ok (invoke_of_runCmd rfl h₀)).trans ?_
  refine (bind_of_ok (invoke_of_runCmd rfl h₁)).trans ?_
  refine (bind_of_ok (get_eq_ok.mpr ⟨rfl, rfl⟩)).trans ?_
  refine (bind_of_ok rfl).trans ?_
  refine (bind_of_ok (readSocket_of_le hn2 hsize2)).trans ?_
  refine (bind_of_ok (invoke_of_runCmd rfl h₂)).trans ?_
  rw [hout]
  refine (bind_of_ok (invoke_of_runCmd rfl h3)).trans ?_
  exact bind_of_ok (get_eq_ok.mpr ⟨rfl, rfl⟩)

lemma exists_handleConnection {n₀ n₂ : ℕ} {s : State} {msg3 : List UInt8}
    (hsecret : s.ctx.secret.length = secretSize.toNat) (h0 : msg0.length = 72)
    (h2 : msg2.length = 288) (hn0 : 72 ≤ n₀) (hn2 : 288 ≤ n₂) (hsize : 288 ≤ buffSize secretSize)
    (hrelay : relay C envs msg0 msg2 s = .ok (msg1, msg3) s') :
    ∃ c rest, handleConnection C envs secretSize n₀ n₂ (.accepted s msg0 msg2) = .ok () c
      ∧ c.written = [msg1, msg3 ++ rest] ∧ c.ta = some s' := by
  have hroom := room_of_buffSize hsize
  obtain ⟨_, s₁, hmsg0, hrelay⟩ := bind_eq_ok.mp hrelay
  obtain ⟨msg1, s₂, hmsg1, hrelay⟩ := bind_eq_ok.mp hrelay
  obtain ⟨_, s₃, hmsg2, hrelay⟩ := bind_eq_ok.mp hrelay
  obtain ⟨msg3, s₄, hmsg3, hrelay⟩ := bind_eq_ok.mp (get_bind_eq_ok.mp hrelay)
  obtain ⟨hpair, rfl⟩ := pure_eq_ok.mp hrelay
  obtain ⟨rfl, rfl⟩ := Prod.mk.inj hpair
  have hsecret3 := congrArg List.length (secret_of_relay hmsg0 hmsg1 hmsg2)
  rw [hsecret] at hsecret3
  obtain ⟨-, hcalls1, hrest1⟩ := prepareMsg1_eq_ok.mp hmsg1
  have hlen1 : msg1.length = 224 := by
    obtain ⟨data, d, k, data', -, -, -, -, rfl, -⟩ := hrest1
    rw [Layout.enc_length, Msg1.layout_size]
  obtain ⟨-, hcalls3, k, hk, hout3, hs4⟩ := prepareMsg3_eq_ok.mp hmsg3
  -- a buffer of exactly the size of `msg3` holds nothing else
  rw [Msg3.layout_size, List.drop_eq_nil_of_le (by simp), List.append_nil] at hout3
  have hlen_b0 := firstBuff_length (h0.trans_le ((by decide : 72 ≤ 288).trans hsize))
  generalize hb0 : firstBuff secretSize msg0 = b₀ at hlen_b0
  have hlen_b1 : (overwrite msg1 b₀).length = b₀.length := overwrite_length (by omega)
  have hlen_b2 : (overwrite msg2 (overwrite msg1 b₀)).length = (overwrite msg1 b₀).length :=
    overwrite_length (by omega)
  have hmsg3' := prepareMsg3_eq_ok (C := C).mpr ⟨(by omega : 52 + s₃.ctx.secret.length
    ≤ (overwrite msg2 (overwrite msg1 b₀)).length), hcalls3, k, hk, rfl, hs4⟩
  have hroom1 : 224 ≤ b₀.length := by omega
  have hroom2 : msg2.length ≤ (overwrite msg1 b₀).length := by omega
  refine ⟨_, (overwrite msg2 (overwrite msg1 b₀)).drop (52 + s₃.ctx.secret.length),
    handleConnection_of_runs (h0.trans_le hn0) (h2.trans_le hn2) (by omega) hroom2 hb0 rfl
    (bind_eq_ok.mpr ⟨(), s₁, by rw [← hb0, firstBuff, handleMsg0_overwrite h0, hmsg0], rfl⟩)
    (bind_eq_ok.mpr ⟨msg1, s₂, prepareMsg1_eq_ok.mpr ⟨hroom1, hcalls1, hrest1⟩, rfl⟩)
    (bind_eq_ok.mpr ⟨(), s₃, by rw [handleMsg2_overwrite h2, hmsg2], rfl⟩) rfl
    (get_bind_eq_ok.mpr (bind_eq_ok.mpr ⟨_, s₄, hmsg3', rfl⟩)), ?_, rfl⟩
  dsimp only
  rw [take_overwrite, hout3]

/-! ## When the transport fails -/

/-- `handle_connection` after `receive_msg2`. -/
def afterMsg2 (C : Crypto) (envs : Cmd → Env Fn) : Prog Unit := do
  let _ ← invoke C envs .prepareMsg3
  let c ← get
  writeSocket c.buff

/-- `handle_connection` after `prepare_msg1`. -/
def afterMsg1 (C : Crypto) (envs : Cmd → Env Fn) (n₂ : ℕ)
    (msg1 : Output) : Prog Unit := do
  let c ← get
  writeSocket (c.buff.take (msg1.value.getD 0))
  readSocket n₂
  let _ ← invoke C envs .handleMsg2
  afterMsg2 C envs

lemma handleConnection_accepted (n₀ n₂ : ℕ) (s : State) :
    handleConnection C envs secretSize n₀ n₂ (.accepted s msg0 msg2)
      = (invoke C envs .handleMsg0 >>= fun _ => invoke C envs .prepareMsg1 >>= afterMsg1 C envs n₂)
        ⟨some s, firstBuff secretSize (msg0.take (min n₀ (buffSize secretSize))),
          msg0.drop (msg0.take (min n₀ (buffSize secretSize))).length, [msg2], [], []⟩ := by
  rw [handleConnection]
  refine (bind_of_ok rfl).trans ((bind_of_ok (readSocket_eq ..)).trans ?_)
  simp only [length_replicate, Connection.accepted]
  rfl

lemma afterMsg1_eq (hstream : c.stream = []) (hreplies : c.replies = [msg2]) (n₂ : ℕ)
    (msg1 : Output) :
    afterMsg1 C envs n₂ msg1 c = (invoke C envs .handleMsg2 >>= fun _ => afterMsg2 C envs)
      { c with
        written := c.written ++ [c.buff.take (msg1.value.getD 0)]
        buff := overwrite (msg2.take (min n₂ c.buff.length)) c.buff
        stream := msg2.drop (msg2.take (min n₂ c.buff.length)).length
        replies := [] } := by
  rw [afterMsg1]
  refine (bind_of_ok (get_eq_ok.mpr ⟨rfl, rfl⟩)).trans ?_
  refine (bind_of_ok rfl).trans ((bind_of_ok (readSocket_eq ..)).trans ?_)
  simp only [hstream, hreplies, List.nil_append, List.headD_cons, List.tail_cons]
  rfl

variable {call : Cmd × List UInt8}

lemma keeps_call_invoke (cmd : Cmd) :
    Keeps (fun c => call ∈ c.calls) (invoke C envs cmd) := by
  intro c hc
  rcases hstep : step C c.ta ⟨cmd.id, cmd.paramTypes, c.buff, envs cmd⟩ with ⟨reply, ta⟩
  cases reply with
  | ok out =>
    rw [invoke_of_ok hstep]
    refine ⟨fun _ _ h => ?_, fun _ _ h => nomatch h⟩
    obtain ⟨-, rfl⟩ := EStateM.Result.ok.inj h
    exact List.mem_append_left _ hc
  | error e =>
    rw [invoke_of_error hstep]
    refine ⟨fun _ _ h => (nomatch h), fun _ _ h => ?_⟩
    obtain ⟨-, rfl⟩ := EStateM.Result.error.inj h
    exact List.mem_append_left _ hc

lemma mem_calls_of_invoke {α : Type} {f : Output → Prog α}
    (hf : ∀ out, Keeps (fun c' => (cmd, c.buff) ∈ c'.calls) (f out)) :
    (cmd, c.buff) ∈ (final ((invoke C envs cmd >>= f) c)).calls := by
  rcases hstep : step C c.ta ⟨cmd.id, cmd.paramTypes, c.buff, envs cmd⟩ with ⟨reply, ta⟩
  cases reply with
  | ok out =>
    rw [bind_of_ok (invoke_of_ok hstep)]
    exact (hf out).final_of (List.mem_append_right _ (List.mem_singleton_self _))
  | error e =>
    rw [bind_of_error (invoke_of_error hstep)]
    exact List.mem_append_right _ (List.mem_singleton_self _)

lemma keeps_call_readSocket (n : ℕ) : Keeps (fun c => call ∈ c.calls) (readSocket n) :=
  Keeps.modify fun _ hc => hc

lemma keeps_call_writeSocket (bytes : List UInt8) :
    Keeps (fun c => call ∈ c.calls) (writeSocket bytes) :=
  Keeps.modify fun _ hc => hc

lemma keeps_call_afterMsg2 : Keeps (fun c => call ∈ c.calls) (afterMsg2 C envs) :=
  (keeps_call_invoke .prepareMsg3).bind fun _ => Keeps.get.bind fun _ =>
    keeps_call_writeSocket _

lemma keeps_call_afterMsg1 (n₂ : ℕ) (msg1 : Output) :
    Keeps (fun c => call ∈ c.calls) (afterMsg1 C envs n₂ msg1) := by
  refine Keeps.get.bind fun _ => (keeps_call_writeSocket _).bind fun _ => ?_
  refine (keeps_call_readSocket n₂).bind fun _ => ?_
  exact (keeps_call_invoke .handleMsg2).bind fun _ => keeps_call_afterMsg2

lemma mem_calls_handleMsg0 (n₀ n₂ : ℕ) (s : State) :
    (.handleMsg0, firstBuff secretSize (msg0.take (min n₀ (buffSize secretSize))))
      ∈ (final (handleConnection C envs secretSize n₀ n₂ (.accepted s msg0 msg2))).calls := by
  rw [handleConnection_accepted]
  exact mem_calls_of_invoke fun _ =>
    (keeps_call_invoke .prepareMsg1).bind fun _ => keeps_call_afterMsg1 n₂ _

variable {n₀ n₂ : ℕ} {s s₁ s₂ : State}

section

variable (hn0 : msg0.length ≤ min n₀ (buffSize secretSize))
  (h₀ : handleMsg0 C (envs .handleMsg0) (firstBuff secretSize msg0) s = .ok () s₁)

include hn0 h₀

lemma handleConnection_of_handleMsg0 :
    handleConnection C envs secretSize n₀ n₂ (.accepted s msg0 msg2)
      = (invoke C envs .prepareMsg1 >>= afterMsg1 C envs n₂)
        ⟨some s₁, firstBuff secretSize msg0, [], [msg2],
          [(.handleMsg0, firstBuff secretSize msg0)], []⟩ := by
  rw [handleConnection_accepted, List.take_of_length_le hn0, drop_length]
  exact bind_of_ok (invoke_handleMsg0 rfl h₀)

lemma mem_calls_prepareMsg1 :
    (.prepareMsg1, firstBuff secretSize msg0)
      ∈ (final (handleConnection C envs secretSize n₀ n₂ (.accepted s msg0 msg2))).calls := by
  rw [handleConnection_of_handleMsg0 hn0 h₀]
  exact mem_calls_of_invoke fun _ => keeps_call_afterMsg1 n₂ _

lemma mem_calls_handleMsg2
    (h₁ : prepareMsg1 C (envs .prepareMsg1) (firstBuff secretSize msg0).length s₁ = .ok msg1 s₂)
    (hbuff : overwrite msg1 (firstBuff secretSize msg0) = buff) :
    (.handleMsg2, overwrite (msg2.take (min n₂ buff.length)) buff)
      ∈ (final (handleConnection C envs secretSize n₀ n₂ (.accepted s msg0 msg2))).calls := by
  subst hbuff
  rw [handleConnection_of_handleMsg0 hn0 h₀, bind_of_ok (invoke_prepareMsg1 rfl h₁),
    afterMsg1_eq rfl rfl]
  exact mem_calls_of_invoke fun _ => keeps_call_afterMsg2

end

/-- If a message of equal bytes appears complete although a part of it is missing, the old content
of the buffer has completed it. -/
lemma getElem?_of_replicate_prefix {m : ℕ} {v : UInt8} (hm : m < n)
    (h : replicate n v <+: overwrite ((replicate n v).take m) buff) :
    buff[m]? = some v := by
  have hlen : ((replicate n v).take m).length = m := by simp [hm.le]
  rw [overwrite, hlen] at h
  nth_rewrite 1 [← List.take_append_drop m (replicate n v)] at h
  have hdrop := (List.prefix_append_right_inj _).mp h
  obtain ⟨k, hk⟩ : ∃ k, n - m = k + 1 := ⟨n - m - 1, by omega⟩
  rw [List.drop_replicate, hk, List.replicate_succ] at hdrop
  obtain ⟨rest, hrest⟩ := hdrop
  have hhead := congrArg (·[0]?) hrest
  simpa using hhead.symm

/-- A verifier with a secret of the given size. -/
def withSecret (secretSize : UInt32) : State :=
  { State.zero.opened Crypto.sample ⟨0, 0⟩ 0 with
    ctx.secret := replicate secretSize.toNat 0 }

/-- The first message arrives only if it is read at once and fits. -/
lemma room_msg0_of_faithful (h : Faithful secretSize n₀ n₂) :
    72 ≤ min n₀ (buffSize secretSize) := by
  by_contra hlt
  obtain ⟨hcalls, -⟩ := h Crypto.sample (fun _ => Env.calm _ 0) (withSecret secretSize)
    (replicate 72 1) (replicate 288 0) (length_replicate ..)
    (length_replicate ..) (length_replicate ..)
  have hbegin := hcalls _ (mem_calls_handleMsg0 ..)
  have hbyte := getElem?_of_replicate_prefix (not_le.mp hlt) hbegin
  rw [List.getElem?_replicate] at hbyte
  split at hbyte
  · exact absurd hbyte (by decide)
  · exact absurd hbyte (by decide)

lemma exists_keyed_zeros (secretSize : UInt32) :
    ∃ v₁, handleMsg0 Crypto.sample (Env.calm _ 0) (firstBuff secretSize (replicate 72 0))
        (withSecret secretSize) = .ok () v₁
      ∧ ∃ kdk, Protocol.Keyed Crypto.sample Msg0.zero 0 kdk (withSecret secretSize) v₁ := by
  have hdec : Msg0.layout.dec (firstBuff secretSize (replicate 72 0)) = Msg0.zero :=
    Msg0.layout.dec_enc_append Msg0.zero _
  obtain ⟨v₁, hv1, hkeyed⟩ := Protocol.exists_keyed (C := Crypto.sample) (Env.calm_allOk _ 0)
    (by simp [firstBuff, overwrite] : 72 ≤ (firstBuff secretSize (replicate 72 0)).length)
    (by rw [hdec]; decide) (by rw [hdec]; decide) (withSecret secretSize)
  rw [hdec] at hkeyed
  exact ⟨v₁, hv1, _, hkeyed⟩

lemma room_msg1_of_faithful (h : Faithful secretSize n₀ n₂) :
    224 ≤ buffSize secretSize := by
  have hroom0 := room_msg0_of_faithful h
  obtain ⟨hcalls, -⟩ := h Crypto.sample (fun _ => Env.calm _ 0) (withSecret secretSize)
    (replicate 72 0) (replicate 288 0) (length_replicate ..)
    (length_replicate ..) (length_replicate ..)
  obtain ⟨v₁, hv1, -⟩ := exists_keyed_zeros secretSize
  have hroom := hcalls _ (mem_calls_prepareMsg1 (by rwa [length_replicate]) hv1)
  have hlen : (firstBuff secretSize (replicate 72 0)).length = buffSize secretSize :=
    firstBuff_length (hroom0.trans (min_le_right ..))
  exact hroom.trans hlen.le

lemma room_msg2_of_faithful (h : Faithful secretSize n₀ n₂) :
    288 ≤ min n₂ (buffSize secretSize) := by
  by_contra hlt
  have hroom0 := room_msg0_of_faithful h
  have hroom1 := room_msg1_of_faithful h
  have hlen0 : (firstBuff secretSize (replicate 72 0)).length = buffSize secretSize :=
    firstBuff_length (hroom0.trans (min_le_right ..))
  obtain ⟨v₁, hv1, kdk, hkeyed⟩ := exists_keyed_zeros secretSize
  obtain ⟨v₂, hv2, -⟩ := Protocol.exists_answered (Env.calm_allOk Fn 0) (hroom1.trans hlen0.ge)
    hkeyed (fun f hf => hkeyed.fits (by decide) (by decide) (Coord.store_fits ..)
      (Coord.store_fits ..) hf) rfl
  -- the second message differs from the buffer in the first byte that is not fetched
  have hlen1 : (Msg1.layout.enc v₂.msgs.msg1).length
      ≤ (firstBuff secretSize (replicate 72 0)).length := by
    rw [Layout.enc_length, Msg1.layout_size, hlen0]
    exact hroom1
  have hlen2 := (overwrite_length hlen1).trans hlen0
  generalize hbuff : overwrite (Msg1.layout.enc v₂.msgs.msg1)
    (firstBuff secretSize (replicate 72 0)) = buff at hlen2
  obtain ⟨hcalls, -⟩ := h Crypto.sample (fun _ => Env.calm _ 0) (withSecret secretSize)
    (replicate 72 0) (replicate 288 (buff.getD (min n₂ (buffSize secretSize)) 0 + 1))
    (length_replicate ..) (length_replicate ..) (length_replicate ..)
  have hbegin := hcalls _ (mem_calls_handleMsg2 (by rwa [length_replicate]) hv1 hv2 hbuff)
  rw [hlen2] at hbegin
  have hbyte := getElem?_of_replicate_prefix (not_le.mp hlt) hbegin
  rw [List.getD_eq_getElem?_getD, hbyte, Option.getD_some] at hbyte
  exact absurd hbyte (by simp)

/-- The host is a faithful transport exactly if every `read` fetches a whole message and the buffer
has room for `msg2`, which depends on the size of the secret alone. -/
theorem faithful_iff (secretSize : UInt32) (n₀ n₂ : ℕ) :
    Faithful secretSize n₀ n₂ ↔
      72 ≤ n₀ ∧ 288 ≤ n₂ ∧ 220 ≤ secretSize.toNat ∧ secretSize.toNat + 68 < 2 ^ 32 := by
  have hsize : 288 ≤ buffSize secretSize
      ↔ 220 ≤ secretSize.toNat ∧ secretSize.toNat + 68 < 2 ^ 32 := by
    have hlt := secretSize.toNat_lt
    rw [buffSize, Msg3.layout_size]
    omega
  rw [← hsize]
  constructor
  · intro h
    have hroom0 := room_msg0_of_faithful h
    have hroom2 := room_msg2_of_faithful h
    omega
  · rintro ⟨hn0, hn2, hroom⟩ C envs s msg0 msg2 hsecret h0 h2
    exact ⟨handsOver_handleConnection h0 h2 hn0 hn2 hroom s,
      fun msg1 msg3 s' => exists_handleConnection hsecret h0 h2 hn0 hn2 hroom⟩

/-- With the secret that is compiled into the host there is no room for `msg1`, although both reads
fetch a whole message. -/
theorem not_faithful_builtin : ¬ Faithful 38 72 288 := by
  intro h
  have hroom := room_msg1_of_faithful h
  exact absurd hroom (by decide)

end

end Watz.Host
