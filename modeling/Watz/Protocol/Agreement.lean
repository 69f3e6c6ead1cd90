import Watz.Protocol.Preimages
import Watz.Protocol.QuoteCodec
import Watz.Verifier.Keys

/-!
# Agreement on quotes

The attestation service and the verifier in one system.  Anybody may ask the service for quotes,
with any claim and any anchor, and the network may hand any bytes to the verifier in any order;
whatever the attesters do between their calls of the service is covered by what the network may do.
If the verifier accepts a `msg2`, the service has generated a quote for the two keys of this very
session, with the same hash of the claim, and it has done so after the verifier drew its key.

The algorithms are perfect in the sense of the symbolic model.  The assumptions are about the
signatures and the strings that occur in a run; nothing is assumed about MACs.
-/

namespace Watz.Protocol

open Lib Verifier

/-! ## The system -/

/-- What can happen in the system. -/
inductive Action where
  /-- `ATTESTATION_CMD_GEN_QUOTE`, issued by anybody in the attester's TEE. -/
  | genQuote (env : Env Pta.Fn) (claim : List UInt8) (anchor : Bytes 32) (anchorSize : ℕ)
  /-- A client opens a session with the verifier; its first one creates the instance. -/
  | openSession (env : Env Fn) (paramTypes : ParamTypes)
  /-- The instance of the verifier is destroyed. -/
  | destroy
  /-- A client invokes a command of the verifier. -/
  | command (r : Request)

/-- What the caller gets. -/
inductive Reply where
  | quote (q : Option Quote)
  | command (result : Except TeeError Output)
  | none

section

variable (C : Crypto) (key : Pta.AttestationKey)

/-- The verifier after a client has opened a session. -/
def openSession (env : Env Fn) (paramTypes : ParamTypes)
    (st : Option State) : Option State :=
  match taOpenSessionEntryPoint C env (C.publicKey key.keypair) paramTypes
      (st.getD State.zero) with
  | .ok _ s => some s
  | .error (.error _) s => some s
  | .error .panic _ => none

/-- One step of the system.  The service keeps no state but its key, which the verifier knows. -/
def step (st : Option State) : Action → Reply × Option State
  | .genQuote env claim anchor anchorSize =>
    (.quote ((result? (Pta.generateQuote C env key claim anchor anchorSize Quote.zero)).map (·.2)),
      st)
  | .openSession env paramTypes => (.none, openSession C key env paramTypes st)
  | .destroy => (.none, none)
  | .command r => (.command (Verifier.step C st r).1, (Verifier.step C st r).2)

/-- One entry of the history of the system. -/
abbrev Event := Entry (Option State) Action Reply

/-- The history of the system. -/
def run (as : List Action) : List Event := history (step C key) none as

end

/-- The quotes the service has generated. -/
def generated (l : List Event) : Set Quote := {q | ∃ e ∈ l, e.output = .quote (some q)}

/-- The action is `HANDLE_MSG_2` with the given request. -/
def IsMsg2 (a : Action) (r : Request) : Prop :=
  a = .command r ∧ r.cmdId = Cmd.handleMsg2.id

/-- The quotes the verifier has been handed. -/
def received (l : List Event) : Set Quote :=
  {q | ∃ e ∈ l, ∃ r, IsMsg2 e.input r ∧ (Msg2.layout.dec r.memref).quote = q}

/-- The byte string the verifier hashes for the anchor when it handles `msg2`: its stored `msg0`
and the key in its own `msg1`. -/
def anchorInput (s : State) (r : Request) : Option (List UInt8) :=
  (s.withMsg2 r.memref).msgs.concat r.env.tail anchorFields

/-- The strings the verifier hashes for the anchor. -/
def anchorInputs (l : List Event) : Set (List UInt8) :=
  {data | ∃ e ∈ l, ∃ r, IsMsg2 e.input r ∧ ∃ s, e.before = some s ∧ anchorInput s r = some data}

/-- The action runs `handle_msg0`. -/
def RunsMsg0 (a : Action) (r : Request) : Prop :=
  a = .command r ∧ r.cmdId = Cmd.handleMsg0.id
    ∧ r.paramTypes = Cmd.handleMsg0.paramTypes

/-- The action runs `handle_msg0`, which draws the private key `d`. -/
def DrawsKey (a : Action) (d : ℕ) : Prop :=
  ∃ r, RunsMsg0 a r ∧ r.env.freshKey = d
    ∧ r.env.Ok .generateEcdhKeypair Fn.generateEcdhKeypair.sites

/-- The coordinates of the public key of `d` as they enter a digest. -/
def gvBytes (C : Crypto) (d : ℕ) : List UInt8 :=
  minBigEndian 32 (C.publicKey d).x ++ minBigEndian 32 (C.publicKey d).y

/-- The symbolic model of the algorithms in a run, `known i` being the strings that have been put
together by anybody before the entry with index `i`. -/
structure Symbolic (C : Crypto) (key : Pta.AttestationKey) (l : List Event)
    (known : ℕ → Set (List UInt8)) : Prop where
  /-- Without the attestation key nobody can make a signature for a digest the service has not
  signed. -/
  unforgeable : ∀ pre e post r, l = pre ++ e :: post → IsMsg2 e.input r →
    C.ValidOnlyFor (C.publicKey key.keypair) (Msg2.layout.dec r.memref).quote.signature
      ((fun q => C.sha256 (Pta.hashQuoteInput q)) '' generated pre)
  /-- There are no collisions among the strings that are signed or checked. -/
  collisionFree : C.CollisionFree
    (Pta.hashQuoteInput '' generated l ∪ quoteDigestInput '' received l)
  /-- Who uses the digest of a string as an anchor has put the string together. -/
  unpredictable : ∀ pre e post env claim anchor anchorSize, l = pre ++ e :: post →
    e.input = .genQuote env claim anchor anchorSize →
    ∀ data ∈ anchorInputs l, anchor = C.sha256 data → data ∈ known pre.length
  /-- Nobody has put together a string that ends with a public key before it was drawn. -/
  fresh : ∀ pre e post d, l = pre ++ e :: post → DrawsKey e.input d →
    ∀ i < pre.length, ∀ data ∈ known i, ¬ gvBytes C d <:+ data

/-- The verifier's acceptance of a message, at the end of `pre`, agrees with a call of the service:
the service has generated a quote whose anchor is the hash of the keys of the session and whose hash
of the claim is the one in the message, and not before the verifier drew its key. -/
def Agrees (C : Crypto) (pre : List Event) (s : State) (r : Request) : Prop :=
  ∃ data pre' e' post' env claim anchorSize q,
    anchorInput s r = some data
    ∧ pre = pre' ++ e' :: post'
    ∧ e'.input = .genQuote env claim (C.sha256 data) anchorSize ∧ e'.output = .quote (some q)
    ∧ q.claimHash = Pta.claimHashOf C claim
    ∧ (Msg2.layout.dec r.memref).quote.claimHash = q.claimHash
    ∧ ∀ mid e₀ mid' d, pre = mid ++ e₀ :: mid' → DrawsKey e₀.input d →
        (∀ e ∈ mid', ∀ r', ¬ RunsMsg0 e.input r') → mid.length < pre'.length

variable {e : Event}

section

variable {C : Crypto} {key : Pta.AttestationKey}

/-! ## What a step does to the keys -/

/-- The only attestation key in the context is that of the service. -/
def Imported (C : Crypto) (key : Pta.AttestationKey) (st : Option State) : Prop :=
  ∀ s ∈ st, ∀ k, s.ctx.ecdsaAttesterPublicKeyHandle = .key k → k = C.publicKey key.keypair

/-- The ephemeral key is the one that was drawn, unless there is no MAC key. -/
def Drawn (C : Crypto) (d : ℕ) (st : Option State) : Prop :=
  ∀ s ∈ st, s.keys.Gv C d ∨ s.ctx.ecdhSharedMacKey = .null

variable {st : Option State} {r : Request} {d : ℕ}

lemma openSession_of_keeps {I : State → Prop} {env : Env Fn}
    {paramTypes : ParamTypes}
    (h : Keeps I (taOpenSessionEntryPoint C env (C.publicKey key.keypair) paramTypes))
    (hzero : I State.zero) (hst : ∀ s ∈ st, I s) :
    ∀ s ∈ openSession C key env paramTypes st, I s := by
  have hinit : I (st.getD State.zero) := by
    cases st with
    | none => exact hzero
    | some s => exact hst s rfl
  obtain ⟨hok, herr⟩ := h _ hinit
  intro s hs
  rw [openSession] at hs
  cases hopen : taOpenSessionEntryPoint C env (C.publicKey key.keypair) paramTypes
      (st.getD State.zero) with
  | ok u t =>
    rw [hopen, Option.mem_some] at hs
    exact hs ▸ hok u t hopen
  | error stop t =>
    cases stop with
    | error e =>
      rw [hopen, Option.mem_some] at hs
      exact hs ▸ herr _ t hopen
    | panic => simp [hopen] at hs

lemma command_of_keeps {I : State → Prop}
    (h : ∀ cmd : Cmd, r.cmdId = cmd.id → Keeps I (runCmd C r cmd))
    (hst : ∀ s ∈ st, I s) : ∀ s ∈ (Verifier.step C st r).2, I s := by
  intro s hs
  cases st with
  | none => simp [step_none] at hs
  | some t =>
    rw [← final_of_step hs]
    exact final_of_keeps h (hst t rfl)

lemma imported_step (a : Action) (h : Imported C key st) :
    Imported C key (step C key st a).2 := by
  cases a with
  | genQuote env claim anchor anchorSize => exact h
  | openSession env paramTypes =>
    refine openSession_of_keeps (keeps_taOpenSessionEntryPoint ?_ (fun _ _ hs => hs)
      (fun _ _ _ hs => hs)) ?_ h
    · rintro s _ (rfl | rfl) - k hk
      · exact absurd hk (by simp)
      · exact (Obj.key.inj hk).symm
    · intro k hk
      exact absurd hk (by simp [State.zero])
  | destroy => simp [Imported, step]
  | command r =>
    refine command_of_keeps (I := fun s => ∀ k, s.ctx.ecdsaAttesterPublicKeyHandle = .key k →
      k = C.publicKey key.keypair) (fun cmd _ => ?_) h
    by_cases hcmd : cmd = .handleMsg0
    · subst hcmd
      exact Keeps.bind (Keeps.of_eq (keeps_attestationKey_handleMsg0 r.memref)
        fun h => ∀ k, h = .key k → k = C.publicKey key.keypair) fun _ => Keeps.pure _
    · exact Keeps.of_eq (keeps_keys_runCmd r hcmd)
        fun ks => ∀ k, ks.attestationKey = .key k → k = C.publicKey key.keypair

lemma drawn_step {a : Action} (ha : ∀ r, ¬ RunsMsg0 a r) (h : Drawn C d st) :
    Drawn C d (step C key st a).2 := by
  cases a with
  | genQuote env claim anchor anchorSize => exact h
  | openSession env paramTypes =>
    exact openSession_of_keeps (keeps_taOpenSessionEntryPoint (fun _ _ _ hs => hs)
      (fun _ _ hs => hs) (fun _ _ _ hs => hs)) (.inr rfl) h
  | destroy => simp [Drawn, step]
  | command r =>
    intro s hs
    cases st with
    | none => simp [step, step_none] at hs
    | some t =>
      rw [← final_of_step hs]
      rcases taInvokeCommandEntryPoint_cases C r t with ⟨e, he⟩ | ⟨cmd, hid, htypes, hrun⟩
      · rw [he]
        exact h t rfl
      · have hcmd : cmd ≠ .handleMsg0 := by
          rintro rfl
          exact ha r ⟨rfl, hid, htypes⟩
        rw [hrun]
        exact (Keeps.of_eq (keeps_keys_runCmd r hcmd)
          fun ks => ks.Gv C d ∨ ks.macKey = .null).final_of (h t rfl)

lemma drawn_of_drawsKey {a : Action} (ha : DrawsKey a d) (st : Option State) :
    Drawn C d (step C key st a).2 := by
  obtain ⟨r, ⟨rfl, hid, htypes⟩, rfl, hok⟩ := ha
  intro s hs
  cases st with
  | none => simp [step, step_none] at hs
  | some t =>
    rw [← final_of_step hs, taInvokeCommandEntryPoint_eq_runCmd hid htypes,
      runCmd, final_bind fun _ _ => rfl]
    exact .inl (gv_final_handleMsg0 hok r.memref t)

/-! ## What an acceptance says -/

lemma exists_handleMsg2_of_accepted {out : Output}
    (hid : r.cmdId = Cmd.handleMsg2.id) (h : (Verifier.step C st r).1 = .ok out) :
    ∃ s s', st = some s ∧ handleMsg2 C r.env r.memref s = .ok () s' := by
  cases st with
  | none => simp [step_none] at h
  | some s =>
    rcases taInvokeCommandEntryPoint_cases C r s with ⟨e, he⟩ | ⟨cmd, hcmd, -, hrun⟩
    · cases e <;> simp [Verifier.step, he] at h
    · have hcmd' : cmd = .handleMsg2 := by
        have hofId := Cmd.ofId_id cmd
        rw [← hcmd, hid, Cmd.ofId_id] at hofId
        exact (Option.some.inj hofId).symm
      subst hcmd'
      rw [Verifier.step, hrun] at h
      cases hmsg2 : handleMsg2 C r.env r.memref s with
      | ok u s' => exact ⟨s, s', rfl, hmsg2⟩
      | error stop t =>
        rw [runCmd, bind_of_error hmsg2] at h
        cases stop <;> simp at h

/-- The string that is hashed for the anchor ends with the ephemeral key. -/
lemma gvBytes_suffix {s : State} {data : List UInt8} (hgv : s.keys.Gv C d)
    (h : anchorInput s r = some data) : gvBytes C d <:+ data := by
  obtain ⟨x, y, hx, hy⟩ := hgv
  have hcoordX : Field.verifierX.coord (s.withMsg2 r.memref).msgs = x.store (C.publicKey d).x := hx
  have hcoordY : Field.verifierY.coord (s.withMsg2 r.memref).msgs = y.store (C.publicKey d).y := hy
  have htail : (s.withMsg2 r.memref).msgs.concat r.env.tail [.verifierX, .verifierY]
      = some (gvBytes C d) := by
    rw [Messages.concat_of_fits]
    · simp [hcoordX, hcoordY, gvBytes]
    · intro f hf
      simp only [List.mem_cons, List.not_mem_nil, or_false] at hf
      rcases hf with rfl | rfl
      · rw [hcoordX]
        exact Coord.store_fits ..
      · rw [hcoordY]
        exact Coord.store_fits ..
  rw [anchorInput, anchorFields, Messages.concat, Messages.concat, htail] at h
  simp only [Option.bind_eq_bind, Option.bind_eq_some_iff, Option.pure_def, Option.some.injEq] at h
  obtain ⟨a, -, _, ⟨b, -, _, rfl, rfl⟩, rfl⟩ := h
  exact ⟨a ++ b, by simp⟩

lemma exists_genQuote_of_generated {as : List Action} {q : Quote} (he : e ∈ run C key as)
    (hq : e.output = .quote (some q)) :
    ∃ env claim anchorSize, e.input = .genQuote env claim q.anchor anchorSize
      ∧ q.claimHash = Pta.claimHashOf C claim := by
  have hout := output_of_mem_history he
  rw [hq] at hout
  cases hinput : e.input with
  | genQuote env claim anchor anchorSize =>
    rw [hinput, step] at hout
    obtain ⟨⟨u, q'⟩, hgen, rfl⟩ := Option.map_eq_some_iff.mp (Reply.quote.inj hout).symm
    obtain ⟨-, -, -, -, rfl⟩ := Pta.generateQuote_eq_ok.mp (result?_eq_some.mp hgen)
    exact ⟨env, claim, anchorSize, rfl, rfl⟩
  | openSession env paramTypes => simp [hinput, step] at hout
  | destroy => simp [hinput, step] at hout
  | command r => simp [hinput, step] at hout

lemma drawn_before {as : List Action} {mid mid' post : List Event} {e₀ : Event}
    (hrun : run C key as = (mid ++ e₀ :: mid') ++ e :: post) (hdraws : DrawsKey e₀.input d)
    (hmid' : ∀ e ∈ mid', ∀ r, ¬ RunsMsg0 e.input r) : Drawn C d e.before := by
  obtain ⟨js, ks, -, hpre, hbefore⟩ := exists_of_history_eq_append hrun
  obtain ⟨js', hpost, hfinal⟩ := exists_post_of_history_eq_append hpre.symm
  rw [hbefore, hfinal]
  refine invariant_finalState (C := fun _ a => ∀ r, ¬ RunsMsg0 a r)
    (fun _ _ hs ha => drawn_step ha hs) (drawn_of_drawsKey hdraws e₀.before) ?_
  rw [← hpost]
  exact hmid'

/-- In every run that meets the symbolic assumptions, every `msg2` the verifier accepts agrees with
a call of the attestation service for the keys of the session; so a quote that was obtained before
the verifier drew its key is not accepted. -/
theorem quote_agreement {as : List Action} {known : ℕ → Set (List UInt8)}
    (h : Symbolic C key (run C key as) known) {pre post : List Event} {e : Event}
    {r : Request} {out : Output} (hrun : run C key as = pre ++ e :: post)
    (hmsg2 : IsMsg2 e.input r) (haccept : e.output = .command (.ok out)) :
    ∃ s, e.before = some s ∧ Agrees C pre s r := by
  have hmem : e ∈ run C key as := by simp [hrun]
  have hout := output_of_mem_history hmem
  rw [haccept, hmsg2.1] at hout
  obtain ⟨s, s', hs, hrunMsg2⟩ := exists_handleMsg2_of_accepted hmsg2.2 (Reply.command.inj hout).symm
  obtain ⟨-, hchecks, ⟨data, hdata, hanchor⟩, -⟩ := handleMsg2_eq_ok.mp hrunMsg2
  obtain ⟨k, hk, hverify⟩ := hchecks.signatureOk
  have himported : Imported C key e.before :=
    invariant_before (C := fun _ _ => True) (fun _ a hst _ => imported_step a hst)
      (by simp [Imported]) (fun _ _ => trivial) e hmem
  obtain rfl := himported s hs k hk
  -- the signature is one of the service, and the signed fields are those in the message
  obtain ⟨q, hq, hdigest⟩ := h.unforgeable pre e post r hrun hmsg2 _ hverify
  obtain ⟨e', he', hq'⟩ := hq
  have he'run : e' ∈ run C key as := by simp [hrun, he']
  have hinput : Pta.hashQuoteInput q
      = quoteDigestInput (Msg2.layout.dec r.memref).quote :=
    h.collisionFree (.inl ⟨q, ⟨e', he'run, hq'⟩, rfl⟩)
      (.inr ⟨_, ⟨e, hmem, r, hmsg2, rfl⟩, rfl⟩) hdigest
  have hcontent := content_of_quoteDigestInput hinput
  have hanchor' : q.anchor = C.sha256 data := (congrArg Prod.fst hcontent).trans hanchor
  obtain ⟨env, claim, anchorSize, hgen, hclaim⟩ := exists_genQuote_of_generated he'run hq'
  rw [hanchor'] at hgen
  obtain ⟨pre', post', rfl⟩ := List.append_of_mem he'
  refine ⟨s, hs, data, pre', e', post', env, claim, anchorSize, q, hdata, rfl, hgen, hq', hclaim,
    (congrArg (fun c => c.2.2.1) hcontent).symm, ?_⟩
  -- an earlier call would have known the string before the key was drawn
  intro mid e₀ mid' d hmid hdraws hmid'
  by_contra hle
  rw [not_lt] at hle
  have hdrawn : s.keys.Gv C d := by
    rw [hmid] at hrun
    obtain ⟨mac, -, hmac, -⟩ := hchecks.macOk
    refine (drawn_before hrun hdraws hmid' s hs).resolve_right fun hnull => ?_
    exact absurd (hmac.symm.trans hnull) (by simp)
  have hsuffix := gvBytes_suffix hdrawn hdata
  have hknown : data ∈ known pre'.length :=
    h.unpredictable pre' e' (post' ++ e :: post) env claim _ anchorSize (by rw [hrun]; simp) hgen
      data ⟨e, hmem, r, hmsg2, s, hs, hdata⟩ rfl
  rcases hle.lt_or_eq with hlt | heq
  · exact h.fresh mid e₀ (mid' ++ e :: post) d (by rw [hrun, hmid]; simp) hdraws pre'.length hlt
      data hknown hsuffix
  · obtain ⟨-, htail⟩ := List.append_inj hmid heq
    obtain ⟨r', hr', -⟩ := hdraws
    rw [← (List.cons.inj htail).1, hgen] at hr'
    exact absurd hr'.1 (by simp)

end

/-! ## A concrete run -/

/-- A quote for a session in which the attester's key is empty and the verifier has drawn 7. -/
def sessionQuote : Quote :=
  Pta.signedQuote Crypto.sample sampleKey 0 (List.replicate 32 3) (Crypto.sample.sha256 [7, 8])

/-- The verifier gets `msg0`, the service generates the quote and the verifier gets `msg2`. -/
def sampleMsg2 : Request :=
  .calm .handleMsg2 (Msg2.layout.enc ⟨Coord.zero, Coord.zero, sessionQuote, Bytes.zero 16⟩) 0

def sampleActions : List Action :=
  [.openSession (Env.calm _ 9) ⟨.none, .none, .none, .none⟩,
    .command (.calm .handleMsg0 (List.replicate 72 0) 7),
    .genQuote (Env.calm _ 0) (List.replicate 32 3) (Crypto.sample.sha256 [7, 8]) 32]

/-- The history of the run. -/
def sampleRun : List Event :=
  run Crypto.sample sampleKey (sampleActions ++ [.command sampleMsg2])

lemma cases_sampleRun {pre post : List Event} (h : sampleRun = pre ++ e :: post) :
    pre.length = 0 ∧ e.input = .openSession (Env.calm _ 9) ⟨.none, .none, .none, .none⟩
    ∨ pre.length = 1 ∧ e.input = .command (.calm .handleMsg0 (List.replicate 72 0) 7)
    ∨ pre.length = 2 ∧ e.input
        = .genQuote (Env.calm _ 0) (List.replicate 32 3) (Crypto.sample.sha256 [7, 8]) 32
    ∨ pre.length = 3 ∧ e.input = .command sampleMsg2 := by
  have hinputs : sampleRun.map Entry.input = sampleActions ++ [.command sampleMsg2] :=
    map_input_history none _
  have hget := congrArg (·[pre.length]?) hinputs
  simp only [h, List.map_append, List.map_cons, List.length_map, le_refl,
    List.getElem?_append_right, Nat.sub_self, List.getElem?_cons_zero] at hget
  have hlt : pre.length < 4 := by
    have hlen := congrArg List.length hinputs
    rw [h] at hlen
    simp [sampleActions] at hlen
    omega
  interval_cases hpre : pre.length
  all_goals simpa [sampleActions] using hget

/-- The quotes that occur in the run have the same signed fields. -/
lemma digestInput_sampleRun :
    (∀ q ∈ generated sampleRun, q = sessionQuote) ∧ ∀ q ∈ received sampleRun, q = sessionQuote := by
  constructor
  · rintro q ⟨e, he, hq⟩
    obtain ⟨pre, post, hsplit⟩ := List.append_of_mem he
    have hout := output_of_mem_history (show e ∈ run _ _ _ from he)
    rw [hq] at hout
    rcases cases_sampleRun hsplit with ⟨-, hin⟩ | ⟨-, hin⟩ | ⟨-, hin⟩ | ⟨-, hin⟩ <;>
      simp only [hin, step, reduceCtorEq] at hout
    obtain ⟨⟨u, q'⟩, hgen, rfl⟩ := Option.map_eq_some_iff.mp (Reply.quote.inj hout).symm
    obtain ⟨-, -, -, -, rfl⟩ := Pta.generateQuote_eq_ok.mp (result?_eq_some.mp hgen)
    rfl
  · rintro q ⟨e, he, r, ⟨hr, hid⟩, rfl⟩
    obtain ⟨pre, post, hsplit⟩ := List.append_of_mem he
    rcases cases_sampleRun hsplit with ⟨-, hin⟩ | ⟨-, hin⟩ | ⟨-, hin⟩ | ⟨-, hin⟩ <;> rw [hr] at hin
    · exact absurd hin (by simp)
    · obtain rfl := Action.command.inj hin
      exact absurd hid (by decide)
    · exact absurd hin (by simp)
    · obtain rfl := Action.command.inj hin
      rw [sampleMsg2, Request.calm, Layout.dec_enc]

lemma sessionQuote_mem_generated :
    sessionQuote ∈ generated (run Crypto.sample sampleKey sampleActions) := by
  have hcalm := Env.calm_allOk Pta.Fn 0
  have hgen : Pta.generateQuote Crypto.sample (Env.calm _ 0) sampleKey (List.replicate 32 3)
      (Crypto.sample.sha256 [7, 8]) 32 Quote.zero = .ok () sessionQuote :=
    Pta.generateQuote_eq_ok.mpr ⟨le_rfl, fun _ => hcalm.ok _ _, hcalm.ok _ _, hcalm.ok _ _, rfl⟩
  refine ⟨_, mem_history none (sampleActions.take 2) [] _, ?_⟩
  rw [step, result?_eq_some.mpr hgen]
  rfl

/-- The run meets the assumptions, strings being put together only after the key has been drawn. -/
lemma symbolic_sampleRun : Symbolic Crypto.sample sampleKey sampleRun fun i => {_w | 2 ≤ i} where
  unforgeable := by
    rintro pre e post r hsplit ⟨hr, hid⟩
    rcases cases_sampleRun hsplit with ⟨-, hin⟩ | ⟨-, hin⟩ | ⟨-, hin⟩ | ⟨hpre, hin⟩ <;>
      rw [hr] at hin
    · exact absurd hin (by simp)
    · obtain rfl := Action.command.inj hin
      exact absurd hid (by decide)
    · exact absurd hin (by simp)
    · obtain rfl := Action.command.inj hin
      rw [sampleRun, run, history_concat] at hsplit
      obtain ⟨rfl, -⟩ := List.append_inj hsplit hpre.symm
      rw [sampleMsg2, Request.calm, Layout.dec_enc]
      intro digest hdigest
      have hsigned := Crypto.sample_validOnlyFor _ sampleKey.keypair 0 _ digest hdigest
      exact ⟨sessionQuote, sessionQuote_mem_generated, (Set.mem_singleton_iff.mp hsigned).symm⟩
  collisionFree := by
    obtain ⟨hgen, hrec⟩ := digestInput_sampleRun
    have hall : ∀ w ∈ Pta.hashQuoteInput '' generated sampleRun
        ∪ quoteDigestInput '' received sampleRun, w = Pta.hashQuoteInput sessionQuote := by
      rintro _ (⟨q, hq, rfl⟩ | ⟨q, hq, rfl⟩)
      · rw [hgen q hq]
      · rw [hrec q hq]
        rfl
    intro w hw w' hw' _
    rw [hall w hw, hall w' hw']
  unpredictable := by
    rintro pre e post env claim anchor anchorSize hsplit hgen data - -
    rcases cases_sampleRun hsplit with ⟨-, hin⟩ | ⟨-, hin⟩ | ⟨hpre, hin⟩ | ⟨-, hin⟩
    · exact absurd (hgen.symm.trans hin) (by simp)
    · exact absurd (hgen.symm.trans hin) (by simp)
    · exact hpre.ge
    · exact absurd (hgen.symm.trans hin) (by simp)
  fresh := by
    rintro pre e post d hsplit ⟨r, ⟨hr, hid, -⟩, -⟩ i hi data hdata
    rcases cases_sampleRun hsplit with ⟨-, hin⟩ | ⟨hpre, hin⟩ | ⟨-, hin⟩ | ⟨-, hin⟩
    · exact absurd (hr.symm.trans hin) (by simp)
    · have hle : 2 ≤ i := hdata
      omega
    · exact absurd (hr.symm.trans hin) (by simp)
    · obtain rfl := Action.command.inj (hr.symm.trans hin)
      exact absurd hid (by decide)

/-- The assumptions are met by a run in which the verifier accepts a quote. -/
theorem quote_agreement_sample :
    ∃ s, finalState (step Crypto.sample sampleKey) none sampleActions = some s
      ∧ Agrees Crypto.sample (run Crypto.sample sampleKey sampleActions) s sampleMsg2 := by
  have haccept : (Verifier.step Crypto.sample (finalState (step Crypto.sample sampleKey) none
      sampleActions) sampleMsg2).1.isOk = true := by decide +kernel
  obtain ⟨out, hout⟩ := exists_output_of_isOk haccept
  have hreply : (step Crypto.sample sampleKey (finalState (step Crypto.sample sampleKey) none
      sampleActions) (.command sampleMsg2)).1 = .command (.ok out) := by
    rw [step, hout]
  have hmsg2 : IsMsg2 (.command sampleMsg2) sampleMsg2 := ⟨rfl, rfl⟩
  exact quote_agreement symbolic_sampleRun (history_concat none sampleActions _) hmsg2 hreply

end Watz.Protocol
