import Watz.Verifier.Frame

/-!
# The reads of the verifier through size fields

The verifier takes the lengths of the coordinates it reads from the messages.  If the sizes in the
messages of the attester are at most 32, all its reads stay inside the arrays, in every session
and however the commands end.
-/

namespace Watz.Verifier

open Lib

/-- The arrays of the verifier itself and of `msg0`. -/
def keyFields : List Field := [.attesterX, .attesterY, .verifierX, .verifierY, .ecdsaX, .ecdsaY]

/-- All arrays. -/
def allFields : List Field := .localX :: .localY :: keyFields

/-- The invariant of this file. -/
abbrev Bounded (fs : List Field) (s : State) : Prop := s.Bounded RaContextVerifier.refs fs

section

variable {C : Crypto} {env : Env Fn} {fs : List Field}

/-! ## Commands with bounded messages -/

lemma Bounded.withCtx {s : State} (hs : Bounded fs s) {ctx : RaContextVerifier}
    (h : ctx.refs = s.ctx.refs) : Bounded fs { s with ctx := ctx } :=
  hs.of_eq rfl hs.fits h

lemma keeps_bounded_generateEcdhKeypair : Keeps (Bounded fs) (generateEcdhKeypair C env) := by
  refine keeps_generateEcdhKeypair (fun _ _ hs => hs.withCtx rfl) fun s x y hx hy hs => ?_
  refine hs.of_eq rfl (fun f hf => ?_) rfl
  cases f with
  | verifierX => exact hx.elim id fun h => h ▸ hs.fits _ hf
  | verifierY => exact hy.elim id fun h => h ▸ hs.fits _ hf
  | _ => exact hs.fits _ hf

/-- The sizes in `msg0` stay within their arrays. -/
def Msg0Fits (m : Msg0) : Prop := m.ecdhAttesterPublicKeyX.Fits ∧ m.ecdhAttesterPublicKeyY.Fits

/-- The sizes in `msg2` stay within their arrays. -/
def Msg2Fits (m : Msg2) : Prop := m.ecdhLocalPublicKeyX.Fits ∧ m.ecdhLocalPublicKeyY.Fits

lemma Bounded.withMsg0 {s : State} (hs : Bounded fs s) {m : Msg0} (h : Msg0Fits m) :
    Bounded fs { s with msgs.msg0 := m } := by
  refine hs.of_eq rfl (fun f hf => ?_) rfl
  cases f with
  | attesterX => exact h.1
  | attesterY => exact h.2
  | _ => exact hs.fits _ hf

lemma Bounded.withMsg2 {s : State} (hs : Bounded fs s) {m : Msg2}
    (hx : Field.localX ∈ fs → m.ecdhLocalPublicKeyX.Fits)
    (hy : Field.localY ∈ fs → m.ecdhLocalPublicKeyY.Fits) :
    Bounded fs { s with msgs.msg2 := m } := by
  refine hs.of_eq rfl (fun f hf => ?_) rfl
  cases f with
  | localX => exact hx hf
  | localY => exact hy hf
  | _ => exact hs.fits _ hf

lemma mem_allFields (f : Field) : f ∈ allFields := by
  cases f <;> decide

variable {buffer : List UInt8}

lemma keeps_bounded_handleMsg0 (h : 72 ≤ buffer.length → Msg0Fits (Msg0.layout.dec buffer)) :
    Keeps (Bounded allFields) (handleMsg0 C env buffer) := by
  refine Keeps.bind keeps_bounded_generateEcdhKeypair fun _ =>
    keeps_afterKeypair (fun _ hlen hs => hs.withMsg0 (h hlen)) (fun s hs => ?_)
      (fun _ _ _ _ hrefs hs => hs.withCtx hrefs)
      (fun _ hs a ha r hr _ ht => ht.log (hs.refs_le a ha r hr))
  refine ⟨hs.inside, hs.fits, fun a ha r hr => ?_⟩
  rcases List.mem_cons.mp ha with rfl | ha
  · cases hr
    exact hs.fits .attesterX (mem_allFields _)
  · rw [List.mem_singleton.mp ha] at hr
    cases hr
    exact hs.fits .attesterY (mem_allFields _)

lemma keeps_bounded_prepareMsg1 (hfs : ∀ f ∈ keyFields, f ∈ fs) (bufferSize : ℕ) :
    Keeps (Bounded fs) (prepareMsg1 C env bufferSize) := by
  refine keeps_prepareMsg1 (fun f hx hy s hs => ?_) (fun s _ _ hs => ?_) bufferSize
  · have hmem : f ∈ keyFields := by
      cases f <;> first | decide | contradiction
    exact hs.log (hs.fits f (hfs f hmem))
  · refine hs.of_eq rfl (fun f hf => ?_) rfl
    cases f <;> exact hs.fits _ hf

lemma keeps_bounded_handleMsg2 (h : 288 ≤ buffer.length → Msg2Fits (Msg2.layout.dec buffer)) :
    Keeps (Bounded allFields) (handleMsg2 C env buffer) :=
  keeps_handleMsg2 (fun _ _ hs => hs.withCtx rfl)
    (fun _ hlen hs => hs.withMsg2 (fun _ => (h hlen).1) fun _ => (h hlen).2)
    (fun _ f hs _ _ ht => ht.log (hs.fits f (mem_allFields f)))

lemma keeps_bounded_prepareMsg3 (buffer data : List UInt8) :
    Keeps (Bounded fs) (prepareMsg3 C env buffer data) :=
  keeps_prepareMsg3 (fun _ _ hs => hs.withCtx rfl) buffer data

lemma keeps_bounded_taConfigureCustomSecret (secret : List UInt8) :
    Keeps (Bounded fs) (taConfigureCustomSecret env secret) :=
  keeps_taConfigureCustomSecret (fun _ _ hs => hs.withCtx rfl) secret

/-- A request that carries a message of the attester carries one that is too short or has sizes
that fit. -/
def BufferFits (r : Request) : Prop :=
  (r.cmdId = Cmd.handleMsg0.id → 72 ≤ r.memref.length → Msg0Fits (Msg0.layout.dec r.memref))
    ∧ (r.cmdId = Cmd.handleMsg2.id → 288 ≤ r.memref.length →
      Msg2Fits (Msg2.layout.dec r.memref))

lemma keeps_bounded_runCmd {r : Request} (h : BufferFits r) {cmd : Cmd} (hid : r.cmdId = cmd.id) :
    Keeps (Bounded allFields) (runCmd C r cmd) := by
  cases cmd with
  | bootstrapSecret =>
    exact Keeps.bind (keeps_bounded_taConfigureCustomSecret _) fun _ => Keeps.pure _
  | handleMsg0 =>
    exact Keeps.bind (keeps_bounded_handleMsg0 (h.1 hid)) fun _ => Keeps.pure _
  | prepareMsg1 => exact Keeps.bind (keeps_bounded_prepareMsg1 (by decide) _) fun _ => Keeps.pure _
  | handleMsg2 =>
    refine Keeps.bind (keeps_bounded_handleMsg2 (h.2 hid)) fun _ => ?_
    exact Keeps.bind Keeps.get fun _ => Keeps.pure _
  | prepareMsg3 =>
    refine Keeps.bind Keeps.get fun _ => ?_
    exact Keeps.bind (keeps_bounded_prepareMsg3 _ _) fun _ => Keeps.pure _

/-! ## Sessions without a MAC key -/

/-- As long as no `msg0` has been accepted there is no MAC key. -/
def Keyless (s : State) : Prop := Bounded keyFields s ∧ s.ctx.ecdhSharedMacKey = .null

lemma triple_verifyMacMsg2 :
    Triple Keyless (verifyMacMsg2 C env) (fun _ _ => False) Keyless := by
  refine Triple.bind keeps_tee fun _ s hs => ?_
  have hcontent : ∀ f : Bytes 16 → Prog Unit,
      Triple Keyless (content env .verifyMacMsg2 .setOperationKey 0 s.ctx.ecdhSharedMacKey >>= f)
        (fun _ _ => False) Keyless := by
    intro f
    rw [hs.2]
    exact Triple.bind triple_content_null fun _ _ h => h.elim
  exact hcontent _ s hs

lemma keeps_keyless_handleMsg2 (buffer : List UInt8) :
    Keeps Keyless (handleMsg2 C env buffer) := by
  refine Keeps.bind (Keeps.modify fun s hs => ⟨hs.1.withCtx rfl, hs.2⟩) fun _ => ?_
  refine Keeps.bind (keeps_storeMsg2 fun s _ hs => ⟨hs.1.withMsg2 ?_ ?_, hs.2⟩) fun _ => ?_
  · exact fun h => absurd h (by decide)
  · exact fun h => absurd h (by decide)
  · exact Triple.bind triple_verifyMacMsg2 fun _ _ h => h.elim

lemma keeps_keyless_handleMsg0 (h : buffer.length < 72) :
    Keeps Keyless (handleMsg0 C env buffer) := by
  have hstore : Triple Keyless (storeMsg0 buffer) (fun _ _ => False) Keyless := by
    intro s hs
    have hstop : storeMsg0 buffer s = .error (.error .shortBuffer) s :=
      bind_of_error (failIf_of_pos h)
    rw [hstop]
    refine ⟨fun a t h => (nomatch h), fun e t h => ?_⟩
    obtain ⟨rfl, rfl⟩ := EStateM.Result.error.inj h
    exact hs
  refine Keeps.bind (keeps_bounded_generateEcdhKeypair.and
    (keeps_generateEcdhKeypair (fun _ _ hs => hs) fun _ _ _ _ _ hs => hs)) fun _ => ?_
  exact Triple.bind hstore fun _ _ h => h.elim

lemma keeps_keyless_runCmd {r : Request}
    (h : r.cmdId = Cmd.handleMsg0.id → r.memref.length < 72) {cmd : Cmd} (hid : r.cmdId = cmd.id) :
    Keeps Keyless (runCmd C r cmd) := by
  cases cmd with
  | bootstrapSecret =>
    exact Keeps.bind ((keeps_bounded_taConfigureCustomSecret _).and
      (keeps_taConfigureCustomSecret (fun _ _ hs => hs) _)) fun _ => Keeps.pure _
  | handleMsg0 => exact Keeps.bind (keeps_keyless_handleMsg0 (h hid)) fun _ => Keeps.pure _
  | prepareMsg1 =>
    exact Keeps.bind ((keeps_bounded_prepareMsg1 (fun _ hf => hf) _).and
      (keeps_prepareMsg1 (fun _ _ _ _ hs => hs) (fun _ _ _ hs => hs) _)) fun _ => Keeps.pure _
  | handleMsg2 =>
    refine Keeps.bind (keeps_keyless_handleMsg2 _) fun _ => ?_
    exact Keeps.bind Keeps.get fun _ => Keeps.pure _
  | prepareMsg3 =>
    refine Keeps.bind Keeps.get fun _ => ?_
    exact Keeps.bind ((keeps_bounded_prepareMsg3 _ _).and
      (keeps_prepareMsg3 (fun _ _ hs => hs) _ _)) fun _ => Keeps.pure _

/-! ## Sessions -/

/-- However its requests end, all reads of a session stay inside the arrays. -/
def SessionInside (C : Crypto) (s : State) (rs : List Request) : Prop :=
  ∀ e ∈ session C s rs, ∀ t ∈ e.before, (final (taInvokeCommandEntryPoint C e.input t)).Inside

variable {attestationKey : Point} {s s' : State} {r : Request} {rs : List Request}

lemma SessionInside.head (h : SessionInside C s (r :: rs)) :
    (final (taInvokeCommandEntryPoint C r s)).Inside :=
  h ⟨some s, r, (step C (some s) r).1⟩ List.mem_cons_self s rfl

lemma SessionInside.tail {out : Output} (h : SessionInside C s (r :: rs))
    (hr : taInvokeCommandEntryPoint C r s = .ok out s') : SessionInside C s' rs := by
  intro e he
  refine h e (List.mem_cons_of_mem _ ?_)
  rw [step_of_ok hr]
  exact he

lemma Opened.bounded (h : Opened C attestationKey s) :
    Bounded allFields s ∧ s.ctx.ecdhSharedMacKey = .null := by
  obtain ⟨env, paramTypes, hopen⟩ := h
  obtain ⟨-, -, rfl⟩ := taOpenSessionEntryPoint_eq_ok.mp hopen
  refine ⟨⟨nofun, fun f _ => ?_, ?_⟩, rfl⟩
  · cases f with
    | ecdsaX => exact Coord.store_fits ..
    | ecdsaY => exact Coord.store_fits ..
    | _ => exact Nat.zero_le 32
  · intro a ha r hr
    rcases List.mem_cons.mp ha with rfl | ha
    · cases hr
    · rw [List.mem_singleton.mp ha] at hr
      cases hr

lemma sessionInside_of_fits (h : Opened C attestationKey s) (hrs : ∀ r ∈ rs, BufferFits r) :
    SessionInside C s rs := by
  intro e he t ht
  exact (final_of_mem_session h.bounded.1
    (fun r hr _ hid => keeps_bounded_runCmd (hrs r hr) hid) e he t ht).inside

lemma sessionInside_of_short (h : Opened C attestationKey s)
    (hrs : ∀ r ∈ rs, r.cmdId = Cmd.handleMsg0.id → r.memref.length < 72) :
    SessionInside C s rs := by
  have hkeys : Bounded keyFields s :=
    ⟨h.bounded.1.inside, fun f hf => h.bounded.1.fits f (by revert f; decide),
      h.bounded.1.refs_le⟩
  intro e he t ht
  exact (final_of_mem_session (I := Keyless) ⟨hkeys, h.bounded.2⟩
    (fun r hr _ hid => keeps_keyless_runCmd (hrs r hr) hid) e he t ht).1.inside

/-! ## Sizes that do not fit -/

lemma exists_handleMsg0 (henv : env.AllOk) (htail : 2 ^ 32 ≤ env.tail.length)
    (hlen : 72 ≤ buffer.length) (s : State) :
    ∃ s' k, handleMsg0 C env buffer s = .ok () s' ∧ s'.ctx.ecdhSharedMacKey = .key k
      ∧ (Field.attesterX, (Msg0.layout.dec buffer).ecdhAttesterPublicKeyX.size.toNat) ∈ s'.reads
      ∧ (Field.attesterY, (Msg0.layout.dec buffer).ecdhAttesterPublicKeyY.size.toNat)
        ∈ s'.reads := by
  have hmsgs : ∀ key, (s.withPeer C env.freshKey buffer key).msgs
      = ((s.withEcdhKey C env.freshKey).withMsg0 buffer).msgs := fun _ => rfl
  obtain ⟨x, hx⟩ := ((s.withEcdhKey C env.freshKey).withMsg0 buffer).msgs.exists_read htail
    .attesterX (Msg0.layout.dec buffer).ecdhAttesterPublicKeyX.size
  obtain ⟨y, hy⟩ := ((s.withEcdhKey C env.freshKey).withMsg0 buffer).msgs.exists_read htail
    .attesterY (Msg0.layout.dec buffer).ecdhAttesterPublicKeyY.size
  refine ⟨_, _, handleMsg0_eq_ok.mpr ⟨hlen, callsOk_of_allOk henv _, x, y, _, rfl, hx, hy, rfl⟩,
    rfl, ?_, ?_⟩
  · simp
  · simp

lemma exists_handleMsg2 {stop : Stop}
    (hcalls : env.Ok .verifyMacMsg2 [(.allocateOperation, 0), (.setOperationKey, 0)])
    (hstop : env.outcome ⟨.verifyMacMsg2, .macCompareFinal, 0⟩ = some stop)
    (htail : 2 ^ 32 ≤ env.tail.length) (hlen : 288 ≤ buffer.length) {s : State} {k : Bytes 16}
    (hk : s.ctx.ecdhSharedMacKey = .key k) :
    ∃ s', handleMsg2 C env buffer s = .error stop s'
      ∧ (Field.localX, (Msg2.layout.dec buffer).ecdhLocalPublicKeyX.size.toNat) ∈ s'.reads
      ∧ (Field.localY, (Msg2.layout.dec buffer).ecdhLocalPublicKeyY.size.toNat) ∈ s'.reads := by
  obtain ⟨data, hdata⟩ := (s.withMsg2 buffer).msgs.exists_concat htail msg2MacFields
  have hverify : verifyMacMsg2 C env (s.withMsg2 buffer) = .error stop
      ((s.withMsg2 buffer).log (List.map (s.withMsg2 buffer).msgs.use msg2MacFields)) := by
    rw [Env.ok_cons, Env.ok_cons] at hcalls
    refine (bind_of_ok (tee_eq_ok (u := ()).mpr ⟨hcalls.1, rfl⟩)).trans ?_
    refine (bind_of_ok (get_eq_ok.mpr ⟨rfl, rfl⟩)).trans ?_
    refine (bind_of_ok (content_eq_ok.mpr ⟨hcalls.2.1, hk, rfl⟩)).trans ?_
    refine (bind_of_ok (updates_eq_ok.mpr ⟨hdata, rfl⟩)).trans ?_
    exact bind_of_error (tee_of_some hstop)
  have hrun : handleMsg2 C env buffer s = .error stop
      ((s.withMsg2 buffer).log (List.map (s.withMsg2 buffer).msgs.use msg2MacFields)) := by
    refine (bind_of_ok (modify_eq_ok (u := ()).mpr rfl)).trans ?_
    refine (bind_of_ok (storeMsg2_eq_ok (u := ()).mpr ⟨hlen, rfl⟩)).trans ?_
    exact bind_of_error hverify
  refine ⟨_, hrun, ?_, ?_⟩
  · simp [msg2MacFields, Messages.use, Field.coord, State.withMsg2]
  · simp [msg2MacFields, Messages.use, Field.coord, State.withMsg2]

end

end Watz.Verifier
