import Watz.Attester.Spec

/-!
# The reads of the attester through size fields

The attester takes the lengths of the coordinates in `msg1` from the message.  If these sizes are
at most 32, all reads of a handshake stay inside the arrays, however it ends.
-/

namespace Watz.Attester

open Lib

/-- The arrays a handshake reads. -/
def handshakeFields : List Field :=
  [.attesterX, .attesterY, .verifierX, .verifierY, .ecdsaX, .ecdsaY]

/-- The invariant of this file. -/
abbrev Bounded (s : State) : Prop := s.Bounded RaContext.refs handshakeFields

/-- The sizes in `msg1` stay within their arrays. -/
def Msg1Fits (m : Msg1) : Prop :=
  m.ecdhVerifierPublicKeyX.Fits ∧ m.ecdhVerifierPublicKeyY.Fits
    ∧ m.ecdsaVerifierPublicKeyX.Fits ∧ m.ecdsaVerifierPublicKeyY.Fits

section

variable {C : Crypto} {env : Env Fn}

/-! ## A message with sizes that fit -/

variable {s : State} {ctx : RaContext}

lemma bounded_allocated (hs : s.Inside) : Bounded s.allocated := by
  refine ⟨hs, fun f hf => ?_, ?_⟩
  · cases f with
    | attesterX => exact le_refl 32
    | attesterY => exact le_refl 32
    | _ => exact Nat.zero_le 32
  · intro a ha r hr
    simp only [RaContext.refs, State.allocated, State.zero, List.mem_cons, List.not_mem_nil, or_false, or_self]
      at ha
    rw [ha] at hr
    cases hr

lemma Bounded.withCtx (hs : Bounded s) (h : ctx.refs = s.ctx.refs) :
    Bounded { s with ctx := ctx } :=
  hs.of_eq rfl hs.fits h

lemma Bounded.withGa (hs : Bounded s) {x y : Coord} (hx : x.Fits) (hy : y.Fits) :
    Bounded { s with
      msgs.msg0.ecdhAttesterPublicKeyX := x
      msgs.msg0.ecdhAttesterPublicKeyY := y } := by
  refine hs.of_eq rfl (fun f hf => ?_) rfl
  cases f with
  | attesterX => exact hx
  | attesterY => exact hy
  | _ => exact hs.fits _ hf

lemma keeps_bounded_generateEcdhKeypair : Keeps Bounded (generateEcdhKeypair C env) := by
  refine Keeps.bind keeps_tee fun _ => ?_
  refine Keeps.bind (Keeps.modify fun _ hs => hs.withCtx rfl) fun _ => ?_
  refine Keeps.bind keeps_tee fun _ => ?_
  refine Keeps.bind (Keeps.modify fun _ hs => hs.withCtx rfl) fun _ => ?_
  refine Keeps.bind keeps_tee fun _ => ?_
  refine Keeps.bind (Keeps.modify fun _ hs =>
    hs.withGa (Coord.store_fits ..) (hs.fits .attesterY (by decide))) fun _ => ?_
  refine Keeps.bind keeps_tee fun _ => ?_
  exact Keeps.modify fun _ hs => hs.withGa (hs.fits .attesterX (by decide)) (Coord.store_fits ..)

lemma Bounded.withMsg1 (hs : Bounded s) {m : Msg1} (h : Msg1Fits m) :
    Bounded { s with msgs.msg1 := m } := by
  refine hs.of_eq rfl (fun f hf => ?_) rfl
  cases f with
  | verifierX => exact h.1
  | verifierY => exact h.2.1
  | ecdsaX => exact h.2.2.1
  | ecdsaY => exact h.2.2.2
  | _ => exact hs.fits _ hf

lemma Bounded.withAttrs (hs : Bounded s)
    (h : ∀ a ∈ ctx.refs, a ∈ s.ctx.refs
      ∨ ∃ f ∈ handshakeFields, a = some ⟨f, (f.coord s.msgs).size.toNat⟩) :
    Bounded { s with ctx := ctx } := by
  refine ⟨hs.inside, hs.fits, fun a ha r hr => ?_⟩
  rcases h a ha with hold | ⟨f, hf, rfl⟩
  · exact hs.refs_le a hold r hr
  · cases hr
    exact hs.fits f hf

/-- A handshake in which no `msg1` arrives, or one that is too short or has sizes that fit, reads
only inside the arrays and leaves a context that is bounded. -/
lemma bounded_raNetHandshake
    (h : ∀ image, receiveSocketPerChunk env.inbox 224 224 [] = .ok image → 224 ≤ image.length →
      Msg1Fits (Msg1.layout.dec image)) (x y : List UInt8) (anchorSize : ℕ) (hs : s.Inside) :
    Bounded (final (raNetHandshake C env x y anchorSize s)) := by
  -- `alloc_ra_context` cannot fail, so all that follows starts in a bounded context
  have hrest : Keeps Bounded (generateEcdhKeypair C env >>= fun _ =>
      establishTcpConnection env >>= fun _ => sendMsg0 env >>= fun _ => receiveMsg1 env >>= fun _ =>
        authenticateVerifier C env x y >>= fun _ => deriveKeys C env >>= fun _ =>
          verifyMsg1Mac C env >>= fun _ => generateAnchor C env anchorSize) := by
    refine Keeps.bind keeps_bounded_generateEcdhKeypair fun _ => Keeps.bind keeps_tee fun _ => ?_
    refine Keeps.bind (Keeps.bind keeps_tee fun _ => Keeps.modify fun _ hs => hs.withCtx rfl)
      fun _ => Keeps.bind (keeps_receiveMsg1 ?_ ?_) fun _ => keeps_checkMsg1 ?_ ?_ ?_ ?_
    · exact fun image hrecv hlen _ hs => hs.withMsg1 (h image hrecv hlen)
    · exact fun s hs => hs.withAttrs (by simp [RaContext.refs, handshakeFields, Field.coord])
    · exact fun s hs => hs.withAttrs (by simp [RaContext.refs, handshakeFields, Field.coord])
    · exact fun _ _ _ hrefs hs => hs.withCtx hrefs
    · exact fun _ hs a ha r hr _ ht => ht.log (hs.refs_le a ha r hr)
    · intro f hx hy s hs
      have hf : f ∈ handshakeFields := by
        cases f <;> first | decide | contradiction
      exact hs.log (hs.fits f hf)
  rw [raNetHandshake_eq_bind, exchangeKeys]
  simp only [bind_assoc]
  rw [bind_of_ok (allocRaContext_eq_ok (u := ()).mpr rfl)]
  exact hrest.final_of (bounded_allocated hs)

/-! ## Sizes that do not fit -/

/-- With enough memory behind the context, an arriving `msg1` is read as far as its sizes say
before its signature is checked. -/
lemma exists_raNetHandshake {stop : Stop}
    (hcalls : CallsOk Fn.sites env
      [.generateEcdhKeypair, .establishTcpConnection, .sendMsg0, .importVerifierAttestationKey])
    (halloc : env.outcome ⟨.verifyEcdhPublicKeySignature, .allocateOperation, 0⟩ = none)
    (hstop : env.outcome ⟨.verifyEcdhPublicKeySignature, .digestDoFinal, 0⟩ = some stop)
    (htail : 2 ^ 32 ≤ env.tail.length) {image : List UInt8}
    (hrecv : receiveSocketPerChunk env.inbox 224 224 [] = .ok image) (hlen : 224 ≤ image.length)
    (anchorSize : ℕ) (s : State) :
    ∃ s', raNetHandshake C env [] [] anchorSize s = .error stop s'
      ∧ ∀ f ∈ [Field.ecdsaX, .ecdsaY, .verifierX, .verifierY],
        (f, (f.coord (s.answered C env.freshKey image).msgs).size.toNat) ∈ s'.reads := by
  obtain ⟨key, hkey⟩ :=
    (s.answered C env.freshKey image).msgs.exists_point htail .ecdsaX .ecdsaY
  obtain ⟨data, hdata⟩ := (s.answered C env.freshKey image).msgs.exists_concat htail signatureFields
  simp only [callsOk_cons, callsOk_nil] at hcalls
  obtain ⟨h1, h2, h3, h4, -⟩ := hcalls
  have hsignature : ∀ t : State, t.msgs = (s.answered C env.freshKey image).msgs →
      verifyEcdhPublicKeySignature C env t = .error stop
        (t.log (List.map t.msgs.use signatureFields)) := by
    intro t ht
    rw [← ht] at hdata
    refine (bind_of_ok (tee_eq_ok (u := ()).mpr ⟨halloc, rfl⟩)).trans ?_
    refine (bind_of_ok (updates_eq_ok.mpr ⟨hdata, rfl⟩)).trans ?_
    exact bind_of_error (tee_of_some hstop)
  have hauth : authenticateVerifier C env [] [] (s.answered C env.freshKey image)
      = .error stop (((s.answered C env.freshKey image).withVerifierKey key).log
        (List.map (s.answered C env.freshKey image).msgs.use
          [.ecdsaX, .ecdsaY, .verifierX, .verifierY, .attesterX, .attesterY])) := by
    refine (bind_of_ok (verifyServicePublicKey_eq_ok (u := ()).mpr ⟨.inl ⟨rfl, rfl⟩, rfl⟩)).trans ?_
    refine (bind_of_ok (importVerifierAttestationKey_eq_ok (u := ()).mpr
      ⟨h4, key, hkey, rfl⟩)).trans ?_
    refine (hsignature _ ?_).trans ?_
    · rfl
    · rw [TaState.log_log]
      rfl
  have hrun : raNetHandshake C env [] [] anchorSize s
      = .error stop (((s.answered C env.freshKey image).withVerifierKey key).log
        (List.map (s.answered C env.freshKey image).msgs.use
          [.ecdsaX, .ecdsaY, .verifierX, .verifierY, .attesterX, .attesterY])) := by
    have hexchange : exchangeKeys C env s = .ok () (s.answered C env.freshKey image) :=
      exchangeKeys_eq_ok.mpr ⟨by simp [h1, h2, h3], image, hrecv, hlen, rfl⟩
    rw [raNetHandshake_eq_bind, bind_of_ok hexchange]
    exact bind_of_error hauth
  refine ⟨_, hrun, fun f hf => List.mem_append_right _ (List.mem_map.mpr ⟨f, ?_, rfl⟩)⟩
  revert f
  decide

end

end Watz.Attester
