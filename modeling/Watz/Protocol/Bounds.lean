import Watz.Attester.Bounds
import Watz.Verifier.Bounds
import Watz.Protocol.Preimages

/-!
# Size fields from the network

Both parties use the size fields of the messages they receive as lengths.  The messages in which
this is harmless, whatever else happens in the session, are those that are too short to be accepted
and those whose size fields are at most 32.
-/

namespace Watz.Protocol

open Lib Verifier

/-- In every session of the verifier in which the `msg0` and the `msg2` that arrive are the given
ones, all reads stay inside the arrays. -/
def VerifierInside (msg0 msg2 : List UInt8) : Prop :=
  ∀ (C : Crypto) (attestationKey : Point) (s : State) (rs : List Request),
    Opened C attestationKey s →
    (∀ r ∈ rs, r.cmdId = Cmd.handleMsg0.id → r.memref = msg0) →
    (∀ r ∈ rs, r.cmdId = Cmd.handleMsg2.id → r.memref = msg2) →
    SessionInside C s rs

/-- In every handshake of the attester in which the `msg1` that arrives is the given one, all reads
stay inside the arrays. -/
def AttesterInside (msg1 : List UInt8) : Prop :=
  ∀ (C : Crypto) (env : Env Attester.Fn) (x y : List UInt8) (anchorSize : ℕ) (s : Attester.State),
    Attester.receiveSocketPerChunk env.inbox 224 224 [] = .ok msg1 → s.Inside →
    (final (Attester.raNetHandshake C env x y anchorSize s)).Inside

/-! ## Environments with memory for every read -/

/-- The memory behind the context and the data from the network are as given, and every call
succeeds. -/
def crowded (F : Type) (tail : List UInt8) (inbox : List (Except Stop (List UInt8))) : Env F :=
  { Env.calm F 0 with tail := tail, inbox := inbox }

/-- All calls of one kind fail. -/
def failing {F : Type} (env : Env F) (api : Api) : Env F :=
  { env with outcome := fun site => if site.api = api then some (.error .generic) else none }

lemma crowded_allOk (F : Type) (tail : List UInt8) (inbox : List (Except Stop (List UInt8))) :
    (crowded F tail inbox).AllOk := fun _ => rfl

lemma failing_outcome {F : Type} (env : Env F) (site : CallSite F) :
    (failing env site.api).outcome site = some (.error .generic) := if_pos rfl

lemma exists_tail : ∃ tail : List UInt8, 2 ^ 32 ≤ tail.length :=
  ⟨List.replicate (2 ^ 32) 0, by rw [List.length_replicate]⟩

/-! ## The verifier -/

section

variable {C : Crypto} {attestationKey : Point} {s : State} {msg0 msg2 : List UInt8}

lemma verifierInside_of_fits
    (h0 : msg0.length < 72 ∨ Msg0Fits (Msg0.layout.dec msg0))
    (h2 : msg0.length < 72 ∨ msg2.length < 288 ∨ Msg2Fits (Msg2.layout.dec msg2)) :
    VerifierInside msg0 msg2 := by
  intro C attestationKey s rs hopened hmsg0 hmsg2
  by_cases hshort : msg0.length < 72
  · exact sessionInside_of_short hopened fun r hr hid => hmsg0 r hr hid ▸ hshort
  · refine sessionInside_of_fits hopened fun r hr => ⟨fun hid _ => ?_, fun hid hlen => ?_⟩
    · exact hmsg0 r hr hid ▸ h0.resolve_left hshort
    · rw [hmsg2 r hr hid] at hlen ⊢
      exact (h2.resolve_left hshort).resolve_left (not_lt.mpr hlen)

/-- A client that shows a message to the verifier. -/
def showing (cmd : Cmd) (memref : List UInt8) (env : Env Fn) :
    Request where
  cmdId := cmd.id
  paramTypes := cmd.paramTypes
  memref := memref
  env := env

lemma showing_handleMsg0 {env : Env Fn} {u : Unit} {s' : State}
    (h : handleMsg0 C env msg0 s = .ok u s') :
    taInvokeCommandEntryPoint C (showing .handleMsg0 msg0 env) s
      = .ok ⟨none, none⟩ s' := by
  have hcmd : runCmd C (showing .handleMsg0 msg0 env) .handleMsg0 s
      = .ok ⟨none, none⟩ s' := bind_of_ok h
  rw [← hcmd]
  exact taInvokeCommandEntryPoint_eq_runCmd rfl rfl

lemma showing_handleMsg2 {env : Env Fn} {stop : Stop} {s' : State}
    (h : handleMsg2 C env msg2 s = .error stop s') :
    taInvokeCommandEntryPoint C (showing .handleMsg2 msg2 env) s = .error stop s' := by
  have hcmd : runCmd C (showing .handleMsg2 msg2 env) .handleMsg2 s = .error stop s' :=
    bind_of_error h
  rw [← hcmd]
  exact taInvokeCommandEntryPoint_eq_runCmd rfl rfl

/-- A `msg0` that is long enough is read as far as its sizes say, and so is a `msg2` that follows
it; the session that shows this ends with a failing `TEE_MACCompareFinal`. -/
lemma fits_of_verifierInside (h : VerifierInside msg0 msg2) (hlen : 72 ≤ msg0.length) :
    Msg0Fits (Msg0.layout.dec msg0)
      ∧ (288 ≤ msg2.length → Msg2Fits (Msg2.layout.dec msg2)) := by
  obtain ⟨tail, htail⟩ := exists_tail
  obtain ⟨s', k, hrun, hk, hx, hy⟩ := exists_handleMsg0 (C := Crypto.sample)
    (crowded_allOk Fn tail []) htail hlen
    (State.zero.opened Crypto.sample ⟨0, 0⟩ 0)
  have hsession := h Crypto.sample ⟨0, 0⟩ (State.zero.opened Crypto.sample ⟨0, 0⟩ 0)
    [showing .handleMsg0 msg0 (crowded Fn tail []),
      showing .handleMsg2 msg2 (failing (crowded Fn tail []) .macCompareFinal)]
    (opened_of_allOk (Env.calm_allOk Fn 0) ⟨0, 0⟩)
    (by simp [showing, Cmd.id]) (by simp [showing, Cmd.id])
  have hinvoke := showing_handleMsg0 hrun
  have hinside := hsession.head
  rw [hinvoke] at hinside
  refine ⟨⟨hinside _ hx, hinside _ hy⟩, fun hlen2 => ?_⟩
  have hcalls : (failing (crowded Fn tail []) .macCompareFinal).Ok .verifyMacMsg2
      [(.allocateOperation, 0), (.setOperationKey, 0)] := by
    simp [failing]
  obtain ⟨t, hrun2, hx2, hy2⟩ :=
    exists_handleMsg2 (C := Crypto.sample) hcalls (failing_outcome _ _) htail hlen2 hk
  have hinside2 := (hsession.tail hinvoke).head
  rw [showing_handleMsg2 hrun2] at hinside2
  exact ⟨hinside2 _ hx2, hinside2 _ hy2⟩

end

/-! ## The attester -/

lemma fits_of_attesterInside {msg1 : List UInt8} {inbox : List (Except Stop (List UInt8))}
    (hrecv : Attester.receiveSocketPerChunk inbox 224 224 [] = .ok msg1)
    (h : AttesterInside msg1) (hlen : 224 ≤ msg1.length) :
    Attester.Msg1Fits (Msg1.layout.dec msg1) := by
  obtain ⟨tail, htail⟩ := exists_tail
  have hcalls : CallsOk Attester.Fn.sites
      (failing (crowded Attester.Fn tail inbox) .digestDoFinal)
      [.generateEcdhKeypair, .establishTcpConnection, .sendMsg0,
        .importVerifierAttestationKey] := by
    simp [Attester.Fn.sites, failing]
  obtain ⟨s', hrun, hreads⟩ := Attester.exists_raNetHandshake (C := Crypto.sample) hcalls rfl
    (failing_outcome _ _) htail hrecv hlen 32 Attester.State.zero
  have hinside := h Crypto.sample (failing (crowded Attester.Fn tail inbox) .digestDoFinal) [] []
    32 Attester.State.zero hrecv fun _ hr => absurd hr List.not_mem_nil
  rw [hrun] at hinside
  exact ⟨hinside _ (hreads .verifierX (by decide)), hinside _ (hreads .verifierY (by decide)),
    hinside _ (hreads .ecdsaX (by decide)), hinside _ (hreads .ecdsaY (by decide))⟩

/-! ## Both -/

/-- All reads that the verifier and the attester make through size fields stay inside the arrays,
in every session in which the given messages arrive, exactly if each message is too short to be
accepted or has sizes of at most 32; only a `msg2` that no `msg0` can precede may have any. -/
theorem reads_inside_iff {msg0 msg1 msg2 : List UInt8} {inbox : List (Except Stop (List UInt8))}
    (hrecv : Attester.receiveSocketPerChunk inbox 224 224 [] = .ok msg1) :
    VerifierInside msg0 msg2 ∧ AttesterInside msg1 ↔
      (msg0.length < 72 ∨ Msg0Fits (Msg0.layout.dec msg0))
        ∧ (msg1.length < 224 ∨ Attester.Msg1Fits (Msg1.layout.dec msg1))
        ∧ (msg0.length < 72 ∨ msg2.length < 288 ∨ Msg2Fits (Msg2.layout.dec msg2)) := by
  constructor
  · rintro ⟨hverifier, hattester⟩
    refine ⟨?_, ?_, ?_⟩
    · rcases lt_or_ge msg0.length 72 with hlen | hlen
      · exact .inl hlen
      · exact .inr (fits_of_verifierInside hverifier hlen).1
    · rcases lt_or_ge msg1.length 224 with hlen | hlen
      · exact .inl hlen
      · exact .inr (fits_of_attesterInside hrecv hattester hlen)
    · rcases lt_or_ge msg0.length 72 with hlen | hlen
      · exact .inl hlen
      rcases lt_or_ge msg2.length 288 with hlen2 | hlen2
      · exact .inr (.inl hlen2)
      · exact .inr (.inr ((fits_of_verifierInside hverifier hlen).2 hlen2))
  · rintro ⟨h0, h1, h2⟩
    refine ⟨verifierInside_of_fits h0 h2, fun C env x y anchorSize s hrecv hs => ?_⟩
    refine (Attester.bounded_raNetHandshake (fun image himage hlen => ?_) x y anchorSize hs).inside
    rw [hrecv] at himage
    cases himage
    exact h1.resolve_left (not_lt.mpr hlen)

/-- Messages of the right lengths whose coordinates use all of their arrays meet the condition. -/
theorem reads_inside_full :
    VerifierInside (Msg0.layout.enc (blank fun _ => 32).msg0) (Msg2.layout.enc (blank fun _ => 32).msg2)
      ∧ AttesterInside (Msg1.layout.enc (blank fun _ => 32).msg1) := by
  have hrecv : Attester.receiveSocketPerChunk [.ok (Msg1.layout.enc (blank fun _ => 32).msg1)] 224
      224 [] = .ok (Msg1.layout.enc (blank fun _ => 32).msg1) := by decide +kernel
  refine (reads_inside_iff hrecv).mpr ⟨.inr ?_, .inr ?_, .inr (.inr ?_)⟩
  · rw [Layout.dec_enc]
    exact ⟨le_refl 32, le_refl 32⟩
  · rw [Layout.dec_enc]
    exact ⟨le_refl 32, le_refl 32, le_refl 32, le_refl 32⟩
  · rw [Layout.dec_enc]
    exact ⟨le_refl 32, le_refl 32⟩

/-- A coordinate whose size field says 33. -/
def longCoord : Coord := ⟨Bytes.zero 32, 33⟩

/-- A verifier that is shown a `msg0` with a size of 33 reads past the array, and so does an attester
that receives such a `msg1`; every call succeeds. -/
theorem reads_past_array :
    (∃ s, Opened Crypto.sample ⟨0, 0⟩ s
      ∧ (Field.attesterX, 33) ∈ (final (taInvokeCommandEntryPoint Crypto.sample
          (.calm .handleMsg0 (Msg0.layout.enc ⟨longCoord, Coord.zero⟩) 5) s)).reads)
      ∧ (Field.ecdsaX, 33) ∈ (final (Attester.raNetHandshake Crypto.sample
          { Env.calm Attester.Fn 7 with
            inbox := [.ok (Msg1.layout.enc { Msg1.zero with ecdsaVerifierPublicKeyX := longCoord })] }
          [] [] 32 Attester.State.zero)).reads := by
  refine ⟨⟨_, opened_of_allOk (Env.calm_allOk Fn 0) ⟨0, 0⟩, ?_⟩, ?_⟩
  · decide +kernel
  · decide +kernel

end Watz.Protocol
