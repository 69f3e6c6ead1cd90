import Watz.Verifier.Frame

/-!
# The keys of a session

Which quotes the verifier accepts depends on four keys in its context: the attestation key, the MAC
key and the two coordinates of its own ephemeral key.  Only `handle_msg0` and the opening of a
session touch them.
-/

namespace Watz.Verifier

open Lib

/-! ## The keys of a session -/

/-- The keys in the context that decide which quotes are accepted. -/
structure Keys where
  macKey : Obj (Bytes 16)
  attestationKey : Obj Point
  gvX : Coord
  gvY : Coord

def View.keys (v : View) : Keys where
  macKey := v.macKey
  attestationKey := v.attestationKey
  gvX := v.coord .verifierX
  gvY := v.coord .verifierY

def State.keys (s : State) : Keys := s.view.keys

/-- The ephemeral key of the verifier is the public key of `d`. -/
def Keys.Gv (k : Keys) (C : Crypto) (d : ℕ) : Prop :=
  ∃ x y : Coord, k.gvX = x.store (C.publicKey d).x ∧ k.gvY = y.store (C.publicKey d).y

section

variable {C : Crypto} {env : Env Fn}

lemma keeps_keys_runCmd (r : Request) {cmd : Cmd} (hcmd : cmd ≠ .handleMsg0) (k : Keys) :
    Keeps (fun s => s.keys = k) (runCmd C r cmd) := by
  cases cmd with
  | bootstrapSecret =>
    exact Keeps.bind (keeps_taConfigureCustomSecret (fun _ _ hs => hs) r.memref) fun _ =>
      Keeps.pure _
  | handleMsg0 => exact absurd rfl hcmd
  | prepareMsg1 =>
    exact Keeps.bind (keeps_prepareMsg1 (fun _ _ _ _ hs => hs) (fun _ _ _ hs => hs) _) fun _ =>
      Keeps.pure _
  | handleMsg2 =>
    refine Keeps.bind (keeps_handleMsg2 (fun _ _ hs => hs) (fun _ _ hs => hs)
      (fun _ _ _ _ _ hs => hs)) fun _ => ?_
    exact Keeps.bind Keeps.get fun _ => Keeps.pure _
  | prepareMsg3 =>
    refine Keeps.bind Keeps.get fun s => ?_
    exact Keeps.bind (keeps_prepareMsg3 (fun _ _ hs => hs) r.memref s.ctx.secret) fun _ =>
      Keeps.pure _

/-! ## A new session -/

lemma keeps_attestationKey_handleMsg0 (buffer : List UInt8) (h : Obj Point) :
    Keeps (fun s : State => s.ctx.ecdsaAttesterPublicKeyHandle = h)
      (handleMsg0 C env buffer) :=
  Keeps.bind (keeps_generateEcdhKeypair (fun _ _ hs => hs) fun _ _ _ _ _ hs => hs) fun _ =>
    keeps_afterKeypair (fun _ _ hs => hs) (fun _ hs => hs) (fun _ _ hkey _ _ hs => hkey.trans hs)
      (fun _ _ _ _ _ _ _ hs => hs)

lemma gv_final_handleMsg0 (h : env.Ok .generateEcdhKeypair Fn.generateEcdhKeypair.sites)
    (buffer : List UInt8) (s : State) :
    (final (handleMsg0 C env buffer s)).keys.Gv C env.freshKey := by
  have hgv : (s.withEcdhKey C env.freshKey).keys.Gv C env.freshKey := by
    refine ⟨s.msgs.msg1.ecdhVerifierPublicKeyX, s.msgs.msg1.ecdhVerifierPublicKeyY, ?_, ?_⟩ <;>
      dsimp only [State.keys, State.view, View.keys, Field.coord, State.withEcdhKey]
  rw [handleMsg0, bind_of_ok (generateEcdhKeypair_eq_ok (u := ()).mpr ⟨h, rfl⟩)]
  exact (keeps_afterKeypair (I := fun s => s.keys.Gv C env.freshKey) (fun _ _ hs => hs)
    (fun _ hs => hs) (fun _ _ _ _ _ hs => hs) (fun _ _ _ _ _ _ _ hs => hs)).final_of hgv

end

end Watz.Verifier
