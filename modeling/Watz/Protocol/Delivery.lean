import Watz.Host.Connection
import Watz.Attester.Receive

/-!
# The delivery of the secret

The host of the verifier sends the whole of its buffer, whose size it has computed from the size of
the secret; the attester computes the size of what it waits for from the size of its own buffer,
and receives in pieces.  Both sizes agree, and no fragmentation of the stream does any harm.
-/

namespace Watz.Protocol

open Lib Attester

/-- A buffer into which `prepare_msg3` has put a secret has room for header and overhead, so the
size that its host has computed did not wrap around. -/
lemma buffSize_of_prepareMsg3 {C : Crypto} {env : Env Verifier.Fn} {v v' : Verifier.State}
    {buffer secret out : List UInt8} {secretSize : UInt32} (hsecret : secret.length = secretSize.toNat)
    (hbuffer : buffer.length = Host.buffSize secretSize)
    (h : Verifier.prepareMsg3 C env buffer secret v = .ok out v') :
    buffer.length = 52 + secret.length + 16 ∧ 52 + secret.length + 16 < 2 ^ 32 := by
  obtain ⟨hroom, -⟩ := Verifier.prepareMsg3_eq_ok.mp h
  rw [hbuffer, Host.buffSize, Msg3.layout_size] at hroom ⊢
  have hlt := secretSize.toNat_lt
  omega

/-- However the network cuts the message of `prepare_msg3` into pieces, the attester with a buffer
of the size of the secret receives all of it, asks for nothing after it, and decrypts the
secret. -/
theorem secret_delivered {C : Crypto} (hdecrypt : C.DecryptEncrypt) {verifierEnv : Env Verifier.Fn}
    {v v' : Verifier.State} {buffer secret out : List UInt8} {secretSize : UInt32}
    (hsecret : secret.length = secretSize.toNat) (hbuffer : buffer.length = Host.buffSize secretSize)
    (hprepare : Verifier.prepareMsg3 C verifierEnv buffer secret v = .ok out v')
    {env : Env Attester.Fn} (henv : env.AllOk) {s : Attester.State}
    (hkey : s.ctx.ecdhSharedSessionKey = v.ctx.ecdhSharedSessionKey)
    {pieces : List (List UInt8)} (hpieces : pieces.flatten = out) (hne : [] ∉ pieces)
    (hadm : Admissible (256 * 1024) pieces) {later : List (Except Stop (List UInt8))}
    (hinbox : env.inbox = pieces.map .ok ++ later) (rest : List UInt8) :
    out.length = secret.length + Msg3.layout.size + 16
      ∧ receiveSocketPerChunk env.inbox (256 * 1024) (Msg3.layout.size + secret.length + 16) []
        = .ok out
      ∧ raNetReceiveData C env secret.length rest s = .ok secret (s.withMsg3 out) := by
  obtain ⟨hlen, hlt⟩ := buffSize_of_prepareMsg3 hsecret hbuffer hprepare
  obtain ⟨hroom, -, k, hk, rfl, -⟩ := Verifier.prepareMsg3_eq_ok.mp hprepare
  have hout : (Verifier.msg3Image C k verifierEnv.random secret
      ++ buffer.drop (52 + secret.length)).length = 52 + secret.length + 16 := by
    rw [List.length_append, Verifier.msg3Image_length, List.length_drop]
    omega
  have hrecv : receiveSocketPerChunk env.inbox (256 * 1024) (52 + secret.length + 16) []
      = .ok (Verifier.msg3Image C k verifierEnv.random secret
        ++ buffer.drop (52 + secret.length)) := by
    obtain ⟨chunk, -, hloop⟩ := receiveSocketPerChunk_append later [] hadm hne (by norm_num)
      (by rw [hpieces, hout, List.length_nil, Nat.zero_add])
    rw [hinbox, hloop, hpieces, List.nil_append, receiveSocketPerChunk_full hout.ge]
  refine ⟨by rw [hout, Msg3.layout_size]; omega, hrecv, ?_⟩
  exact raNetReceiveData_msg3Image hdecrypt henv (hkey.trans hk) le_rfl (by omega)
    (by rw [Nat.mod_eq_of_lt hlt]; exact hrecv) rest

/-- The message for a secret of two bytes, encrypted with the sample algorithms, in two pieces. -/
def samplePieces : List (List UInt8) :=
  [List.replicate 48 0, [2, 0, 0, 0, 4, 2] ++ List.replicate 16 0]

/-- A secret of two bytes, whose message arrives in two pieces. -/
theorem secret_delivered_sample :
    ∃ s', raNetReceiveData Crypto.sample
      { Env.calm Attester.Fn 0 with inbox := samplePieces.map .ok } 2 []
      { Attester.State.zero with ctx.ecdhSharedSessionKey := .key (Bytes.zero 16) }
        = .ok [4, 2] s' := by
  have hprepare : Verifier.prepareMsg3 Crypto.sample (Env.calm Verifier.Fn 0)
      (List.replicate 70 0) [4, 2]
      { Verifier.State.zero with ctx.ecdhSharedSessionKey := .key (Bytes.zero 16) }
        = .ok samplePieces.flatten _ := rfl
  have henv : Env.AllOk { Env.calm Attester.Fn 0 with inbox := samplePieces.map .ok } :=
    fun _ => rfl
  have hsecret : ([4, 2] : List UInt8).length = UInt32.toNat 2 := rfl
  have hbuffer : (List.replicate 70 (0 : UInt8)).length = Host.buffSize 2 := rfl
  have hrun := secret_delivered Crypto.sample_decryptEncrypt hsecret hbuffer hprepare henv
    (s := { Attester.State.zero with ctx.ecdhSharedSessionKey := .key (Bytes.zero 16) }) rfl rfl
    (by decide : [] ∉ samplePieces) (by decide) (List.append_nil _).symm []
  exact ⟨_, hrun.2.2⟩

end Watz.Protocol
