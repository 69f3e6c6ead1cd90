import Watz.Attester.Spec
import Watz.Lib.Cleanup
import Watz.Verifier.Spec

/-!
# The handles of the cryptographic helpers

The functions of both applications that derive keys, sign, and compute MACs and digests allocate
operations and objects of the TEE and free them at a label `out`.  This file has their calls in
order, with the handles each one allocates and with what happens when it fails, and says for which
failures every handle is freed exactly once.

`TEE_AllocateOperation` and `TEE_AllocateTransientObject` leave their output alone on failure, so
that a variable which no call has written is freed with whatever the stack holds.  The calls that
return nothing and can only panic (`TEE_DigestUpdate`, `TEE_MACInit`, `TEE_ResetOperation`) are
left out, except for `TEE_DeriveKey`; a digest or a tag of the wrong length, on which the functions
do the same as on an error, counts as an error of the call that computes it.
-/

namespace Watz.Protocol

open Lib

/-- What a helper can fail at. -/
inductive Site where
  /-- A call of the TEE: the function called, and which of the calls it is. -/
  | call (api : Api) (nth : ℕ)
  /-- The check of the size of the anchor buffer. -/
  | anchorSize
  /-- The comparison of the anchor with the received one. -/
  | anchorCompare
deriving DecidableEq

/-- The local variables for handles. -/
inductive Var where
  /-- `operation_handle`, `aes_cmac_op`. -/
  | operation
  /-- `ecdh_shared_secret_handle`. -/
  | sharedSecret
  /-- `aes_cmac_key_handle`, `aes_key_handle`. -/
  | aesKey
deriving DecidableEq

/-- The calls of a helper. -/
abbrev Code := Routine Site Var

/-- A call that allocates an operation. -/
def allocateOperation (nth : ℕ) (exit : Exit) : Step Site Var :=
  ⟨.call .allocateOperation nth, .allocates .operation, exit⟩

/-- A call that allocates an object for the function. -/
def allocateObject (nth : ℕ) (v : Var) : Step Site Var :=
  ⟨.call .allocateTransientObject nth, .allocates v, .out⟩

/-- A call that allocates no handle of the function.  An object for the context is allocated
directly into it. -/
def callStep (api : Api) (nth : ℕ) (exit : Exit) : Step Site Var := ⟨.call api nth, .none, exit⟩

/-- `derive_shared_key`, of the attester and of the verifier. -/
def deriveSharedKeyCode : Code where
  steps :=
    [allocateOperation 0 .out, callStep .setOperationKey 0 .out, allocateObject 0 .sharedSecret,
      callStep .deriveKey 0 .out, callStep .getObjectBufferAttribute 0 .leave,
      allocateObject 1 .aesKey, callStep .populateTransientObject 0 .out, allocateOperation 1 .out,
      callStep .setOperationKey 1 .out, callStep .macComputeFinal 0 .out,
      callStep .allocateTransientObject 2 .out, callStep .populateTransientObject 1 .out]
  cleanup := [.aesKey, .operation, .sharedSecret]

/-- `derive_shared_mac_key`, of the attester and of the verifier. -/
def deriveSharedMacKeyCode : Code where
  steps :=
    [allocateObject 0 .aesKey, callStep .getObjectBufferAttribute 0 .out,
      callStep .populateTransientObject 0 .out, allocateOperation 0 .out,
      callStep .setOperationKey 0 .out, callStep .macComputeFinal 0 .out,
      callStep .allocateTransientObject 1 .out, callStep .populateTransientObject 1 .out]
  cleanup := [.operation, .aesKey]

/-- A digest, and a signature of it that is made or verified with a second operation. -/
def digestAndSignatureCode (signature : Api) : Code where
  steps :=
    [allocateOperation 0 .out, callStep .digestDoFinal 0 .out, allocateOperation 1 .out,
      callStep .setOperationKey 0 .out, callStep signature 0 .out]
  cleanup := [.operation]

/-- A MAC, with the exit of the function if the operation cannot be set up. -/
def macCode (exit : Exit) (mac : Api) : Code where
  steps :=
    [allocateOperation 0 exit, callStep .setOperationKey 0 exit, callStep mac 0 .out]
  cleanup := [.operation]

/-- `generate_anchor`. -/
def generateAnchorCode : Code where
  steps :=
    [⟨.anchorSize, .none, .leave⟩, allocateOperation 0 .out, callStep .digestDoFinal 0 .out]
  cleanup := [.operation]

/-- `verify_anchor`. -/
def verifyAnchorCode : Code where
  steps :=
    [allocateOperation 0 .out, callStep .digestDoFinal 0 .out, ⟨.anchorCompare, .none, .leave⟩]
  cleanup := [.operation]

/-- The helpers of the attester, and those of the verifier. -/
inductive Helper where
  | attesterDeriveSharedKey
  | attesterDeriveSharedMacKey
  | verifyEcdhPublicKeySignature
  | verifyMsg1Mac
  | prepareMsg2
  | generateAnchor
  | verifierDeriveSharedKey
  | verifierDeriveSharedMacKey
  | appendEcdhPublicKeysSignature
  | appendMac
  | verifyMacMsg2
  | verifyQuoteSignature
  | verifyAnchor
deriving DecidableEq

namespace Helper

/-- The calls of each helper. -/
def code : Helper → Code
  | attesterDeriveSharedKey => deriveSharedKeyCode
  | attesterDeriveSharedMacKey => deriveSharedMacKeyCode
  | verifyEcdhPublicKeySignature => digestAndSignatureCode .asymmetricVerifyDigest
  | verifyMsg1Mac => macCode .leave .macCompareFinal
  | prepareMsg2 => macCode .out .macComputeFinal
  | generateAnchor => generateAnchorCode
  | verifierDeriveSharedKey => deriveSharedKeyCode
  | verifierDeriveSharedMacKey => deriveSharedMacKeyCode
  | appendEcdhPublicKeysSignature => digestAndSignatureCode .asymmetricSignDigest
  | appendMac => macCode .leave .macComputeFinal
  | verifyMacMsg2 => macCode .out .macCompareFinal
  | verifyQuoteSignature => digestAndSignatureCode .asymmetricVerifyDigest
  | verifyAnchor => verifyAnchorCode

end Helper

/-- How the calls of one execution of a helper end, and what its two checks find. -/
structure Outcomes where
  tee : Api → ℕ → Option Stop
  anchorSizeRight : Bool
  anchorMatches : Bool

/-- A check that makes the helper return an error. -/
def checkResult (passes : Bool) : CallResult := if passes then .ok else .error

/-- How the helper takes an outcome; `TEE_DeriveKey` returns nothing and can only panic. -/
def Outcomes.result (o : Outcomes) : Site → CallResult
  | .call api nth =>
    match o.tee api nth, api with
    | none, _ => .ok
    | some _, .deriveKey => .panic
    | some (.error _), _ => .error
    | some .panic, _ => .panic
  | .anchorSize => checkResult o.anchorSizeRight
  | .anchorCompare => checkResult o.anchorMatches

/-! ## The harmful endings -/

/-- The calls fail first at the given one. -/
def failsAt (api : Api) (nth : ℕ) : Routine.Ending Site := .fails (.call api nth)

/-- `derive_shared_key` frees a variable that has not been written if one of the first calls fails,
returns without freeing anything if the shared secret cannot be read, and loses its first operation
once it has allocated the second one into the same variable. -/
def deriveSharedKeyHarmful : List (Routine.Ending Site) :=
  [failsAt .allocateOperation 0, failsAt .setOperationKey 0, failsAt .allocateTransientObject 0,
    failsAt .deriveKey 0, failsAt .getObjectBufferAttribute 0, failsAt .allocateTransientObject 1,
    failsAt .setOperationKey 1, failsAt .macComputeFinal 0, failsAt .allocateTransientObject 2,
    failsAt .populateTransientObject 1, .completes]

/-- `derive_shared_mac_key` frees an operation that it has not allocated if one of the calls up to
its allocation fails. -/
def deriveSharedMacKeyHarmful : List (Routine.Ending Site) :=
  [failsAt .allocateTransientObject 0, failsAt .getObjectBufferAttribute 0,
    failsAt .populateTransientObject 0, failsAt .allocateOperation 0]

/-- The functions with a digest and a signature lose the first operation to the second one. -/
def digestAndSignatureHarmful (signature : Api) : List (Routine.Ending Site) :=
  [failsAt .allocateOperation 0, failsAt .setOperationKey 0, failsAt signature 0, .completes]

/-- The functions with a MAC either free an operation that they could not allocate, or return
without freeing the operation whose key they could not set. -/
def macHarmful : Exit → List (Routine.Ending Site)
  | .out => [failsAt .allocateOperation 0]
  | .leave => [failsAt .setOperationKey 0]

/-- The endings of each helper that leave its handles unsettled. -/
def Helper.harmful : Helper → List (Routine.Ending Site)
  | .attesterDeriveSharedKey | .verifierDeriveSharedKey => deriveSharedKeyHarmful
  | .attesterDeriveSharedMacKey | .verifierDeriveSharedMacKey => deriveSharedMacKeyHarmful
  | .verifyEcdhPublicKeySignature | .verifyQuoteSignature =>
    digestAndSignatureHarmful .asymmetricVerifyDigest
  | .appendEcdhPublicKeysSignature => digestAndSignatureHarmful .asymmetricSignDigest
  | .verifyMsg1Mac | .appendMac => macHarmful .leave
  | .prepareMsg2 | .verifyMacMsg2 => macHarmful .out
  | .generateAnchor => [failsAt .allocateOperation 0]
  | .verifyAnchor => [failsAt .allocateOperation 0, .fails .anchorCompare]

section

variable {result : Site → CallResult}

/- Each code has few endings, and the table is checked for all of them. -/

lemma deriveSharedKeyCode_disciplined_iff :
    deriveSharedKeyCode.Disciplined result ↔
      Routine.ending result deriveSharedKeyCode.sites ∉ deriveSharedKeyHarmful :=
  Routine.disciplined_iff_of_harmful _ (by decide) _ (by decide)

lemma deriveSharedMacKeyCode_disciplined_iff :
    deriveSharedMacKeyCode.Disciplined result ↔
      Routine.ending result deriveSharedMacKeyCode.sites ∉ deriveSharedMacKeyHarmful :=
  Routine.disciplined_iff_of_harmful _ (by decide) _ (by decide)

lemma digestAndSignatureCode_disciplined_iff {signature : Api}
    (h : signature ∈ [Api.asymmetricSignDigest, .asymmetricVerifyDigest]) :
    (digestAndSignatureCode signature).Disciplined result ↔
      Routine.ending result (digestAndSignatureCode signature).sites
        ∉ digestAndSignatureHarmful signature := by
  rcases List.mem_pair.mp h with rfl | rfl
  · exact Routine.disciplined_iff_of_harmful _ (by decide) _ (by decide)
  · exact Routine.disciplined_iff_of_harmful _ (by decide) _ (by decide)

lemma macCode_disciplined_iff {exit : Exit} {mac : Api}
    (h : mac ∈ [Api.macComputeFinal, .macCompareFinal]) :
    (macCode exit mac).Disciplined result ↔
      Routine.ending result (macCode exit mac).sites ∉ macHarmful exit := by
  rcases List.mem_pair.mp h with rfl | rfl <;> cases exit <;>
    exact Routine.disciplined_iff_of_harmful _ (by decide) _ (by decide)

lemma generateAnchorCode_disciplined_iff :
    generateAnchorCode.Disciplined result ↔
      Routine.ending result generateAnchorCode.sites ∉ [failsAt .allocateOperation 0] :=
  Routine.disciplined_iff_of_harmful _ (by decide) _ (by decide)

lemma verifyAnchorCode_disciplined_iff :
    verifyAnchorCode.Disciplined result ↔
      Routine.ending result verifyAnchorCode.sites
        ∉ [failsAt .allocateOperation 0, .fails .anchorCompare] :=
  Routine.disciplined_iff_of_harmful _ (by decide) _ (by decide)

end

/-- A helper frees what it has allocated, exactly once, and nothing else, exactly if its calls do
not end in one of the harmful ways. -/
theorem disciplined_iff (h : Helper) (o : Outcomes) :
    h.code.Disciplined o.result ↔ Routine.ending o.result h.code.sites ∉ h.harmful := by
  cases h with
  | attesterDeriveSharedKey => exact deriveSharedKeyCode_disciplined_iff
  | verifierDeriveSharedKey => exact deriveSharedKeyCode_disciplined_iff
  | attesterDeriveSharedMacKey => exact deriveSharedMacKeyCode_disciplined_iff
  | verifierDeriveSharedMacKey => exact deriveSharedMacKeyCode_disciplined_iff
  | verifyEcdhPublicKeySignature => exact digestAndSignatureCode_disciplined_iff (by simp)
  | appendEcdhPublicKeysSignature => exact digestAndSignatureCode_disciplined_iff (by simp)
  | verifyQuoteSignature => exact digestAndSignatureCode_disciplined_iff (by simp)
  | verifyMsg1Mac => exact macCode_disciplined_iff (by simp)
  | prepareMsg2 => exact macCode_disciplined_iff (by simp)
  | appendMac => exact macCode_disciplined_iff (by simp)
  | verifyMacMsg2 => exact macCode_disciplined_iff (by simp)
  | generateAnchor => exact generateAnchorCode_disciplined_iff
  | verifyAnchor => exact verifyAnchorCode_disciplined_iff

/-- Outcomes in which everything succeeds but the calls given. -/
def failingAt (apis : List Api) : Outcomes where
  tee api _ := if api ∈ apis then some (.error .generic) else none
  anchorSizeRight := true
  anchorMatches := true

/-- `derive_shared_key` loses an operation when all its calls succeed; `prepare_msg2` frees an
operation that it could not allocate; `verify_msg1_mac` keeps the operation whose key it could not
set. -/
theorem undisciplined_helpers :
    ¬ Helper.attesterDeriveSharedKey.code.Disciplined (failingAt []).result
      ∧ ¬ Helper.prepareMsg2.code.Disciplined (failingAt [.allocateOperation]).result
      ∧ ¬ Helper.verifyMsg1Mac.code.Disciplined (failingAt [.setOperationKey]).result := by
  refine ⟨fun h => ?_, fun h => ?_, fun h => ?_⟩
  · exact absurd (h _ rfl) (by decide)
  · exact absurd (h _ rfl) (by decide)
  · exact absurd (h _ rfl) (by decide)

end Watz.Protocol
