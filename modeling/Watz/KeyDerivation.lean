import Watz.Tee

/-!
# The key schedule both applications run

`derive_shared_key` and `derive_shared_mac_key` stand with the same text in the attester and in
the verifier: the x-coordinate of the shared point is reduced to a key derivation key by a CMAC
under the zero key, and the MAC key and the session key are CMACs of two labels under it.
-/

namespace Watz

open Lib

/-- The two keys derived from the key derivation key. -/
inductive SharedKey where
  | mac
  | session
deriving DecidableEq

/-- `RA_SHARED_MAC_DATA` and `RA_SHARED_SESSION_DATA`, with the terminating zero that `sizeof`
counts. -/
def SharedKey.data : SharedKey → List UInt8
  | mac => [0x01, 0x53, 0x4d, 0x4b, 0x00, 0x80, 0x00, 0x00]
  | session => [0x01, 0x53, 0x4b, 0x00, 0x80, 0x00, 0x00]

/-- The key derivation key of a shared secret. -/
def Crypto.kdk (C : Crypto) (sharedSecret : Bytes 32) : Bytes 16 :=
  C.cmac (Bytes.zero 16) sharedSecret.toList

section

variable {F κ : Type} (C : Crypto) (env : Env F)

/-- The first part of `derive_shared_key`, up to `TEE_MACComputeFinal`: the key derivation key of
the secret shared with the holder of the public key. -/
def deriveSharedSecret (fn : F) (keypair : Obj ℕ) (xAttr yAttr : Option RefAttribute) :
    EStateM Stop (TaState κ) (Bytes 16) := do
  tee env fn .allocateOperation 0
  let d ← content env fn .setOperationKey 0 keypair
  tee env fn .allocateTransientObject 0
  let x ← readAttribute env xAttr
  let y ← readAttribute env yAttr
  teeVoid env fn .deriveKey 0
  let sharedSecret := C.ecdh d ⟨ofBigEndian x, ofBigEndian y⟩
  tee env fn .getObjectBufferAttribute 0
  tee env fn .allocateTransientObject 1
  tee env fn .populateTransientObject 0
  tee env fn .allocateOperation 1
  tee env fn .setOperationKey 1
  tee env fn .macComputeFinal 0
  pure (C.kdk sharedSecret)

/-- The first part of `derive_shared_mac_key`, up to `TEE_MACComputeFinal`: the CMAC of a label
under the key derivation key. -/
def deriveLabel (fn : F) (kdk : Obj (Bytes 16)) (data : List UInt8) :
    EStateM Stop (TaState κ) (Bytes 16) := do
  tee env fn .allocateTransientObject 0
  let k ← content env fn .getObjectBufferAttribute 0 kdk
  tee env fn .populateTransientObject 0
  tee env fn .allocateOperation 0
  tee env fn .setOperationKey 0
  tee env fn .macComputeFinal 0
  pure (C.cmac k data)

/-- The second part of both: allocate an object for the key and populate it.  `put` writes the
handle it goes to. -/
def saveKey (fn : F) (alloc populate : ℕ) (put : Obj (Bytes 16) → κ → κ) (k : Bytes 16) :
    EStateM Stop (TaState κ) Unit := do
  tee env fn .allocateTransientObject alloc
  modify fun s => { s with ctx := put .blank s.ctx }
  tee env fn .populateTransientObject populate
  modify fun s => { s with ctx := put (.key k) s.ctx }

/-- The calls of `deriveSharedSecret`. -/
def deriveSharedSecretSites : List (Api × ℕ) :=
  [(.allocateOperation, 0), (.setOperationKey, 0), (.allocateTransientObject, 0), (.deriveKey, 0),
    (.getObjectBufferAttribute, 0), (.allocateTransientObject, 1), (.populateTransientObject, 0),
    (.allocateOperation, 1), (.setOperationKey, 1), (.macComputeFinal, 0)]

/-- The calls of `deriveLabel`. -/
def deriveLabelSites : List (Api × ℕ) :=
  [(.allocateTransientObject, 0), (.getObjectBufferAttribute, 0), (.populateTransientObject, 0),
    (.allocateOperation, 0), (.setOperationKey, 0), (.macComputeFinal, 0)]

variable {C env}

variable {fn : F} {k : Bytes 16} {s s' : TaState κ}

variable {keypair : Obj ℕ} {xAttr yAttr : Option RefAttribute} {data : List UInt8}
  {kdk : Obj (Bytes 16)} {alloc populate : ℕ} {put : Obj (Bytes 16) → κ → κ}

lemma deriveSharedSecret_eq_ok :
    deriveSharedSecret C env fn keypair xAttr yAttr s = .ok k s' ↔
      env.Ok fn deriveSharedSecretSites ∧ ∃ d rx x ry y, keypair = .key d
        ∧ xAttr = some rx ∧ s.msgs.read env.tail rx.buffer rx.length = some x
        ∧ yAttr = some ry ∧ s.msgs.read env.tail ry.buffer ry.length = some y
        ∧ C.kdk (C.ecdh d ⟨ofBigEndian x, ofBigEndian y⟩) = k
        ∧ s.log [(rx.buffer, rx.length), (ry.buffer, ry.length)] = s' := by
  simp only [deriveSharedSecret, tee_bind_eq_ok, teeVoid_bind_eq_ok, content_bind_eq_ok,
    readAttribute_bind_eq_ok, pure_eq_ok, deriveSharedSecretSites, Env.ok_cons, Env.ok_nil]
  grind

lemma deriveLabel_eq_ok :
    deriveLabel C env fn kdk data s = .ok k s' ↔
      env.Ok fn deriveLabelSites ∧ (∃ d, kdk = .key d ∧ C.cmac d data = k) ∧ s = s' := by
  simp only [deriveLabel, tee_bind_eq_ok, content_bind_eq_ok, pure_eq_ok, deriveLabelSites,
    Env.ok_cons, Env.ok_nil]
  grind

lemma saveKey_eq_ok {u : Unit} :
    saveKey env fn alloc populate put k s = .ok u s' ↔
      env.Ok fn [(.allocateTransientObject, alloc), (.populateTransientObject, populate)]
        ∧ { s with ctx := put (.key k) (put .blank s.ctx) } = s' := by
  simp only [saveKey, tee_bind_eq_ok, modify_bind_eq_ok, modify_eq_ok, Env.ok_cons, Env.ok_nil]
  tauto

variable {I : TaState κ → Prop}

lemma keeps_deriveSharedSecret
    (hx : ∀ r, xAttr = some r → ∀ s, I s → I (s.log [(r.buffer, r.length)]))
    (hy : ∀ r, yAttr = some r → ∀ s, I s → I (s.log [(r.buffer, r.length)])) :
    Keeps I (deriveSharedSecret C env fn keypair xAttr yAttr) := by
  unfold deriveSharedSecret
  repeat' first
    | exact keeps_tee
    | exact keeps_teeVoid
    | exact keeps_content
    | exact keeps_readAttribute hx
    | exact keeps_readAttribute hy
    | exact Keeps.pure _
    | refine Keeps.bind ?_ fun _ => ?_

lemma keeps_deriveLabel :
    Keeps I (deriveLabel C env fn kdk data) := by
  unfold deriveLabel
  repeat' first
    | exact keeps_tee
    | exact keeps_content
    | exact Keeps.pure _
    | refine Keeps.bind ?_ fun _ => ?_

lemma keeps_saveKey (h : ∀ o s, I s → I { s with ctx := put o s.ctx }) :
    Keeps I (saveKey env fn alloc populate put k) := by
  refine Keeps.bind keeps_tee fun _ => ?_
  refine Keeps.bind (Keeps.modify fun s hs => h _ s hs) fun _ => ?_
  exact Keeps.bind keeps_tee fun _ => Keeps.modify fun s hs => h _ s hs

end

end Watz
