import Watz.Lib.Codec

/-!
# The messages of the attestation protocol

The quote of `attestation.h` and the structs `msg0_t`, `msg1_t`, `msg2_t` and `msg3_t`, which
the attester (`remote_attestation.h`) and the verifier (`verifier.h`) declare field by field
with the same types.  The only names that differ are those of `msg0_t`, whose coordinates are
`ecdh_local_public_key_*` in the attester and `ecdh_attester_public_key_*` in the verifier.

Both contexts store `msg0`, `msg1` and `msg2` back to back.  A use of a coordinate takes its
length from the size field beside it, so a size above 32 makes the code read on into whatever
follows; `Messages.read` is that read.
-/

namespace Watz

open Lib

/-! ## The structs -/

/-- A coordinate of a public key: an array `*_raw` and the number of its bytes in use,
`*_size`. -/
@[ext] structure Coord where
  raw : Bytes 32
  size : UInt32
deriving DecidableEq

/-- `ra_quote`.  The C type has three bytes of padding behind the signature, which the CMAC of
`msg2` covers because it runs over `sizeof(ra_quote)` bytes. -/
@[ext] structure Quote where
  anchor : Bytes 32
  version : UInt32
  claimHash : Bytes 32
  attestationKey : Bytes 65
  signature : Bytes 64
  padding : Bytes 3
deriving DecidableEq

/-- `msg0_t`: the ephemeral public key `Ga` of the attester. -/
@[ext] structure Msg0 where
  ecdhAttesterPublicKeyX : Coord
  ecdhAttesterPublicKeyY : Coord
deriving DecidableEq

/-- `msg1_t`: the ephemeral public key `Gv` of the verifier and its signature key. -/
@[ext] structure Msg1 where
  ecdhVerifierPublicKeyX : Coord
  ecdhVerifierPublicKeyY : Coord
  ecdsaVerifierPublicKeyX : Coord
  ecdsaVerifierPublicKeyY : Coord
  ecdhSignature : Bytes 64
  mac : Bytes 16
deriving DecidableEq

/-- `msg2_t`: `Ga` once more, with the quote. -/
@[ext] structure Msg2 where
  ecdhLocalPublicKeyX : Coord
  ecdhLocalPublicKeyY : Coord
  quote : Quote
  mac : Bytes 16
deriving DecidableEq

/-- The header of `msg3_t`; the encrypted content follows it. -/
@[ext] structure Msg3 where
  iv : Bytes 32
  tag : Bytes 16
  encryptedContentSize : UInt32
deriving DecidableEq

/-! ## Their layouts -/

namespace Coord

def layout : Layout Coord :=
  ((Layout.bytes 32).pair Layout.word32).map
    { toFun := fun p => ⟨p.1, p.2⟩
      invFun := fun c => (c.raw, c.size) }

/-- The bytes in use: the first `size` bytes of the array. -/
def bytes (c : Coord) : List UInt8 := c.raw.toList.take c.size.toNat

/-- The size field stays within the array it describes. -/
def Fits (c : Coord) : Prop := c.size.toNat ≤ 32

instance (c : Coord) : Decidable c.Fits := inferInstanceAs (Decidable (_ ≤ _))

/-- The coordinate of a context that has never been written. -/
def zero : Coord := ⟨Bytes.zero 32, 0⟩

end Coord

namespace Quote

def layout : Layout Quote :=
  ((Layout.bytes 32).pair (Layout.word32.pair ((Layout.bytes 32).pair
    ((Layout.bytes 65).pair ((Layout.bytes 64).pair (Layout.bytes 3)))))).map
    { toFun := fun p => ⟨p.1, p.2.1, p.2.2.1, p.2.2.2.1, p.2.2.2.2.1, p.2.2.2.2.2⟩
      invFun := fun q =>
        (q.anchor, q.version, q.claimHash, q.attestationKey, q.signature, q.padding) }

/-- The quote of a zeroed buffer. -/
def zero : Quote := ⟨Bytes.zero 32, 0, Bytes.zero 32, Bytes.zero 65, Bytes.zero 64, Bytes.zero 3⟩

end Quote

namespace Msg0

def layout : Layout Msg0 :=
  (Coord.layout.pair Coord.layout).map
    { toFun := fun p => ⟨p.1, p.2⟩
      invFun := fun m => (m.ecdhAttesterPublicKeyX, m.ecdhAttesterPublicKeyY) }

def zero : Msg0 := ⟨Coord.zero, Coord.zero⟩

end Msg0

namespace Msg1

def layout : Layout Msg1 :=
  (Coord.layout.pair (Coord.layout.pair (Coord.layout.pair (Coord.layout.pair
    ((Layout.bytes 64).pair (Layout.bytes 16)))))).map
    { toFun := fun p => ⟨p.1, p.2.1, p.2.2.1, p.2.2.2.1, p.2.2.2.2.1, p.2.2.2.2.2⟩
      invFun := fun m => (m.ecdhVerifierPublicKeyX, m.ecdhVerifierPublicKeyY,
        m.ecdsaVerifierPublicKeyX, m.ecdsaVerifierPublicKeyY, m.ecdhSignature, m.mac) }

def zero : Msg1 :=
  ⟨Coord.zero, Coord.zero, Coord.zero, Coord.zero, Bytes.zero 64, Bytes.zero 16⟩

end Msg1

namespace Msg2

def layout : Layout Msg2 :=
  (Coord.layout.pair (Coord.layout.pair (Quote.layout.pair (Layout.bytes 16)))).map
    { toFun := fun p => ⟨p.1, p.2.1, p.2.2.1, p.2.2.2⟩
      invFun := fun m => (m.ecdhLocalPublicKeyX, m.ecdhLocalPublicKeyY, m.quote, m.mac) }

def zero : Msg2 := ⟨Coord.zero, Coord.zero, Quote.zero, Bytes.zero 16⟩

end Msg2

namespace Msg3

def layout : Layout Msg3 :=
  ((Layout.bytes 32).pair ((Layout.bytes 16).pair Layout.word32)).map
    { toFun := fun p => ⟨p.1, p.2.1, p.2.2⟩
      invFun := fun m => (m.iv, m.tag, m.encryptedContentSize) }

end Msg3

/-! The sizes the two programs compute with `sizeof`. -/

@[simp, grind =] lemma Msg0.layout_size : Msg0.layout.size = 72 := rfl
@[simp, grind =] lemma Msg1.layout_size : Msg1.layout.size = 224 := rfl
@[simp, grind =] lemma Msg2.layout_size : Msg2.layout.size = 288 := rfl
@[simp, grind =] lemma Msg3.layout_size : Msg3.layout.size = 52 := rfl

/-! ## The messages of a context -/

/-- The three messages a context stores back to back. -/
@[ext] structure Messages where
  msg0 : Msg0
  msg1 : Msg1
  msg2 : Msg2
deriving DecidableEq

/-- The arrays of these messages that are used through a size field. -/
inductive Field where
  | attesterX | attesterY
  | verifierX | verifierY
  | ecdsaX | ecdsaY
  | localX | localY
deriving DecidableEq

/-- The coordinate an array belongs to. -/
def Field.coord : Field → Messages → Coord
  | attesterX, m => m.msg0.ecdhAttesterPublicKeyX
  | attesterY, m => m.msg0.ecdhAttesterPublicKeyY
  | verifierX, m => m.msg1.ecdhVerifierPublicKeyX
  | verifierY, m => m.msg1.ecdhVerifierPublicKeyY
  | ecdsaX, m => m.msg1.ecdsaVerifierPublicKeyX
  | ecdsaY, m => m.msg1.ecdsaVerifierPublicKeyY
  | localX, m => m.msg2.ecdhLocalPublicKeyX
  | localY, m => m.msg2.ecdhLocalPublicKeyY

/-- The offset of an array from the beginning of `msg0`. -/
def Field.offset : Field → ℕ
  | attesterX => 0
  | attesterY => 36
  | verifierX => 72
  | verifierY => 108
  | ecdsaX => 144
  | ecdsaY => 180
  | localX => 296
  | localY => 332

namespace Messages

def zero : Messages := ⟨Msg0.zero, Msg1.zero, Msg2.zero⟩

/-- The memory from `msg0` on: the messages and what the program has behind them. -/
def image (m : Messages) (tail : List UInt8) : List UInt8 :=
  Msg0.layout.enc m.msg0 ++ (Msg1.layout.enc m.msg1 ++ (Msg2.layout.enc m.msg2 ++ tail))

/-- The size of the three messages. -/
def size : ℕ := Msg0.layout.size + Msg1.layout.size + Msg2.layout.size

/-- Read `n` bytes from the beginning of an array.  The read does not stop at the end of the
array; it fails only where the memory of the program ends. -/
def read (m : Messages) (tail : List UInt8) (f : Field) (n : ℕ) : Option (List UInt8) :=
  if f.offset + n ≤ size + tail.length then some (((m.image tail).drop f.offset).take n) else none

lemma image_eq (m : Messages) (tail : List UInt8) : ∃ rest,
    m.image tail
      = Coord.layout.enc m.msg0.ecdhAttesterPublicKeyX
        ++ (Coord.layout.enc m.msg0.ecdhAttesterPublicKeyY
        ++ (Coord.layout.enc m.msg1.ecdhVerifierPublicKeyX
        ++ (Coord.layout.enc m.msg1.ecdhVerifierPublicKeyY
        ++ (Coord.layout.enc m.msg1.ecdsaVerifierPublicKeyX
        ++ (Coord.layout.enc m.msg1.ecdsaVerifierPublicKeyY
        ++ ((m.msg1.ecdhSignature.toList ++ m.msg1.mac.toList)
        ++ (Coord.layout.enc m.msg2.ecdhLocalPublicKeyX
        ++ (Coord.layout.enc m.msg2.ecdhLocalPublicKeyY ++ rest)))))))) := by
  refine ⟨Quote.layout.enc m.msg2.quote ++ (m.msg2.mac.toList ++ tail), ?_⟩
  simp [image, Msg0.layout, Msg1.layout, Msg2.layout, Layout.map, Layout.pair, Layout.bytes]

lemma drop_coord (c : Coord) (rest : List UInt8) (k : ℕ) :
    (Coord.layout.enc c ++ rest).drop (36 + k) = rest.drop k := by
  have hlen : (Coord.layout.enc c).length = 36 := Coord.layout.enc_length c
  rw [← List.drop_drop, List.drop_left' hlen]

lemma take_coord (c : Coord) (rest : List UInt8) :
    (Coord.layout.enc c ++ rest).take 36 = Coord.layout.enc c :=
  List.take_left' (Coord.layout.enc_length c)

/-- At its offset the memory has the coordinate: the array and the size field. -/
lemma take_drop_image (m : Messages) (tail : List UInt8) (f : Field) :
    ((m.image tail).drop f.offset).take 36 = (f.coord m).raw.toList ++ le32 (f.coord m).size := by
  obtain ⟨rest, himage⟩ := image_eq m tail
  have htags : ∀ k, ((m.msg1.ecdhSignature.toList ++ m.msg1.mac.toList)
        ++ (Coord.layout.enc m.msg2.ecdhLocalPublicKeyX
        ++ (Coord.layout.enc m.msg2.ecdhLocalPublicKeyY ++ rest))).drop (80 + k)
      = (Coord.layout.enc m.msg2.ecdhLocalPublicKeyX
        ++ (Coord.layout.enc m.msg2.ecdhLocalPublicKeyY ++ rest)).drop k := by
    intro k
    rw [← List.drop_drop, List.drop_left' (by simp)]
  rw [himage]
  cases f with
  | attesterX => exact take_coord _ _
  | attesterY =>
    change ((_ : List UInt8).drop (36 + 0)).take 36 = _
    rw [drop_coord]
    exact take_coord _ _
  | verifierX =>
    change ((_ : List UInt8).drop (36 + (36 + 0))).take 36 = _
    rw [drop_coord, drop_coord]
    exact take_coord _ _
  | verifierY =>
    change ((_ : List UInt8).drop (36 + (36 + (36 + 0)))).take 36 = _
    rw [drop_coord, drop_coord, drop_coord]
    exact take_coord _ _
  | ecdsaX =>
    change ((_ : List UInt8).drop (36 + (36 + (36 + (36 + 0))))).take 36 = _
    rw [drop_coord, drop_coord, drop_coord, drop_coord]
    exact take_coord _ _
  | ecdsaY =>
    change ((_ : List UInt8).drop (36 + (36 + (36 + (36 + (36 + 0)))))).take 36 = _
    rw [drop_coord, drop_coord, drop_coord, drop_coord, drop_coord]
    exact take_coord _ _
  | localX =>
    change ((_ : List UInt8).drop (36 + (36 + (36 + (36 + (36 + (36 + (80 + 0)))))))).take 36 = _
    rw [drop_coord, drop_coord, drop_coord, drop_coord, drop_coord, drop_coord, htags]
    exact take_coord _ _
  | localY =>
    change ((_ : List UInt8).drop
      (36 + (36 + (36 + (36 + (36 + (36 + (80 + (36 + 0))))))))).take 36 = _
    rw [drop_coord, drop_coord, drop_coord, drop_coord, drop_coord, drop_coord, htags, drop_coord]
    exact take_coord _ _

lemma length_image (m : Messages) (tail : List UInt8) :
    (m.image tail).length = size + tail.length := by
  simp only [image, size, List.length_append, Layout.enc_length]
  omega

variable {bs tail : List UInt8} {f : Field} {m : Messages} {n : ℕ}

lemma read_eq_some :
    m.read tail f n = some bs ↔
      f.offset + n ≤ size + tail.length ∧ ((m.image tail).drop f.offset).take n = bs := by
  rw [read]
  by_cases h : f.offset + n ≤ size + tail.length
  · simp only [h, if_true, Option.some.injEq, true_and]
  · simp only [h, if_false, false_and, reduceCtorEq]

lemma offset_add_le (f : Field) : f.offset + 32 ≤ size := by
  cases f <;> decide

lemma read_of_le (m : Messages) (tail : List UInt8) (f : Field) (h : n ≤ 32) :
    m.read tail f n = some ((f.coord m).raw.toList.take n) := by
  rw [read_eq_some]
  constructor
  · have hoff := offset_add_le f
    omega
  · have hmin : min n 36 = n := by omega
    have htake := congrArg (List.take n) (take_drop_image m tail f)
    rwa [List.take_take, hmin, List.take_append_of_le_length (by simpa using h)] at htake

lemma read_length (h : m.read tail f n = some bs) : bs.length = n := by
  obtain ⟨hle, rfl⟩ := read_eq_some.mp h
  rw [List.length_take, List.length_drop, length_image]
  omega

lemma exists_read (m : Messages) (htail : 2 ^ 32 ≤ tail.length) (f : Field) (n : UInt32) :
    ∃ bs, m.read tail f n.toNat = some bs := by
  have hn := n.toNat_lt
  have hoff := offset_add_le f
  exact ⟨_, read_eq_some.mpr ⟨by omega, rfl⟩⟩

lemma read_of_ge (h : m.read tail f n = some bs) (hn : 32 ≤ n) :
    ∃ more, bs = (f.coord m).raw.toList ++ more ∧ more.length = n - 32
      ∧ more.take 4 = (le32 (f.coord m).size).take (n - 32) := by
  have hlen := read_length h
  obtain ⟨-, rfl⟩ := read_eq_some.mp h
  have hraw := (f.coord m).raw.length_eq
  have hsee := take_drop_image m tail f
  refine ⟨(((m.image tail).drop f.offset).take n).drop 32, ?_, by rw [List.length_drop, hlen], ?_⟩
  · have htake := congrArg (List.take 32) hsee
    rw [List.take_take, List.take_left' hraw] at htake
    conv_lhs => rw [← List.take_append_drop 32 (((m.image tail).drop f.offset).take n)]
    rw [List.take_take, min_eq_left hn, ← htake]
    rfl
  · have hdrop := congrArg (List.drop 32) hsee
    rw [List.drop_left' hraw, List.drop_take] at hdrop
    rw [List.drop_take, ← hdrop, List.take_take, List.take_take, min_comm]

lemma read_coord (m : Messages) (tail : List UInt8) (f : Field) (h : (f.coord m).Fits) :
    m.read tail f (f.coord m).size.toNat = some (f.coord m).bytes :=
  read_of_le m tail f h

/-- The bytes of several arrays in a row, each as long as its size field says. -/
def concat (m : Messages) (tail : List UInt8) : List Field → Option (List UInt8)
  | [] => some []
  | f :: fs => do
    let a ← m.read tail f (f.coord m).size.toNat
    let b ← m.concat tail fs
    pure (a ++ b)

lemma concat_of_fits (m : Messages) (tail : List UInt8) {fs : List Field}
    (h : ∀ f ∈ fs, (f.coord m).Fits) :
    m.concat tail fs = some (fs.flatMap fun f => (f.coord m).bytes) := by
  induction fs with
  | nil => rfl
  | cons f fs ih =>
    have hrest := ih fun g hg => h g (List.mem_cons_of_mem f hg)
    simp [concat, read_coord m tail f (h f (by simp)), hrest]

lemma exists_concat (m : Messages) (htail : 2 ^ 32 ≤ tail.length) (fs : List Field) :
    ∃ bs, m.concat tail fs = some bs := by
  induction fs with
  | nil => exact ⟨[], rfl⟩
  | cons f fs ih =>
    obtain ⟨a, ha⟩ := m.exists_read htail f (f.coord m).size
    obtain ⟨b, hb⟩ := ih
    exact ⟨a ++ b, by simp [concat, ha, hb]⟩

end Messages

/-! ## The authenticated strings -/

/-- The coordinates in the anchor (`generate_anchor`, `verify_anchor`). -/
def anchorFields : List Field := [.attesterX, .attesterY, .verifierX, .verifierY]

/-- The coordinates in the signature of `msg1` (`append_ecdh_public_keys_signature`,
`verify_ecdh_public_key_signature`). -/
def signatureFields : List Field := [.verifierX, .verifierY, .attesterX, .attesterY]

/-- The coordinates in the MAC of `msg1` (`append_mac`, `verify_msg1_mac`). -/
def msg1MacFields : List Field := [.verifierX, .verifierY, .ecdsaX, .ecdsaY]

/-- The coordinates in the MAC of `msg2` (`prepare_msg2`, `verify_mac_msg2`). -/
def msg2MacFields : List Field := [.localX, .localY]

end Watz
