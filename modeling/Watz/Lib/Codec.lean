import Watz.Lib.Bytes

/-!
# Layouts of packed structs

A struct of fixed-size fields is stored as the concatenation of its fields.  A `Layout`
carries both directions of this correspondence with the laws that make copying a struct
through its bytes harmless, and layouts compose field by field, so that the laws of a
struct follow from those of its fields.
-/

namespace Watz.Lib

/-- The byte representation of a type whose values all occupy `size` bytes. -/
structure Layout (α : Type) where
  /-- The number of bytes of a value. -/
  size : ℕ
  /-- The bytes of a value. -/
  enc : α → List UInt8
  /-- The value found at the beginning of a memory area. -/
  dec : List UInt8 → α
  enc_length : ∀ a, (enc a).length = size
  dec_enc_append : ∀ a rest, dec (enc a ++ rest) = a
  enc_dec : ∀ l, size ≤ l.length → enc (dec l) = l.take size

namespace Layout

variable {α β : Type}

attribute [simp] enc_length dec_enc_append

@[simp] lemma dec_enc (L : Layout α) (a : α) : L.dec (L.enc a) = a := by
  have h := L.dec_enc_append a []
  rwa [List.append_nil] at h

lemma enc_inj (L : Layout α) {a b : α} (h : L.enc a = L.enc b) : a = b := by
  rw [← L.dec_enc a, h, L.dec_enc]

lemma dec_take (L : Layout α) {l : List UInt8} (h : L.size ≤ l.length) :
    L.dec (l.take L.size) = L.dec l := by
  rw [← L.enc_dec l h, dec_enc]

lemma dec_append (L : Layout α) {l : List UInt8} (h : l.length = L.size) (rest : List UInt8) :
    L.dec (l ++ rest) = L.dec l := by
  rw [← L.dec_take (by rw [List.length_append]; omega), List.take_left' h]

/-- A byte array is its own representation. -/
def bytes (n : ℕ) : Layout (Bytes n) where
  size := n
  enc := Bytes.toList
  dec := Bytes.slice n
  enc_length b := b.length_eq
  dec_enc_append b rest := Bytes.slice_append b rest
  enc_dec _ h := Bytes.slice_toList h

/-- A 32-bit word in little-endian order. -/
def word32 : Layout UInt32 where
  size := 4
  enc := le32
  dec := ofLe32
  enc_length := le32_length
  dec_enc_append := ofLe32_append
  enc_dec _ h := le32_ofLe32 h

/-- Two fields, the second directly behind the first. -/
def pair (L : Layout α) (M : Layout β) : Layout (α × β) where
  size := L.size + M.size
  enc p := L.enc p.1 ++ M.enc p.2
  dec l := (L.dec l, M.dec (l.drop L.size))
  enc_length p := by simp
  dec_enc_append p rest := by
    rw [List.append_assoc, dec_enc_append, List.drop_left' (L.enc_length p.1), dec_enc_append]
  enc_dec l h := by
    rw [L.enc_dec l (by omega), M.enc_dec _ (by simp only [List.length_drop]; omega),
      List.take_add]

/-- The same bytes, read as another type. -/
def map (L : Layout α) (e : α ≃ β) : Layout β where
  size := L.size
  enc b := L.enc (e.symm b)
  dec l := e (L.dec l)
  enc_length b := L.enc_length _
  dec_enc_append b rest := by simp
  enc_dec l h := by simpa using L.enc_dec l h

end Layout

end Watz.Lib
