import Watz.Attester.Spec

/-!
# The key the attester pins and the key it uses

A module that knows the verifier passes its public key to `ra_net_handshake`.  The attester
compares the pinned coordinates with the 32 bytes of the arrays in `msg1`, but it imports the key
with the lengths that the size fields of `msg1` give.  This file finds when the two keys agree.
-/

namespace Watz

open Lib

/-- A coordinate spells the same value through its size field as through its whole array: the
size is 32, or the array is zero and the size does not exceed it. -/
def Coord.Whole (c : Coord) : Prop := c.size.toNat = 32 ∨ c.size.toNat < 32 ∧ c.raw = Bytes.zero 32

instance (c : Coord) : Decidable c.Whole := inferInstanceAs (Decidable (_ ∨ _))

lemma ofBigEndian_raw_eq_zero_iff {b : Bytes 32} :
    ofBigEndian b.toList = 0 ↔ b = Bytes.zero 32 := by
  rw [ofBigEndian_eq_zero_iff, b.length_eq, Bytes.ext_iff]
  rfl

lemma not_zero_of_size {size : UInt32} (h : 32 < size.toNat) {more : List UInt8}
    (hlen : more.length = size.toNat - 32) (htake : more.take 4 = (le32 size).take (size.toNat - 32)) :
    ofBigEndian more ≠ 0 := by
  intro hzero
  have hmore := ofBigEndian_eq_zero_iff.mp hzero
  have hbytes : (le32 size).take (size.toNat - 32)
      = List.replicate (min 4 (size.toNat - 32)) 0 := by
    rw [← htake, hmore, List.take_replicate, hlen]
  -- the first byte is read in any case, so the size is a multiple of 256
  have hfirst : size.toNat % 256 = 0 := by
    have hhead := congrArg List.head? hbytes
    obtain ⟨k, hk⟩ : ∃ k, size.toNat - 32 = k + 1 := ⟨size.toNat - 33, by omega⟩
    rw [hk, Nat.add_min_add_right 3 k 1, List.replicate_succ] at hhead
    simp only [le32, List.take_succ_cons, List.head?_cons, Option.some.injEq] at hhead
    have hnat := congrArg UInt8.toNat hhead
    simpa using hnat
  -- hence the whole size field is read
  have hall : le32 size = List.replicate 4 0 := by
    have hmin : min 4 (size.toNat - 32) = 4 := by omega
    rw [hmin, List.take_of_length_le (by rw [le32_length]; omega)] at hbytes
    exact hbytes
  have hsize : size = 0 := le32_inj (hall.trans (by decide))
  rw [hsize] at h
  exact absurd h (by decide)

/-- The value of an array as far as its size field says is that of the whole array exactly for a
whole coordinate. -/
lemma Messages.value_eq_iff {m : Messages} {tail : List UInt8} {f : Field} {bs : List UInt8}
    (h : m.read tail f (f.coord m).size.toNat = some bs) :
    ofBigEndian bs = ofBigEndian (f.coord m).raw.toList ↔ (f.coord m).Whole := by
  have hraw := (f.coord m).raw.length_eq
  rcases lt_trichotomy (f.coord m).size.toNat 32 with hlt | heq | hgt
  · rw [read_of_le m tail f hlt.le, Option.some.injEq] at h
    rw [← h, ofBigEndian_take_eq_iff (by rw [hraw]; exact hlt), ofBigEndian_raw_eq_zero_iff,
      Coord.Whole]
    constructor
    · exact fun hzero => .inr ⟨hlt, hzero⟩
    · rintro (heq | ⟨-, hzero⟩)
      · omega
      · exact hzero
  · rw [heq, read_of_le m tail f le_rfl, Option.some.injEq, List.take_of_length_le hraw.le] at h
    rw [h]
    exact ⟨fun _ => .inl heq, fun _ => rfl⟩
  · obtain ⟨more, rfl, hlen, htake⟩ := read_of_ge h hgt.le
    have hne : more ≠ [] := by
      rw [← List.length_pos_iff]
      omega
    rw [ofBigEndian_append_eq_left_iff hne]
    constructor
    · rintro ⟨-, hzero⟩
      exact absurd hzero (not_zero_of_size hgt hlen htake)
    · rintro (heq | ⟨hlt, -⟩) <;> omega

namespace Attester

variable {C : Crypto} {env : Env Fn} {s s' : State} {anchorSize : ℕ} {anchor : Bytes 32}

/-- The point with the given coordinates. -/
def pinnedKey (x y : Bytes 32) : Point := ⟨ofBigEndian x.toList, ofBigEndian y.toList⟩

/-- The key that is imported from a message with the pinned arrays is the pinned key exactly if
both coordinates are whole. -/
lemma point_eq_pinnedKey_iff {m : Messages} {tail : List UInt8} {x y : Bytes 32} {key : Point}
    (hpins : PinsMatch x.toList y.toList m.msg1)
    (hkey : m.point tail .ecdsaX .ecdsaY = some key) :
    key = pinnedKey x y ↔
      m.msg1.ecdsaVerifierPublicKeyX.Whole ∧ m.msg1.ecdsaVerifierPublicKeyY.Whole := by
  have hne : x.toList ≠ [] := by
    rw [← List.length_pos_iff, x.length_eq]
    norm_num
  obtain ⟨hx, hy⟩ := hpins.resolve_left fun h => hne h.1
  obtain ⟨bx, hy', hbx, hby, rfl⟩ := Messages.point_eq_some.mp hkey
  rw [pinnedKey, Point.mk.injEq, hx, hy]
  exact and_congr (Messages.value_eq_iff hbx) (Messages.value_eq_iff hby)

/-- When a handshake with a pinned key succeeds, the signature in `msg1` has been checked with
some key; this is the pinned key exactly if the size fields of the key in `msg1` are 32 (or less
than that for a coordinate that is zero). -/
theorem handshake_key_pinned_iff {x y : Bytes 32}
    (h : raNetHandshake C env x.toList y.toList anchorSize s = .ok anchor s') :
    ∃ image key, receiveSocketPerChunk env.inbox 224 224 [] = .ok image
      ∧ s'.msgs.msg1 = Msg1.layout.dec image
      ∧ s'.ctx.ecdsaVerifierPublicKeyHandle = .key key ∧ SignatureOk C env.tail s'.msgs key
      ∧ (key = pinnedKey x y ↔ (Msg1.layout.dec image).ecdsaVerifierPublicKeyX.Whole
        ∧ (Msg1.layout.dec image).ecdsaVerifierPublicKeyY.Whole) := by
  obtain ⟨-, -, image, key, peer, hchecks, rfl⟩ := raNetHandshake_eq_ok.mp h
  exact ⟨image, key, hchecks.received, rfl, rfl, hchecks.signature,
    point_eq_pinnedKey_iff hchecks.pins hchecks.key_eq⟩

/-- The pinned key of the concrete runs below. -/
def samplePins : Bytes 32 × Bytes 32 := (Bytes.slice 32 [1], Bytes.slice 32 [2])

/-- A network that answers with a `msg1` that has the pinned arrays, the given size in its size
fields and a signature that `Crypto.sample` accepts. -/
def samplePeer (size : UInt32) : Env Fn :=
  { Env.calm Fn 7 with inbox := [.ok (Msg1.layout.enc { Msg1.zero with
      ecdsaVerifierPublicKeyX := ⟨samplePins.1, size⟩
      ecdsaVerifierPublicKeyY := ⟨samplePins.2, size⟩
      ecdhSignature := Bytes.slice 64 [7, 8] })] }

/-- The hypothesis is met by a handshake with sizes of 32, which uses the pinned key. -/
theorem handshake_key_pinned_sample :
    ∃ anchor s', raNetHandshake Crypto.sample (samplePeer 32) samplePins.1.toList
        samplePins.2.toList 32 State.zero = .ok anchor s'
      ∧ s'.ctx.ecdsaVerifierPublicKeyHandle = .key (pinnedKey samplePins.1 samplePins.2) := by
  have hrun : ∃ p ∈ result? (raNetHandshake Crypto.sample (samplePeer 32) samplePins.1.toList
      samplePins.2.toList 32 State.zero), p.2.msgs.msg1.ecdsaVerifierPublicKeyX.size.toNat = 32
        ∧ p.2.msgs.msg1.ecdsaVerifierPublicKeyY.size.toNat = 32 := by decide +kernel
  obtain ⟨⟨anchor, s'⟩, hrun, hx, hy⟩ := hrun
  have hok := result?_eq_some.mp hrun
  obtain ⟨image, key, -, himage, hkey, -, hiff⟩ := handshake_key_pinned_iff hok
  rw [← himage] at hiff
  exact ⟨anchor, s', hok, hkey.trans (congrArg Obj.key (hiff.mpr ⟨.inl hx, .inl hy⟩))⟩

/-- With sizes of 1 in `msg1` the handshake succeeds, but the signature is checked with a key
that is made of the first bytes of the pinned one. -/
theorem handshake_key_not_pinned :
    ∃ anchor s', raNetHandshake Crypto.sample (samplePeer 1) samplePins.1.toList
        samplePins.2.toList 32 State.zero = .ok anchor s'
      ∧ s'.ctx.ecdsaVerifierPublicKeyHandle = .key ⟨1, 2⟩
      ∧ (⟨1, 2⟩ : Point) ≠ pinnedKey samplePins.1 samplePins.2 := by
  have hrun : ∃ p ∈ result? (raNetHandshake Crypto.sample (samplePeer 1) samplePins.1.toList
      samplePins.2.toList 32 State.zero), p.2.ctx.ecdsaVerifierPublicKeyHandle = .key ⟨1, 2⟩ := by
    decide +kernel
  obtain ⟨⟨anchor, s'⟩, hrun, hkey⟩ := hrun
  exact ⟨anchor, s', result?_eq_some.mp hrun, hkey, by decide +kernel⟩

end Attester
end Watz
