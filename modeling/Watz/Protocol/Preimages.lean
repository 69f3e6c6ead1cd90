import Watz.Attester.Spec
import Watz.Verifier.Spec

/-!
# What the authenticated byte strings determine

The anchor, the signature in `msg1` and the MACs of `msg1` and `msg2` are computed over
coordinates in a row, each as long as its size field says, without the sizes themselves.  This
file finds out for which sizes such a string determines the coordinates it was made of.
-/

namespace Watz.Protocol

open Lib

/-! ## The strings -/

/-- The string under the MAC of `msg1`. -/
def msg1MacInput (m : Messages) (tail : List UInt8) : Option (List UInt8) :=
  (m.concat tail msg1MacFields).map (· ++ m.msg1.ecdhSignature.toList)

/-- The string under the MAC of `msg2`. -/
def msg2MacInput (m : Messages) (tail : List UInt8) : Option (List UInt8) :=
  (m.concat tail msg2MacFields).map (· ++ Quote.layout.enc m.msg2.quote)

/-- Coordinates agree: their sizes and the bytes in use. -/
def SameCoords (fs : List Field) (m m' : Messages) : Prop :=
  ∀ f ∈ fs, (f.coord m).size = (f.coord m').size ∧ (f.coord m).bytes = (f.coord m').bytes

/-- Messages with equal strings agree in what the receiver uses of them. -/
structure Determined (m m' : Messages) (tail tail' : List UInt8) : Prop where
  anchor : m.concat tail anchorFields = m'.concat tail' anchorFields →
    SameCoords anchorFields m m'
  signature : m.concat tail signatureFields = m'.concat tail' signatureFields →
    SameCoords signatureFields m m'
  msg1Mac : msg1MacInput m tail = msg1MacInput m' tail' →
    SameCoords msg1MacFields m m' ∧ m.msg1.ecdhSignature = m'.msg1.ecdhSignature
  msg2Mac : msg2MacInput m tail = msg2MacInput m' tail' →
    SameCoords msg2MacFields m m' ∧ m.msg2.quote = m'.msg2.quote

/-! ## Sizes -/

/-- The size fields of the messages. -/
def HasSizes (m : Messages) (n : Field → UInt32) : Prop := ∀ f, (f.coord m).size = n f

/-- All sizes are between 1 and 32. -/
def Proper (n : Field → UInt32) : Prop := ∀ f, 1 ≤ (n f).toNat ∧ (n f).toNat ≤ 32

/-- The length of a string made of the given coordinates. -/
def totalSize (fs : List Field) (n : Field → UInt32) : ℕ := (fs.map fun f => (n f).toNat).sum

/-- Two assignments of sizes to the given coordinates cannot be confused: they agree, or they
give strings of different length. -/
def Separate (fs : List Field) (n n' : Field → UInt32) : Prop :=
  (∀ f ∈ fs, n f = n' f) ∨ totalSize fs n ≠ totalSize fs n'

variable {m m' : Messages} {n n' : Field → UInt32} {tail tail' : List UInt8}

lemma HasSizes.fits (h : HasSizes m n) (hn : Proper n) (f : Field) : (f.coord m).Fits := by
  rw [Coord.Fits, h f]
  exact (hn f).2

lemma HasSizes.bytes_length (h : HasSizes m n) (hn : Proper n) (f : Field) :
    (f.coord m).bytes.length = (n f).toNat := by
  have hfits := (hn f).2
  rw [Coord.bytes, List.length_take, h f, Bytes.length_eq]
  omega

lemma HasSizes.concat_eq (h : HasSizes m n) (hn : Proper n) (tail : List UInt8)
    (fs : List Field) : m.concat tail fs = some (fs.flatMap fun f => (f.coord m).bytes) :=
  m.concat_of_fits tail fun f _ => h.fits hn f

lemma HasSizes.length_flatMap (h : HasSizes m n) (hn : Proper n) (fs : List Field) :
    (fs.flatMap fun f => (f.coord m).bytes).length = totalSize fs n := by
  rw [List.length_flatMap, totalSize]
  congr 1
  exact List.map_congr_left fun f _ => h.bytes_length hn f

lemma sameCoords_of_separate (hm : HasSizes m n) (hm' : HasSizes m' n') (hn : Proper n)
    (hn' : Proper n') {fs : List Field} (hsep : Separate fs n n')
    (h : (fs.flatMap fun f => (f.coord m).bytes) = fs.flatMap fun f => (f.coord m').bytes) :
    SameCoords fs m m' := by
  have htotal : totalSize fs n = totalSize fs n' := by
    rw [← hm.length_flatMap hn, ← hm'.length_flatMap hn', h]
  have hsizes := hsep.resolve_right (not_not.mpr htotal)
  have hbytes := eq_of_flatMap_eq
    (fun f hf => by rw [hm.bytes_length hn, hm'.bytes_length hn', hsizes f hf]) h
  exact fun f hf => ⟨by rw [hm f, hm' f, hsizes f hf], hbytes f hf⟩

lemma sameCoords_of_append (hm : HasSizes m n) (hm' : HasSizes m' n') (hn : Proper n)
    (hn' : Proper n') {fs : List Field} (hsep : Separate fs n n') {r r' : List UInt8}
    (hlen : r.length = r'.length)
    (h : (m.concat tail fs).map (· ++ r) = (m'.concat tail' fs).map (· ++ r')) :
    SameCoords fs m m' ∧ r = r' := by
  rw [hm.concat_eq hn, hm'.concat_eq hn', Option.map_some, Option.map_some, Option.some.injEq] at h
  obtain ⟨hcoords, hr⟩ := List.append_inj' h hlen
  exact ⟨sameCoords_of_separate hm hm' hn hn' hsep hcoords, hr⟩

lemma determined_of_separate (hm : HasSizes m n) (hm' : HasSizes m' n') (hn : Proper n)
    (hn' : Proper n') (hanchor : Separate anchorFields n n')
    (hsignature : Separate signatureFields n n') (hmac1 : Separate msg1MacFields n n')
    (hmac2 : Separate msg2MacFields n n') : Determined m m' tail tail' where
  anchor h := by
    rw [hm.concat_eq hn, hm'.concat_eq hn', Option.some.injEq] at h
    exact sameCoords_of_separate hm hm' hn hn' hanchor h
  signature h := by
    rw [hm.concat_eq hn, hm'.concat_eq hn', Option.some.injEq] at h
    exact sameCoords_of_separate hm hm' hn hn' hsignature h
  msg1Mac h := by
    obtain ⟨hcoords, hsig⟩ := sameCoords_of_append hm hm' hn hn' hmac1 (by simp) h
    exact ⟨hcoords, Bytes.ext hsig⟩
  msg2Mac h := by
    obtain ⟨hcoords, hquote⟩ := sameCoords_of_append hm hm' hn hn' hmac2 (by simp) h
    exact ⟨hcoords, Quote.layout.enc_inj hquote⟩

/-! ## Sizes that can be confused -/

/-- Messages of zeros with the given sizes. -/
def blank (n : Field → UInt32) : Messages where
  msg0 := ⟨⟨Bytes.zero 32, n .attesterX⟩, ⟨Bytes.zero 32, n .attesterY⟩⟩
  msg1 := { Msg1.zero with
    ecdhVerifierPublicKeyX := ⟨Bytes.zero 32, n .verifierX⟩
    ecdhVerifierPublicKeyY := ⟨Bytes.zero 32, n .verifierY⟩
    ecdsaVerifierPublicKeyX := ⟨Bytes.zero 32, n .ecdsaX⟩
    ecdsaVerifierPublicKeyY := ⟨Bytes.zero 32, n .ecdsaY⟩ }
  msg2 := { Msg2.zero with
    ecdhLocalPublicKeyX := ⟨Bytes.zero 32, n .localX⟩
    ecdhLocalPublicKeyY := ⟨Bytes.zero 32, n .localY⟩ }

lemma blank_coord (n : Field → UInt32) (f : Field) : f.coord (blank n) = ⟨Bytes.zero 32, n f⟩ := by
  cases f <;> rfl

lemma blank_hasSizes (n : Field → UInt32) : HasSizes (blank n) n := fun f => by rw [blank_coord]

/-- A string made of zeros has nothing but its length. -/
lemma blank_flatMap (hn : Proper n) (fs : List Field) :
    (fs.flatMap fun f => (f.coord (blank n)).bytes) = List.replicate (totalSize fs n) 0 := by
  rw [List.eq_replicate_iff]
  refine ⟨(blank_hasSizes n).length_flatMap hn fs, fun b hb => ?_⟩
  obtain ⟨f, -, hb⟩ := List.mem_flatMap.mp hb
  rw [blank_coord] at hb
  exact List.eq_of_mem_replicate (List.mem_of_mem_take hb)

/-- If strings of zeros determine the coordinates, the sizes cannot be confused. -/
lemma separate_of_blank (hn : Proper n) (hn' : Proper n') {fs : List Field}
    (h : (fs.flatMap fun f => (f.coord (blank n)).bytes)
      = (fs.flatMap fun f => (f.coord (blank n')).bytes) → SameCoords fs (blank n) (blank n')) :
    Separate fs n n' := by
  by_cases htotal : totalSize fs n = totalSize fs n'
  · left
    intro f hf
    have hsame := h (by rw [blank_flatMap hn, blank_flatMap hn', htotal])
    rw [← blank_hasSizes n f, ← blank_hasSizes n' f]
    exact (hsame f hf).1
  · exact .inr htotal

/-- The strings determine the coordinates, sizes included, of all messages with given sizes
between 1 and 32 exactly if these sizes cannot be confused: for each string they are the same in
both messages, or they have different sums. -/
theorem determined_iff_separate (hn : Proper n) (hn' : Proper n') :
    (∀ m m' tail tail', HasSizes m n → HasSizes m' n' → Determined m m' tail tail') ↔
      Separate anchorFields n n' ∧ Separate signatureFields n n' ∧ Separate msg1MacFields n n'
        ∧ Separate msg2MacFields n n' := by
  constructor
  · intro h
    have hdet := h (blank n) (blank n') [] [] (blank_hasSizes n) (blank_hasSizes n')
    have hconcat := fun fs => (blank_hasSizes n).concat_eq hn [] fs
    have hconcat' := fun fs => (blank_hasSizes n').concat_eq hn' [] fs
    refine ⟨separate_of_blank hn hn' fun heq => hdet.anchor ?_,
      separate_of_blank hn hn' fun heq => hdet.signature ?_,
      separate_of_blank hn hn' fun heq => (hdet.msg1Mac ?_).1,
      separate_of_blank hn hn' fun heq => (hdet.msg2Mac ?_).1⟩
    · rw [hconcat, hconcat', heq]
    · rw [hconcat, hconcat', heq]
    · rw [msg1MacInput, msg1MacInput, hconcat, hconcat', heq]
      rfl
    · rw [msg2MacInput, msg2MacInput, hconcat, hconcat', heq]
      rfl
  · rintro ⟨hanchor, hsignature, hmac1, hmac2⟩ m m' tail tail' hm hm'
    exact determined_of_separate hm hm' hn hn' hanchor hsignature hmac1 hmac2

/-- The hypotheses are met by messages in which all sizes are 32, and these are determined by
their strings. -/
theorem determined_of_full_sizes :
    (Proper fun _ => 32) ∧ ∀ m m' tail tail', HasSizes m (fun _ => 32) → HasSizes m' (fun _ => 32) →
      Determined m m' tail tail' := by
  have h32 : 1 ≤ (32 : UInt32).toNat ∧ (32 : UInt32).toNat ≤ 32 := by decide
  have hproper : Proper fun _ => 32 := fun _ => h32
  have hsep : ∀ fs, Separate fs (fun _ => 32) fun _ => 32 := fun _ => .inl fun _ _ => rfl
  exact ⟨hproper, (determined_iff_separate hproper hproper).mpr ⟨hsep _, hsep _, hsep _, hsep _⟩⟩

/-- Messages in which all public keys have the given coordinates. -/
def withKey (x y : Coord) : Messages where
  msg0 := ⟨x, y⟩
  msg1 := { Msg1.zero with
    ecdhVerifierPublicKeyX := x
    ecdhVerifierPublicKeyY := y
    ecdsaVerifierPublicKeyX := x
    ecdsaVerifierPublicKeyY := y }
  msg2 := { Msg2.zero with
    ecdhLocalPublicKeyX := x
    ecdhLocalPublicKeyY := y }

/-- A key with the coordinates 1 and 2, 3. -/
def sampleShort : Messages := withKey ⟨Bytes.slice 32 [1], 1⟩ ⟨Bytes.slice 32 [2, 3], 2⟩

/-- A key with the coordinates 1, 2 and 3. -/
def sampleLong : Messages := withKey ⟨Bytes.slice 32 [1, 2], 2⟩ ⟨Bytes.slice 32 [3], 1⟩

/-- A byte can move from one coordinate to the next without a change of any of the strings. -/
theorem confused_coordinates :
    (∀ f : Field, 1 ≤ (f.coord sampleShort).size.toNat ∧ (f.coord sampleShort).Fits
      ∧ 1 ≤ (f.coord sampleLong).size.toNat ∧ (f.coord sampleLong).Fits)
    ∧ sampleShort.concat [] anchorFields = sampleLong.concat [] anchorFields
    ∧ sampleShort.concat [] signatureFields = sampleLong.concat [] signatureFields
    ∧ msg1MacInput sampleShort [] = msg1MacInput sampleLong []
    ∧ msg2MacInput sampleShort [] = msg2MacInput sampleLong []
    ∧ ¬ SameCoords anchorFields sampleShort sampleLong
    ∧ ¬ SameCoords signatureFields sampleShort sampleLong
    ∧ ¬ SameCoords msg1MacFields sampleShort sampleLong
    ∧ ¬ SameCoords msg2MacFields sampleShort sampleLong := by
  have hsize : ∀ fs : List Field,
      (∃ f ∈ fs, (f.coord sampleShort).size ≠ (f.coord sampleLong).size) →
        ¬ SameCoords fs sampleShort sampleLong := by
    rintro fs ⟨f, hf, hne⟩ hsame
    exact hne (hsame f hf).1
  refine ⟨fun f => by cases f <;> decide, by decide +kernel, by decide +kernel, by decide +kernel,
    by decide +kernel, hsize _ (by decide), hsize _ (by decide), hsize _ (by decide),
    hsize _ (by decide)⟩

end Watz.Protocol
