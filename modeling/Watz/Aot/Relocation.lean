import Watz.Lib.BitField
import Watz.Lib.Bytes
import Watz.Lib.Program

/-!
# Relocations of AArch64 code

The loader patches addresses into the instructions of a section.  A relocation names a place in the
section, a symbol and a type, and the type says which field of the instruction gets which part of
the address.  This file has `apply_relocation` for the types that the loader supports, and compares
the patched instruction, as the processor decodes it, with what the relocation asks for.
-/

namespace Watz.Aot.Aarch64

open Lib

/-! ## Relocations -/

/-- The types that are supported: `R_AARCH64_MOVW_UABS_G0` and so on. -/
inductive RelocType where
  | movwUabsG0
  | movwUabsG0Nc
  | movwUabsG1
  | movwUabsG1Nc
  | movwUabsG2
  | movwUabsG2Nc
  | movwUabsG3
  | adrPrelPgHi21
  | adrPrelPgHi21Nc
  | addAbsLo12Nc
  | ldst8AbsLo12Nc
  | ldst16AbsLo12Nc
  | ldst32AbsLo12Nc
  | ldst64AbsLo12Nc
  | ldst128AbsLo12Nc
  | call26
deriving DecidableEq, Repr

def RelocType.ofCode : ℕ → Option RelocType
  | 263 => some .movwUabsG0
  | 264 => some .movwUabsG0Nc
  | 265 => some .movwUabsG1
  | 266 => some .movwUabsG1Nc
  | 267 => some .movwUabsG2
  | 268 => some .movwUabsG2Nc
  | 269 => some .movwUabsG3
  | 275 => some .adrPrelPgHi21
  | 276 => some .adrPrelPgHi21Nc
  | 277 => some .addAbsLo12Nc
  | 278 => some .ldst8AbsLo12Nc
  | 283 => some .call26
  | 284 => some .ldst16AbsLo12Nc
  | 285 => some .ldst32AbsLo12Nc
  | 286 => some .ldst64AbsLo12Nc
  | 299 => some .ldst128AbsLo12Nc
  | _ => none

structure Relocation where
  relocOffset : BitVec 64
  relocAddend : BitVec 64
  relocType : BitVec 32
  symbolAddr : BitVec 64
  /-- An `int32`, negative for a symbol of the module itself. -/
  symbolIndex : BitVec 32

/-- The addresses that a relocation depends on: the code of the module, with its table of stubs at
the end, and the section. -/
structure Layout where
  code : BitVec 64
  codeSize : BitVec 32
  pltTableSize : BitVec 32
  targetSectionAddr : BitVec 64

/-- The bytes of a section; their number is an `uint32`. -/
structure Section where
  bytes : List UInt8
  size_lt : bytes.length < 2 ^ 32

/-- The instruction at an offset. -/
def word (bytes : List UInt8) (off : ℕ) : BitVec 32 := (ofLe32 (bytes.drop off)).toBitVec

/-- The bytes with another instruction at the offset. -/
def setWord (bytes : List UInt8) (off : ℕ) (insn : BitVec 32) : List UInt8 :=
  bytes.take off ++ le32 (UInt32.ofBitVec insn) ++ bytes.drop (off + 4)

/-! ## `apply_relocation` -/

/-- `SIGN_EXTEND_TO_INT64`.  The macro casts its argument as it is written, and a cast binds closer
than a shift: where the argument is a shift, it is made in 64 bits. -/
def signExtendToInt64 (val : BitVec 64) (bits : ℕ) : BitVec 64 :=
  (val ^^^ (1#64 <<< (bits - 1))) - (1#64 <<< (bits - 1))

/-- `Page`. -/
def page (x : BitVec 64) : BitVec 64 := x &&& ~~~0xFFF#64

/-- `check_reloc_offset`, for a word. -/
def checkRelocOffset (size : ℕ) (relocOffset : BitVec 64) : Bool :=
  relocOffset.toNat < size && (relocOffset + 4#64).toNat ≤ size

def outOfRange : String := "AOT module load failed: target address out of range."

section

variable (l : Layout) (r : Relocation)

/-- `P`. -/
def place : BitVec 64 := l.targetSectionAddr + r.relocOffset

/-- `S` for a call: a symbol of the runtime is reached through the table of stubs. -/
def callee : BitVec 64 :=
  if r.symbolIndex.toInt < 0 then r.symbolAddr
  else l.code + l.codeSize.setWidth 64 - l.pltTableSize.setWidth 64
    + (32#32 * r.symbolIndex).setWidth 64

/-- The `initial_addend` of a call. -/
def callInitialAddend (insn : BitVec 32) : BitVec 64 :=
  let imm26 := insn &&& 0x3FFFFFF#32
  signExtendToInt64 (imm26.signExtend 64 <<< 2) 28

/-- `R_AARCH64_CALL26`. -/
def call26 (insn : BitVec 32) : Except String (BitVec 32) :=
  let a := callInitialAddend insn + r.relocAddend
  if ¬ r.symbolIndex.toInt < 0 ∧ r.relocAddend ≠ 0#64 then
    .error ("AOT module load failed: relocate to plt table "
      ++ "with reloc addend larger than 0 is unsupported.")
  else
    let x := callee l r + a - place l r
    if x.toInt > 128 * 2 ^ 20 ∨ x.toInt < -128 * 2 ^ 20 then .error outOfRange
    else .ok (insn &&& 0xFC000000#32 ||| (x.sshiftRight 2 &&& 0x3FFFFFF#64).setWidth 32)

/-- The `initial_addend` of a move. -/
def movwInitialAddend (insn : BitVec 32) : BitVec 64 :=
  let imm16 := insn.sshiftRight 5 &&& 0xFFFF#32
  signExtendToInt64 (imm16.signExtend 64) 16

/-- `R_AARCH64_MOVW_UABS_G0` and its like: the shift, and the bits that the address may have. -/
def movw (shift : ℕ) (bits : Option ℕ) (insn : BitVec 32) : Except String (BitVec 32) :=
  let x := r.symbolAddr + (movwInitialAddend insn + r.relocAddend)
  if ∃ b ∈ bits, x.toInt < 0 ∨ x.toInt ≥ 2 ^ b then .error outOfRange
  else .ok (insn &&& 0xFFE0001F#32 ||| ((x.sshiftRight shift &&& 0xFFFF#64) <<< 5).setWidth 32)

/-- The `initial_addend` of an `ADRP`. -/
def adrInitialAddend (insn : BitVec 32) : BitVec 64 :=
  let immhi19 := insn.sshiftRight 5 &&& 0x7FFFF#32
  let immlo2 := insn.sshiftRight 29 &&& 0x3#32
  let imm21 := immhi19 <<< 2 ||| immlo2
  signExtendToInt64 (imm21.signExtend 64 <<< 12) 33

/-- The distance of the pages that is checked and written. -/
def adrDistance (insn : BitVec 32) : BitVec 64 :=
  page (r.symbolAddr + (adrInitialAddend insn + r.relocAddend)) - page (place l r)

/-- `R_AARCH64_ADR_PREL_PG_HI21` and `R_AARCH64_ADR_PREL_PG_HI21_NC`. -/
def adrPrelPgHi21 (checked : Bool) (insn : BitVec 32) : Except String (BitVec 32) :=
  let x := adrDistance l r insn
  if checked = true ∧ (x.toInt > 4 * 2 ^ 30 ∨ x.toInt < -4 * 2 ^ 30) then .error outOfRange
  else
    let immhi19 := ((x.sshiftRight 12).sshiftRight 2 &&& 0x7FFFF#64).setWidth 32
    let immlo2 := (x.sshiftRight 12 &&& 0x3#64).setWidth 32
    .ok (insn &&& 0x9F00001F#32 ||| immlo2 <<< 29 ||| immhi19 <<< 5)

/-- The `initial_addend` of an addition, a load or a store. -/
def lo12InitialAddend (insn : BitVec 32) : BitVec 64 :=
  let imm12 := insn.sshiftRight 10 &&& 0xFFF#32
  signExtendToInt64 (imm12.signExtend 64) 12

/-- `R_AARCH64_ADD_ABS_LO12_NC`, and `R_AARCH64_LDST8_ABS_LO12_NC` and its like with the binary
logarithm of the size. -/
def absLo12Nc (scale : ℕ) (insn : BitVec 32) : Except String (BitVec 32) :=
  let x := r.symbolAddr + (lo12InitialAddend insn + r.relocAddend)
  .ok (insn &&& 0xFFC003FF#32
    ||| (((x &&& 0xFFF#64).sshiftRight scale) <<< 10).setWidth 32)

/-- The cases of `apply_relocation`: the new instruction. -/
def relocate : RelocType → BitVec 32 → Except String (BitVec 32)
  | .movwUabsG0 => movw r 0 (some 16)
  | .movwUabsG0Nc => movw r 0 none
  | .movwUabsG1 => movw r 16 (some 32)
  | .movwUabsG1Nc => movw r 16 none
  | .movwUabsG2 => movw r 32 (some 48)
  | .movwUabsG2Nc => movw r 32 none
  | .movwUabsG3 => movw r 48 none
  | .adrPrelPgHi21 => adrPrelPgHi21 l r true
  | .adrPrelPgHi21Nc => adrPrelPgHi21 l r false
  | .addAbsLo12Nc => absLo12Nc r 0
  | .ldst8AbsLo12Nc => absLo12Nc r 0
  | .ldst16AbsLo12Nc => absLo12Nc r 1
  | .ldst32AbsLo12Nc => absLo12Nc r 2
  | .ldst64AbsLo12Nc => absLo12Nc r 3
  | .ldst128AbsLo12Nc => absLo12Nc r 4
  | .call26 => call26 l r

/-- `apply_relocation`, on the bytes of the section. -/
def applyRelocation : EStateM String (List UInt8) Unit := do
  match RelocType.ofCode r.relocType.toNat with
  | none =>
    throw ("Load relocation section failed: invalid relocation type "
      ++ toString r.relocType.toInt ++ ".")
  | some type =>
    let bytes ← get
    failIf (checkRelocOffset bytes.length r.relocOffset = false)
      "AOT module load failed: invalid relocation offset."
    match relocate l r type (word bytes r.relocOffset.toNat) with
    | .error e => throw e
    | .ok insn => set (setWord bytes r.relocOffset.toNat insn)

end

/-! ## What a relocation asks for -/

/-- The instructions that are patched: a call, a move of sixteen bits of the address, an `ADRP`, or
an instruction with the low twelve bits, in units of an access size. -/
inductive Kind where
  | call
  | movw (group : ℕ)
  | adrp
  | lo12 (scale : ℕ)
deriving DecidableEq, Repr

def RelocType.kind : RelocType → Kind
  | movwUabsG0 | movwUabsG0Nc => .movw 0
  | movwUabsG1 | movwUabsG1Nc => .movw 1
  | movwUabsG2 | movwUabsG2Nc => .movw 2
  | movwUabsG3 => .movw 3
  | adrPrelPgHi21 | adrPrelPgHi21Nc => .adrp
  | addAbsLo12Nc | ldst8AbsLo12Nc => .lo12 0
  | ldst16AbsLo12Nc => .lo12 1
  | ldst32AbsLo12Nc => .lo12 2
  | ldst64AbsLo12Nc => .lo12 3
  | ldst128AbsLo12Nc => .lo12 4
  | call26 => .call

namespace Kind

/-- The bits of the immediate. -/
def Immediate : Kind → ℕ → Prop
  | call, i => InField 0 26 i
  | movw _, i => InField 5 16 i
  | adrp, i => InField 5 19 i ∨ InField 29 2 i
  | lo12 _, i => InField 10 12 i

/-- The immediate of an `ADRP`, as a number of pages. -/
def pages (insn : BitVec 32) : ℤ := (insn.extractLsb' 5 19 ++ insn.extractLsb' 29 2).toInt

/-- The immediate as the processor decodes it. -/
def decode : Kind → BitVec 32 → ℤ
  | call, insn => (insn.extractLsb' 0 26).toInt * 4
  | movw _, insn => (insn.extractLsb' 5 16).toNat
  | adrp, insn => pages insn * 4096
  | lo12 scale, insn => (insn.extractLsb' 10 12).toNat * 2 ^ scale

/-- The addend in the field, before the relocation: a signed number. -/
def fieldAddend : Kind → BitVec 32 → ℤ
  | call, insn => (insn.extractLsb' 0 26).toInt * 4
  | movw _, insn => (insn.extractLsb' 5 16).toInt
  | adrp, insn => pages insn * 4096
  | lo12 _, insn => (insn.extractLsb' 10 12).toInt

/-- `A`. -/
def addend (k : Kind) (r : Relocation) (insn : BitVec 32) : BitVec 64 :=
  BitVec.ofInt 64 (k.fieldAddend insn) + r.relocAddend

/-- The page of an address. -/
def pageOf (x : BitVec 64) : BitVec 64 := BitVec.ofNat 64 (x.toNat / 4096 * 4096)

/-- What the immediate should be: `S + A - P` for a call, `Page(S + A) - Page(P)` for an `ADRP`,
and the selected bits of `S + A` otherwise. -/
def target (l : Layout) (r : Relocation) (insn : BitVec 32) : Kind → ℤ
  | call => (callee l r + addend .call r insn - place l r).toInt
  | movw group => (r.symbolAddr + addend (.movw group) r insn).toNat / 2 ^ (16 * group) % 2 ^ 16
  | adrp => (pageOf (r.symbolAddr + addend .adrp r insn) - pageOf (place l r)).toInt
  | lo12 scale => (r.symbolAddr + addend (.lo12 scale) r insn).toNat % 4096

end Kind

/-- The immediate of one word, inside the section, is changed to what the relocation asks for, and
nothing else. -/
structure PatchedExactly (l : Layout) (r : Relocation) (k : Kind) (before after : List UInt8) :
    Prop where
  inside : r.relocOffset.toNat + 4 ≤ before.length
  length_eq : after.length = before.length
  elsewhere : ∀ j, j < r.relocOffset.toNat ∨ r.relocOffset.toNat + 4 ≤ j → after[j]? = before[j]?
  others : ∀ i, ¬ k.Immediate i → (word after r.relocOffset.toNat).getLsbD i
    = (word before r.relocOffset.toNat).getLsbD i
  denotes : k.decode (word after r.relocOffset.toNat)
    = k.target l r (word before r.relocOffset.toNat)

/-- A relocation fails and leaves the section as it is, or it patches a word exactly. -/
def RelocatesExactly (l : Layout) (r : Relocation) (sec : Section) : Prop :=
  match applyRelocation l r sec.bytes with
  | .error _ bytes => bytes = sec.bytes
  | .ok _ bytes => ∃ type, RelocType.ofCode r.relocType.toNat = some type ∧
      PatchedExactly l r type.kind sec.bytes bytes

/-- The value can be encoded, if it is accepted.  A call has to be a multiple of four and below 128
MiB, where the check allows 128 MiB.  For an `ADRP` the distance has to be below 4 GiB, where the
check allows 4 GiB or is not made.  A load or store needs an address that is aligned for it. -/
def Encodable (l : Layout) (r : Relocation) (insn : BitVec 32) (type : RelocType) : Prop :=
  match type.kind with
  | .call =>
    (r.symbolIndex.toInt < 0 ∨ r.relocAddend = 0#64) →
      -2 ^ 27 ≤ Kind.target l r insn .call → Kind.target l r insn .call ≤ 2 ^ 27 →
        Kind.target l r insn .call < 2 ^ 27 ∧ 4 ∣ Kind.target l r insn .call
  | .movw _ => True
  | .adrp =>
    (type = .adrPrelPgHi21 →
      -2 ^ 32 ≤ Kind.target l r insn .adrp ∧ Kind.target l r insn .adrp ≤ 2 ^ 32) →
      -2 ^ 32 ≤ Kind.target l r insn .adrp ∧ Kind.target l r insn .adrp < 2 ^ 32
  | .lo12 scale => (2 ^ scale : ℤ) ∣ Kind.target l r insn (.lo12 scale)

/-- The type is not supported, or the word is not inside the section, or the value can be
encoded. -/
def RelocatesWhen (l : Layout) (r : Relocation) (sec : Section) : Prop :=
  ∀ type, RelocType.ofCode r.relocType.toNat = some type →
    r.relocOffset.toNat + 4 ≤ sec.bytes.length →
      Encodable l r (word sec.bytes r.relocOffset.toNat) type

/-! ## Words of the section -/

section Bytes

variable {bytes : List UInt8} {off : ℕ} {insn : BitVec 32}

section

variable (h : off + 4 ≤ bytes.length)

include h

lemma drop_setWord :
    (setWord bytes off insn).drop off = le32 (UInt32.ofBitVec insn) ++ bytes.drop (off + 4) := by
  rw [setWord, List.append_assoc, List.drop_left' (by rw [List.length_take]; omega)]

lemma word_setWord : word (setWord bytes off insn) off = insn := by
  rw [word, drop_setWord h, ofLe32_append]

lemma length_setWord :
    (setWord bytes off insn).length = bytes.length := by
  simp only [setWord, List.length_append, List.length_take, List.length_drop, le32_length]
  omega

lemma getElem?_setWord {j : ℕ} (hj : j < off ∨ off + 4 ≤ j) :
    (setWord bytes off insn)[j]? = bytes[j]? := by
  have htake : (bytes.take off).length = off := by rw [List.length_take]; omega
  rcases hj with hj | hj
  · rw [setWord, List.append_assoc, List.getElem?_append_left (by rw [htake]; exact hj),
      List.getElem?_take_of_lt hj]
  · have hlen : (bytes.take off ++ le32 (UInt32.ofBitVec insn)).length = off + 4 := by
      rw [List.length_append, htake, le32_length]
    rw [setWord, List.getElem?_append_right (by rw [hlen]; exact hj), hlen, List.getElem?_drop,
      Nat.add_sub_cancel' hj]

end

end Bytes

/-! ## Sign extension -/

lemma bmod_two_pow {v : ℕ} (b : ℕ) (h : v < 2 ^ (b + 1)) :
    Int.bmod v (2 ^ (b + 1)) = if v < 2 ^ b then (v : ℤ) else v - (2 * 2 ^ b : ℕ) := by
  have hpow : 2 ^ (b + 1) = 2 * 2 ^ b := by rw [pow_succ, mul_comm]
  have hmod : (v : ℤ) % ((2 * 2 ^ b : ℕ) : ℤ) = v := Int.emod_eq_of_lt (by omega) (by omega)
  rw [hpow, Int.bmod_def, hmod]
  split_ifs <;> omega

/-- The macro is the sign extension of a number that is not larger. -/
lemma signExtendToInt64_eq {val : BitVec 64} {b : ℕ} (hb : b < 63) (h : val.toNat < 2 ^ (b + 1)) :
    signExtendToInt64 val (b + 1) = BitVec.ofInt 64 (Int.bmod val.toNat (2 ^ (b + 1))) := by
  have hle : 2 ^ b ≤ 2 ^ 62 := Nat.pow_le_pow_right two_pos (by omega)
  have hpos : 0 < 2 ^ b := Nat.two_pow_pos b
  have htwo : (BitVec.twoPow 64 b).toNat = 2 ^ b := BitVec.toNat_twoPow_of_lt (by omega)
  have hpow : 2 ^ (b + 1) = 2 * 2 ^ b := by rw [pow_succ, mul_comm]
  have hbit : val.getLsbD b = decide (2 ^ b ≤ val.toNat) := by
    have hdiv : val.toNat / 2 ^ b < 2 := Nat.div_lt_of_lt_mul (by omega)
    rw [BitVec.getLsbD, Nat.testBit_eq_decide_div_mod_eq, Nat.mod_eq_of_lt hdiv,
      decide_eq_decide, Nat.div_eq_iff hpos]
    omega
  -- the last bit counts with a negative sign
  have hsub : signExtendToInt64 val (b + 1) = if val.getLsbD b
      then val - BitVec.twoPow 64 b - BitVec.twoPow 64 b else val := by
    rw [signExtendToInt64, Nat.add_sub_cancel, ← BitVec.twoPow_eq, xor_twoPow_sub _ _ (by omega)]
  rw [hsub, hbit, bmod_two_pow b h]
  apply BitVec.eq_of_toNat_eq
  rw [BitVec.toNat_ofInt]
  by_cases hsign : 2 ^ b ≤ val.toNat
  · rw [if_pos (by simpa using hsign), if_neg (by omega)]
    simp only [BitVec.toNat_sub, htwo]
    omega
  · rw [if_neg (by simpa using hsign), if_pos (by omega)]
    omega

/-- A field of an instruction is positive as an `int32`. -/
lemma toNat_signExtend {imm : BitVec 32} (h : imm.toNat < 2 ^ 31) :
    (imm.signExtend 64).toNat = imm.toNat := by
  rw [BitVec.signExtend_eq_setWidth_of_msb_false, BitVec.toNat_setWidth, Nat.mod_eq_of_lt]
  · omega
  · rw [BitVec.msb_eq_false_iff_two_mul_lt]
    omega

/-! ## The addends -/

section Addends

variable (insn : BitVec 32)

lemma toInt_extract (lo w : ℕ) : (insn.extractLsb' lo w).toInt
    = Int.bmod (insn.toNat / 2 ^ lo % 2 ^ w : ℕ) (2 ^ w) := by
  rw [BitVec.toInt_eq_toNat_bmod, BitVec.extractLsb'_toNat, Nat.shiftRight_eq_div_pow]

lemma callInitialAddend_eq :
    callInitialAddend insn = BitVec.ofInt 64 (Kind.fieldAddend .call insn) := by
  have hmask : (insn &&& 0x3FFFFFF#32).toNat = insn.toNat % 2 ^ 26 :=
    toNat_and_mask (w := 26) insn (by norm_num)
  have hval : ((insn &&& 0x3FFFFFF#32).signExtend 64 <<< 2).toNat = insn.toNat % 2 ^ 26 * 4 := by
    rw [BitVec.toNat_shiftLeft, toNat_signExtend (by rw [hmask]; omega), hmask, Nat.shiftLeft_eq]
    omega
  have hfield : Kind.fieldAddend .call insn = Int.bmod (insn.toNat % 2 ^ 26 * 4 : ℕ) (2 ^ 28) := by
    show (insn.extractLsb' 0 26).toInt * 4 = _
    rw [toInt_extract, pow_zero, Nat.div_one, bmod_two_pow 25 (by omega),
      bmod_two_pow 27 (by omega)]
    split_ifs <;> omega
  rw [hfield, callInitialAddend, signExtendToInt64_eq (b := 27) (by norm_num) (by rw [hval]; omega),
    hval]

lemma signExtendToInt64_field (lo b : ℕ) (hb : b < 31) (hw : lo + (b + 1) ≤ 32) :
    signExtendToInt64
        ((insn.sshiftRight lo &&& BitVec.ofNat 32 (2 ^ (b + 1) - 1)).signExtend 64) (b + 1)
      = BitVec.ofInt 64 (insn.extractLsb' lo (b + 1)).toInt := by
  have hfield := toNat_sshiftRight_and_mask insn hw
  have hlt : insn.toNat / 2 ^ lo % 2 ^ (b + 1) < 2 ^ (b + 1) := Nat.mod_lt _ (Nat.two_pow_pos _)
  have hle : 2 ^ (b + 1) ≤ 2 ^ 31 := Nat.pow_le_pow_right two_pos (by omega)
  have hval := (toNat_signExtend (by rw [hfield]; omega)).trans hfield
  rw [signExtendToInt64_eq (by omega) (by rw [hval]; exact hlt), hval, toInt_extract]

lemma movwInitialAddend_eq (group : ℕ) :
    movwInitialAddend insn = BitVec.ofInt 64 (Kind.fieldAddend (.movw group) insn) :=
  signExtendToInt64_field insn 5 15 (by norm_num) (by norm_num)

lemma lo12InitialAddend_eq (scale : ℕ) :
    lo12InitialAddend insn = BitVec.ofInt 64 (Kind.fieldAddend (.lo12 scale) insn) :=
  signExtendToInt64_field insn 10 11 (by norm_num) (by norm_num)

/-- The two parts of the immediate of an `ADRP`, as one number. -/
def imm21 : ℕ := insn.toNat / 2 ^ 5 % 2 ^ 19 * 4 + insn.toNat / 2 ^ 29 % 2 ^ 2

lemma imm21_lt : imm21 insn < 2 ^ 21 := by
  rw [imm21]
  omega

lemma pages_eq : Kind.pages insn = Int.bmod (imm21 insn) (2 ^ 21) := by
  have hlo : (insn.extractLsb' 29 2).toNat < 2 ^ 2 := BitVec.isLt _
  rw [Kind.pages, BitVec.toInt_eq_toNat_bmod, BitVec.toNat_append,
    ← Nat.shiftLeft_add_eq_or_of_lt hlo, Nat.shiftLeft_eq, BitVec.extractLsb'_toNat,
    BitVec.extractLsb'_toNat, Nat.shiftRight_eq_div_pow, Nat.shiftRight_eq_div_pow]
  rfl

lemma adrInitialAddend_eq :
    adrInitialAddend insn = BitVec.ofInt 64 (Kind.fieldAddend .adrp insn) := by
  have hhi : (insn.sshiftRight 5 &&& 0x7FFFF#32).toNat = insn.toNat / 2 ^ 5 % 2 ^ 19 :=
    toNat_sshiftRight_and_mask (w := 19) insn (by norm_num)
  have hlo : (insn.sshiftRight 29 &&& 0x3#32).toNat = insn.toNat / 2 ^ 29 % 2 ^ 2 :=
    toNat_sshiftRight_and_mask (w := 2) insn (by norm_num)
  have hlt := imm21_lt insn
  have himm : ((insn.sshiftRight 5 &&& 0x7FFFF#32) <<< 2
      ||| insn.sshiftRight 29 &&& 0x3#32).toNat = imm21 insn := by
    have hshift : (insn.toNat / 2 ^ 5 % 2 ^ 19) <<< 2 % 2 ^ 32
        = (insn.toNat / 2 ^ 5 % 2 ^ 19) <<< 2 := by
      rw [Nat.shiftLeft_eq]
      omega
    rw [BitVec.toNat_or, BitVec.toNat_shiftLeft, hhi, hlo, hshift,
      ← Nat.shiftLeft_add_eq_or_of_lt (Nat.mod_lt _ (by norm_num)), Nat.shiftLeft_eq, imm21]
  have hval : (((insn.sshiftRight 5 &&& 0x7FFFF#32) <<< 2
      ||| insn.sshiftRight 29 &&& 0x3#32).signExtend 64 <<< 12).toNat = imm21 insn * 4096 := by
    rw [BitVec.toNat_shiftLeft, toNat_signExtend (by rw [himm]; omega), himm, Nat.shiftLeft_eq]
    omega
  have hfield : Kind.fieldAddend .adrp insn = Int.bmod (imm21 insn * 4096 : ℕ) (2 ^ 33) := by
    show Kind.pages insn * 4096 = _
    rw [pages_eq, bmod_two_pow 20 hlt, bmod_two_pow 32 (by omega)]
    split_ifs <;> omega
  rw [hfield, adrInitialAddend, signExtendToInt64_eq (b := 32) (by norm_num) (by rw [hval]; omega),
    hval]

end Addends

/-! ## The patches -/

section Patches

variable (l : Layout) (r : Relocation) (insn : BitVec 32)

/-- What the case of a type does: it fails only where nothing is asked for, and otherwise it changes
the immediate only, to the right value if that can be encoded. -/
def CaseSpec (type : RelocType) : Except String (BitVec 32) → Prop
  | .error _ => Encodable l r insn type
  | .ok insn' => (∀ i, ¬ type.kind.Immediate i → insn'.getLsbD i = insn.getLsbD i)
      ∧ (type.kind.decode insn' = type.kind.target l r insn ↔ Encodable l r insn type)

lemma caseSpec_call26 : CaseSpec l r insn .call26 (call26 l r insn) := by
  obtain ⟨x, hx⟩ : ∃ x, x = callee l r + (callInitialAddend insn + r.relocAddend) - place l r :=
    ⟨_, rfl⟩
  have htarget : Kind.target l r insn .call = x.toInt := by
    rw [hx, callInitialAddend_eq]
    rfl
  have hencodable : Encodable l r insn .call26 ↔ ((r.symbolIndex.toInt < 0 ∨ r.relocAddend = 0#64) →
      -2 ^ 27 ≤ x.toInt → x.toInt ≤ 2 ^ 27 → x.toInt < 2 ^ 27 ∧ 4 ∣ x.toInt) := by
    rw [← htarget]
    rfl
  rw [call26, ← hx]
  dsimp only
  split_ifs with hplt hrange
  · refine hencodable.mpr fun hno => ?_
    rcases hno with hneg | hzero
    · exact absurd hneg hplt.1
    · exact absurd hzero hplt.2
  · refine hencodable.mpr fun _ hlow hhigh => ?_
    omega
  · have hmask : (x.sshiftRight 2 &&& 0x3FFFFFF#64).toNat = x.toNat / 2 ^ 2 % 2 ^ 26 :=
      toNat_sshiftRight_and_mask (w := 26) x (by norm_num)
    have hholds := holds_shiftLeft 32 0 26 (hmask.trans_lt (Nat.mod_lt _ (by norm_num)))
      (by norm_num)
    rw [BitVec.shiftLeft_zero, hmask] at hholds
    have hkeep : ∀ i < 32, ¬ InField 0 26 i → (0xFC000000#32).getLsbD i = true := by decide
    refine ⟨fun i hi => getLsbD_patch (fun hlt => hkeep i hlt hi) (hholds.getLsbD hi), ?_⟩
    · have hdecode : Kind.decode .call (insn &&& 0xFC000000#32
          ||| (x.sshiftRight 2 &&& 0x3FFFFFF#64).setWidth 32)
            = Int.bmod (x.toNat / 2 ^ 2 % 2 ^ 26 : ℕ) (2 ^ 26) * 4 := by
        rw [Kind.decode, extract_patch (by decide), BitVec.toInt_eq_toNat_bmod, hholds.extract]
      have hsigned := BitVec.toInt_eq_toNat_cond x
      rw [hencodable]
      show Kind.decode .call _ = Kind.target l r insn .call ↔ _
      rw [hdecode, htarget, bmod_two_pow 25 (Nat.mod_lt _ (by norm_num))]
      have hdirect : r.symbolIndex.toInt < 0 ∨ r.relocAddend = 0#64 := by tauto
      rw [imp_iff_right hdirect]
      split_ifs at hsigned ⊢ <;> omega

/-- A move: nothing has to be asked for. -/
lemma caseSpec_movw (type : RelocType) (group : ℕ) (bits : Option ℕ) (hgroup : group < 4)
    (hkind : type.kind = .movw group) : CaseSpec l r insn type (movw r (16 * group) bits insn) := by
  have hencodable : Encodable l r insn type := by
    rw [Encodable, hkind]
    trivial
  rw [movw]
  split_ifs
  · exact hencodable
  obtain ⟨x, hx⟩ : ∃ x, x = r.symbolAddr + (movwInitialAddend insn + r.relocAddend) := ⟨_, rfl⟩
  rw [← hx]
  have hmask : (x.sshiftRight (16 * group) &&& 0xFFFF#64).toNat
      = x.toNat / 2 ^ (16 * group) % 2 ^ 16 :=
    toNat_sshiftRight_and_mask (w := 16) x (by omega)
  have hholds := holds_shiftLeft 32 5 16 (hmask.trans_lt (Nat.mod_lt _ (by norm_num)))
    (by norm_num)
  rw [hmask, ← BitVec.setWidth_shiftLeft_of_le (by norm_num)] at hholds
  have hkeep : ∀ i < 32, ¬ InField 5 16 i → (0xFFE0001F#32).getLsbD i = true := by decide
  refine ⟨?_, iff_of_true ?_ hencodable⟩
  · rw [hkind]
    exact fun i hi => getLsbD_patch (fun hlt => hkeep i hlt hi) (hholds.getLsbD hi)
  · rw [hkind, Kind.decode, extract_patch (by decide), hholds.extract, hx,
      movwInitialAddend_eq insn group]
    rfl

/-- An addition, a load or a store: the bits that the size leaves out have to be zero. -/
lemma caseSpec_absLo12Nc {type : RelocType} {scale : ℕ}
    (hkind : type.kind = .lo12 scale) : CaseSpec l r insn type (absLo12Nc r scale insn) := by
  obtain ⟨x, hx⟩ : ∃ x, x = r.symbolAddr + (lo12InitialAddend insn + r.relocAddend) := ⟨_, rfl⟩
  rw [absLo12Nc, ← hx]
  have htarget : Kind.target l r insn (.lo12 scale) = (x.toNat % 4096 : ℕ) := by
    rw [hx, lo12InitialAddend_eq insn scale]
    rfl
  have hlow : (x &&& 0xFFF#64).toNat = x.toNat % 2 ^ 12 := toNat_and_mask (w := 12) x (by norm_num)
  have hmask : ((x &&& 0xFFF#64).sshiftRight scale).toNat = x.toNat % 2 ^ 12 / 2 ^ scale := by
    rw [BitVec.sshiftRight_eq_of_msb_false, BitVec.toNat_ushiftRight, hlow,
      Nat.shiftRight_eq_div_pow]
    rw [BitVec.msb_eq_false_iff_two_mul_lt, hlow]
    omega
  have hlt : x.toNat % 2 ^ 12 / 2 ^ scale < 2 ^ 12 :=
    lt_of_le_of_lt (Nat.div_le_self _ _) (Nat.mod_lt _ (by norm_num))
  have hholds := holds_shiftLeft 32 10 12 (hmask.trans_lt hlt) (by norm_num)
  rw [hmask, ← BitVec.setWidth_shiftLeft_of_le (by norm_num)] at hholds
  have hkeep : ∀ i < 32, ¬ InField 10 12 i → (0xFFC003FF#32).getLsbD i = true := by decide
  refine ⟨?_, ?_⟩
  · rw [hkind]
    exact fun i hi => getLsbD_patch (fun hlt => hkeep i hlt hi) (hholds.getLsbD hi)
  · rw [Encodable, hkind, htarget, Kind.decode, extract_patch (by decide), hholds.extract]
    dsimp only
    rw [htarget]
    norm_cast
    constructor
    · intro heq
      exact ⟨_, (heq.symm.trans (mul_comm _ _))⟩
    · exact fun hdvd => Nat.div_mul_cancel hdvd

lemma page_eq (x : BitVec 64) : page x = Kind.pageOf x := by
  have hnat : (page x).toNat = x.toNat / 2 ^ 12 * 2 ^ 12 :=
    toNat_and_not_mask (w := 12) x (by norm_num)
  apply BitVec.eq_of_toNat_eq
  rw [hnat, Kind.pageOf, BitVec.toNat_ofNat]
  omega

lemma toNat_pageOf (x : BitVec 64) : (Kind.pageOf x).toNat = x.toNat / 4096 * 4096 := by
  rw [Kind.pageOf, BitVec.toNat_ofNat]
  omega

/-- The distance that is checked and written is the one that is asked for. -/
lemma adrDistance_eq : adrDistance l r insn
    = Kind.pageOf (r.symbolAddr + Kind.addend .adrp r insn) - Kind.pageOf (place l r) := by
  rw [adrDistance, adrInitialAddend_eq, page_eq, page_eq]
  rfl

/-- The two fields of an `ADRP` hold the bits of the distance above the page. -/
lemma pages_patch (x : BitVec 64) :
    (∀ i, ¬ Kind.Immediate .adrp i →
      (insn &&& 0x9F00001F#32 ||| (x.sshiftRight 12 &&& 0x3#64).setWidth 32 <<< 29
        ||| ((x.sshiftRight 12).sshiftRight 2 &&& 0x7FFFF#64).setWidth 32 <<< 5).getLsbD i
          = insn.getLsbD i) ∧
    Kind.pages (insn &&& 0x9F00001F#32 ||| (x.sshiftRight 12 &&& 0x3#64).setWidth 32 <<< 29
        ||| ((x.sshiftRight 12).sshiftRight 2 &&& 0x7FFFF#64).setWidth 32 <<< 5)
      = Int.bmod (x.toNat / 4096 % 2 ^ 21 : ℕ) (2 ^ 21) := by
  have hlo : (x.sshiftRight 12 &&& 0x3#64).toNat = x.toNat / 2 ^ 12 % 2 ^ 2 :=
    toNat_sshiftRight_and_mask (w := 2) x (by norm_num)
  have hhi : ((x.sshiftRight 12).sshiftRight 2 &&& 0x7FFFF#64).toNat
      = x.toNat / 2 ^ 14 % 2 ^ 19 := by
    rw [← BitVec.sshiftRight_add]
    exact toNat_sshiftRight_and_mask (w := 19) x (by norm_num)
  have hholdsLo := holds_shiftLeft 32 29 2 (hlo.trans_lt (Nat.mod_lt _ (by norm_num))) (by norm_num)
  have hholdsHi := holds_shiftLeft 32 5 19 (hhi.trans_lt (Nat.mod_lt _ (by norm_num))) (by norm_num)
  rw [BitVec.or_assoc]
  generalize (x.sshiftRight 12 &&& 0x3#64).setWidth 32 <<< 29 = flo at *
  generalize ((x.sshiftRight 12).sshiftRight 2 &&& 0x7FFFF#64).setWidth 32 <<< 5 = fhi at *
  have hkeep : ∀ i < 32, ¬ (InField 5 19 i ∨ InField 29 2 i) →
      (0x9F00001F#32).getLsbD i = true := by decide
  constructor
  · intro i hi
    refine getLsbD_patch (fun hlt => hkeep i hlt hi) ?_
    rw [BitVec.getLsbD_or, hholdsLo.getLsbD fun h => hi (Or.inr h),
      hholdsHi.getLsbD fun h => hi (Or.inl h), Bool.or_false]
  · have hhigh : (insn &&& 0x9F00001F#32 ||| (flo ||| fhi)).extractLsb' 5 19
        = fhi.extractLsb' 5 19 := by
      rw [extract_patch (by decide), BitVec.extractLsb'_or,
        hholdsLo.extract_of_disjoint (Or.inr (by norm_num)), BitVec.zero_or]
    have hlow : (insn &&& 0x9F00001F#32 ||| (flo ||| fhi)).extractLsb' 29 2
        = flo.extractLsb' 29 2 := by
      rw [extract_patch (by decide), BitVec.extractLsb'_or,
        hholdsHi.extract_of_disjoint (Or.inl (by norm_num)), BitVec.or_zero]
    have hlt : (flo.extractLsb' 29 2).toNat < 2 ^ 2 := BitVec.isLt _
    rw [Kind.pages, hhigh, hlow, BitVec.toInt_eq_toNat_bmod, BitVec.toNat_append,
      ← Nat.shiftLeft_add_eq_or_of_lt hlt, Nat.shiftLeft_eq, hholdsHi.extract, hholdsLo.extract,
      hhi, hlo]
    congr 2
    omega

lemma caseSpec_adrPrelPgHi21 {type : RelocType} (hkind : type.kind = .adrp) :
    CaseSpec l r insn type
      (adrPrelPgHi21 l r (decide (type = .adrPrelPgHi21)) insn) := by
  obtain ⟨x, hx⟩ : ∃ x, x = adrDistance l r insn := ⟨_, rfl⟩
  have hpage : x.toNat % 4096 = 0 := by
    rw [hx, adrDistance_eq, BitVec.toNat_sub, toNat_pageOf, toNat_pageOf]
    omega
  have htarget : Kind.target l r insn .adrp = x.toInt := by
    rw [hx, adrDistance_eq]
    rfl
  have hencodable : Encodable l r insn type ↔
      ((type = .adrPrelPgHi21 → -2 ^ 32 ≤ x.toInt ∧ x.toInt ≤ 2 ^ 32) →
        -2 ^ 32 ≤ x.toInt ∧ x.toInt < 2 ^ 32) := by
    rw [Encodable, hkind, ← htarget]
  rw [adrPrelPgHi21, ← hx]
  dsimp only
  split_ifs with hrange
  · refine hencodable.mpr fun hcheck => ?_
    have := hcheck (by simpa using hrange.1)
    omega
  · obtain ⟨hothers, hpatch⟩ := pages_patch insn x
    refine ⟨by rw [hkind]; exact hothers, ?_⟩
    have hchecked : type = .adrPrelPgHi21 → -2 ^ 32 ≤ x.toInt ∧ x.toInt ≤ 2 ^ 32 := by
      intro htype
      simp only [htype, decide_true, true_and, not_or] at hrange
      omega
    rw [hencodable, imp_iff_right hchecked, hkind, htarget, Kind.decode, hpatch,
      bmod_two_pow 20 (Nat.mod_lt _ (by norm_num))]
    have hsigned := BitVec.toInt_eq_toNat_cond x
    split_ifs at hsigned ⊢ <;> omega

lemma caseSpec_relocate (type : RelocType) : CaseSpec l r insn type (relocate l r type insn) := by
  cases type with
  | movwUabsG0 => exact caseSpec_movw l r insn .movwUabsG0 0 (some 16) (by norm_num) rfl
  | movwUabsG0Nc => exact caseSpec_movw l r insn .movwUabsG0Nc 0 none (by norm_num) rfl
  | movwUabsG1 => exact caseSpec_movw l r insn .movwUabsG1 1 (some 32) (by norm_num) rfl
  | movwUabsG1Nc => exact caseSpec_movw l r insn .movwUabsG1Nc 1 none (by norm_num) rfl
  | movwUabsG2 => exact caseSpec_movw l r insn .movwUabsG2 2 (some 48) (by norm_num) rfl
  | movwUabsG2Nc => exact caseSpec_movw l r insn .movwUabsG2Nc 2 none (by norm_num) rfl
  | movwUabsG3 => exact caseSpec_movw l r insn .movwUabsG3 3 none (by norm_num) rfl
  | adrPrelPgHi21 => exact caseSpec_adrPrelPgHi21 l r insn rfl
  | adrPrelPgHi21Nc => exact caseSpec_adrPrelPgHi21 l r insn rfl
  | addAbsLo12Nc => exact caseSpec_absLo12Nc l r insn rfl
  | ldst8AbsLo12Nc => exact caseSpec_absLo12Nc l r insn rfl
  | ldst16AbsLo12Nc => exact caseSpec_absLo12Nc l r insn rfl
  | ldst32AbsLo12Nc => exact caseSpec_absLo12Nc l r insn rfl
  | ldst64AbsLo12Nc => exact caseSpec_absLo12Nc l r insn rfl
  | ldst128AbsLo12Nc => exact caseSpec_absLo12Nc l r insn rfl
  | call26 => exact caseSpec_call26 l r insn

end Patches

/-! ## Relocations are exact -/

section Result

variable {l : Layout} {r : Relocation}

lemma checkRelocOffset_eq (sec : Section) (off : BitVec 64) :
    checkRelocOffset sec.bytes.length off = decide (off.toNat + 4 ≤ sec.bytes.length) := by
  have hsize := sec.size_lt
  rw [checkRelocOffset, BitVec.toNat_add, ← Bool.decide_and, decide_eq_decide]
  have hfour : (4#64).toNat = 4 := rfl
  rw [hfour]
  omega

lemma applyRelocation_of_none (h : RelocType.ofCode r.relocType.toNat = none)
    (bytes : List UInt8) : ∃ e, applyRelocation l r bytes = .error e bytes := by
  unfold applyRelocation
  rw [h]
  exact ⟨_, rfl⟩

/-- A supported relocation: it fails without a change, or it writes the word that its case
computes. -/
lemma applyRelocation_of_some {type : RelocType}
    (h : RelocType.ofCode r.relocType.toNat = some type) (sec : Section) :
    applyRelocation l r sec.bytes =
      if r.relocOffset.toNat + 4 ≤ sec.bytes.length then
        match relocate l r type (word sec.bytes r.relocOffset.toNat) with
        | .error e => .error e sec.bytes
        | .ok insn => .ok () (setWord sec.bytes r.relocOffset.toNat insn)
      else .error "AOT module load failed: invalid relocation offset." sec.bytes := by
  unfold applyRelocation
  rw [h]
  dsimp only
  rw [run_get_bind, checkRelocOffset_eq]
  by_cases hin : r.relocOffset.toNat + 4 ≤ sec.bytes.length
  · rw [if_pos hin, failIf_of_neg (by simpa using hin)]
    cases relocate l r type (word sec.bytes r.relocOffset.toNat) <;> rfl
  · rw [if_neg hin]
    exact bind_of_error (failIf_of_pos (by simpa using hin))

lemma patchedExactly_iff {type : RelocType} {bytes : List UInt8} {insn : BitVec 32}
    (hin : r.relocOffset.toNat + 4 ≤ bytes.length)
    (hothers : ∀ i, ¬ type.kind.Immediate i →
      insn.getLsbD i = (word bytes r.relocOffset.toNat).getLsbD i) :
    PatchedExactly l r type.kind bytes (setWord bytes r.relocOffset.toNat insn) ↔
      type.kind.decode insn = type.kind.target l r (word bytes r.relocOffset.toNat) := by
  constructor
  · intro h
    have hdenotes := h.denotes
    rwa [word_setWord hin] at hdenotes
  · intro h
    refine ⟨hin, length_setWord hin, fun j hj => getElem?_setWord hin hj, ?_, ?_⟩
    · rwa [word_setWord hin]
    · rwa [word_setWord hin]

/-- For every relocation and section: `apply_relocation` fails without a change or patches one word
exactly if and only if the value that it accepts can be encoded. -/
theorem relocatesExactly_iff (l : Layout) (r : Relocation) (sec : Section) :
    RelocatesExactly l r sec ↔ RelocatesWhen l r sec := by
  rw [RelocatesExactly, RelocatesWhen]
  cases htype : RelocType.ofCode r.relocType.toNat with
  | none =>
    obtain ⟨e, herr⟩ := applyRelocation_of_none (l := l) htype sec.bytes
    rw [herr]
    exact iff_of_true rfl fun type h => (nomatch h)
  | some type =>
    rw [applyRelocation_of_some htype]
    by_cases hin : r.relocOffset.toNat + 4 ≤ sec.bytes.length
    · rw [if_pos hin]
      have hspec := caseSpec_relocate l r (word sec.bytes r.relocOffset.toNat) type
      cases hcase : relocate l r type (word sec.bytes r.relocOffset.toNat) with
      | error e =>
        rw [hcase] at hspec
        refine iff_of_true rfl fun type' h _ => ?_
        obtain rfl := Option.some.inj h
        exact hspec
      | ok insn =>
        rw [hcase] at hspec
        obtain ⟨hothers, hexact⟩ := hspec
        constructor
        · rintro ⟨type', h, hpatched⟩ type'' h' _
          obtain rfl := Option.some.inj h
          obtain rfl := Option.some.inj h'
          exact hexact.mp ((patchedExactly_iff hin hothers).mp hpatched)
        · intro h
          exact ⟨type, rfl, (patchedExactly_iff hin hothers).mpr (hexact.mpr (h type rfl hin))⟩
    · rw [if_neg hin]
      exact iff_of_true rfl fun _ _ h => absurd h hin

/-! Four relocations of a section that consists of one word. -/

/-- A section at the address `0x10000000` with one instruction. -/
def sampleSection (insn : BitVec 32) : Section :=
  ⟨le32 (UInt32.ofBitVec insn), by rw [le32_length]; norm_num⟩

def sampleLayout : Layout := ⟨0x10000000, 0, 0, 0x10000000⟩

/-- A relocation of the first word to a symbol of the module. -/
def sampleRelocation (type : BitVec 32) (symbolAddr : BitVec 64) : Relocation :=
  ⟨0, 0, type, symbolAddr, -1⟩

/-- A call of 128 MiB, an `ADRP` of 4 GiB, with the check and without, and a load of eight bytes from
an odd address are patched, and wrong. -/
theorem boundaries_not_exact :
    ¬ RelocatesExactly sampleLayout (sampleRelocation 283 0x18000000) (sampleSection 0x94000000)
      ∧ ¬ RelocatesExactly sampleLayout (sampleRelocation 275 0x110000000)
        (sampleSection 0x90000000)
      ∧ ¬ RelocatesExactly sampleLayout (sampleRelocation 276 0x110000000)
        (sampleSection 0x90000000)
      ∧ ¬ RelocatesExactly sampleLayout (sampleRelocation 286 0x10000001)
        (sampleSection 0xF9400000) := by
  refine ⟨?_, ?_, ?_, ?_⟩
  · rintro ⟨type, htype, h⟩
    cases htype
    exact absurd h.denotes (by decide)
  · rintro ⟨type, htype, h⟩
    cases htype
    exact absurd h.denotes (by decide)
  · rintro ⟨type, htype, h⟩
    cases htype
    exact absurd h.denotes (by decide)
  · rintro ⟨type, htype, h⟩
    cases htype
    exact absurd h.denotes (by decide)

end Result

end Watz.Aot.Aarch64
