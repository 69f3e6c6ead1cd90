import Watz.Ems.Heap

/-!
# Headers of chunks

The header of a chunk is a word with fields: the type, the bit for the chunk before it, the bit of
a freed object, and the size.  A function that sets one field leaves the others as they are.  The
size is set without a mask, so this needs a size that fits in its field.
-/

namespace Watz.Ems

variable {w type size : ℕ}

/-- A size that fits in its field replaces the size of the header. -/
lemma hmuSetSize_eq (hsize : size < 2 ^ 30) :
    hmuSetSize w size = w / 2 ^ 27 * 2 ^ 27 + size / 8 := by
  rw [hmuSetSize, mul_comm, Nat.two_pow_add_eq_or_of_lt]
  omega

/-! ## The type -/

@[simp] lemma hmuGetUt_hmuSetUt : hmuGetUt (hmuSetUt w type) = type := by
  rw [hmuGetUt, hmuSetUt]
  omega

@[simp] lemma hmuGetSize_hmuSetUt : hmuGetSize (hmuSetUt w type) = hmuGetSize w := by
  rw [hmuGetSize, hmuGetSize, hmuSetUt]
  omega

@[simp] lemma hmuGetPinuse_hmuSetUt : hmuGetPinuse (hmuSetUt w type) = hmuGetPinuse w := by
  rw [hmuGetPinuse, hmuGetPinuse, hmuSetUt]
  omega

lemma hmuSetUt_lt (htype : type < 4) : hmuSetUt w type < 2 ^ 32 := by
  rw [hmuSetUt]
  omega

/-! ## The size -/

lemma hmuGetUt_hmuSetSize (hsize : size < 2 ^ 30) :
    hmuGetUt (hmuSetSize w size) = hmuGetUt w := by
  rw [hmuSetSize_eq hsize, hmuGetUt, hmuGetUt]
  omega

lemma hmuGetSize_hmuSetSize (hsize : size < 2 ^ 30) (hmod : size % 8 = 0) :
    hmuGetSize (hmuSetSize w size) = size := by
  rw [hmuSetSize_eq hsize, hmuGetSize]
  omega

lemma hmuGetPinuse_hmuSetSize (hsize : size < 2 ^ 30) :
    hmuGetPinuse (hmuSetSize w size) = hmuGetPinuse w := by
  rw [hmuSetSize_eq hsize, hmuGetPinuse, hmuGetPinuse]
  omega

lemma hmuSetSize_lt (hw : w < 2 ^ 32) (hsize : size < 2 ^ 30) : hmuSetSize w size < 2 ^ 32 := by
  rw [hmuSetSize_eq hsize]
  omega

/-! ## The chunk before -/

@[simp] lemma hmuGetUt_hmuMarkPinuse : hmuGetUt (hmuMarkPinuse w) = hmuGetUt w := by
  rw [hmuGetUt, hmuGetUt, hmuMarkPinuse]
  omega

@[simp] lemma hmuGetSize_hmuMarkPinuse : hmuGetSize (hmuMarkPinuse w) = hmuGetSize w := by
  rw [hmuGetSize, hmuGetSize, hmuMarkPinuse]
  omega

@[simp] lemma hmuGetPinuse_hmuMarkPinuse : hmuGetPinuse (hmuMarkPinuse w) = 1 := by
  rw [hmuGetPinuse, hmuMarkPinuse]
  omega

@[simp] lemma hmuIsVoFreed_hmuMarkPinuse : hmuIsVoFreed (hmuMarkPinuse w) = hmuIsVoFreed w := by
  rw [hmuIsVoFreed, hmuIsVoFreed, hmuMarkPinuse]
  omega

lemma hmuMarkPinuse_lt (hw : w < 2 ^ 32) : hmuMarkPinuse w < 2 ^ 32 := by
  rw [hmuMarkPinuse]
  omega

@[simp] lemma hmuGetUt_hmuUnmarkPinuse : hmuGetUt (hmuUnmarkPinuse w) = hmuGetUt w := by
  rw [hmuGetUt, hmuGetUt, hmuUnmarkPinuse]
  omega

@[simp] lemma hmuGetSize_hmuUnmarkPinuse : hmuGetSize (hmuUnmarkPinuse w) = hmuGetSize w := by
  rw [hmuGetSize, hmuGetSize, hmuUnmarkPinuse]
  omega

@[simp] lemma hmuGetPinuse_hmuUnmarkPinuse : hmuGetPinuse (hmuUnmarkPinuse w) = 0 := by
  rw [hmuGetPinuse, hmuUnmarkPinuse]
  omega

@[simp] lemma hmuIsVoFreed_hmuUnmarkPinuse : hmuIsVoFreed (hmuUnmarkPinuse w) = hmuIsVoFreed w := by
  rw [hmuIsVoFreed, hmuIsVoFreed, hmuUnmarkPinuse]
  omega

lemma hmuUnmarkPinuse_lt (hw : w < 2 ^ 32) : hmuUnmarkPinuse w < 2 ^ 32 := by
  rw [hmuUnmarkPinuse]
  omega

/-! ## A freed object -/

@[simp] lemma hmuGetUt_hmuUnfreeVo : hmuGetUt (hmuUnfreeVo w) = hmuGetUt w := by
  rw [hmuGetUt, hmuGetUt, hmuUnfreeVo]
  omega

@[simp] lemma hmuGetSize_hmuUnfreeVo : hmuGetSize (hmuUnfreeVo w) = hmuGetSize w := by
  rw [hmuGetSize, hmuGetSize, hmuUnfreeVo]
  omega

@[simp] lemma hmuGetPinuse_hmuUnfreeVo : hmuGetPinuse (hmuUnfreeVo w) = hmuGetPinuse w := by
  rw [hmuGetPinuse, hmuGetPinuse, hmuUnfreeVo]
  omega

@[simp] lemma hmuIsVoFreed_hmuUnfreeVo : hmuIsVoFreed (hmuUnfreeVo w) = 0 := by
  rw [hmuIsVoFreed, hmuUnfreeVo]
  omega

lemma hmuUnfreeVo_lt (hw : w < 2 ^ 32) : hmuUnfreeVo w < 2 ^ 32 := by
  rw [hmuUnfreeVo]
  omega

/-! ## Headers in memory -/

namespace GcHeap

variable {h : GcHeap} {a b v : ℕ} {f : ℕ → ℕ}

lemma u32_lt : h.u32 a < 2 ^ 32 := Lib.Mem.load_lt.trans_eq (by norm_num)

lemma u32_setU32_self (hv : v < 2 ^ 32) : (h.setU32 a v).u32 a = v :=
  Lib.Mem.load_store_self (hv.trans_eq (by norm_num))

lemma u32_setU32_of_apart (hab : b + 4 ≤ a ∨ a + 4 ≤ b) : (h.setU32 a v).u32 b = h.u32 b :=
  Lib.Mem.load_store_of_disjoint hab

lemma u32_setHeader_self (hf : f (h.u32 a) < 2 ^ 32) : (h.setHeader a f).u32 a = f (h.u32 a) :=
  u32_setU32_self hf

lemma u32_setHeader_of_apart (hab : b + 4 ≤ a ∨ a + 4 ≤ b) :
    (h.setHeader a f).u32 b = h.u32 b := u32_setU32_of_apart hab

end GcHeap

end Watz.Ems
