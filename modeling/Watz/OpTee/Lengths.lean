import Watz.Lib.BitField
import Watz.OpTee.ReadOnly
import Watz.OpTee.Access

/-!
# Lengths on the way to the kernel

A trusted application has lengths of 64 bits.  `os_mmap` rounds them up, `libutee` puts them into a
parameter of 32 bits, and the system pseudo application rounds what it gets once more, in 32 bits.
`tee_map_zi` compares what it has put into the parameter with the length; `tee_mprotect` and
`tee_unmap` do not, so that of a long range they treat the rest modulo `2 ^ 32` and report success.
-/

namespace Watz.OpTee

open Lib

/-! ## The calls of the application -/

/-- `reg_pair_from_64`. -/
def Value.from64 (v : BitVec 64) : Value where
  a := (v >>> 32).setWidth 32
  b := v.setWidth 32

/-- `invoke_system_pta`.  To open the session may fail, if there is none yet. -/
def invokeSystemPta {α : Type} (env : KernelEnv) (command : VmProg α) : VmProg α := do
  attempt env.toVmEnv
  command

/-- What comes back from a call: a result or an error.  From a panic nothing does. -/
def returned {α : Type} (x : VmProg α) : VmProg (Except VmError α) := fun s =>
  match x s with
  | .ok a t => .ok (.ok a) t
  | .error (.error e) t => .ok (.error e) t
  | .error .panic t => .error .panic t

/-- `tee_map_zi`, with 0 for the null pointer. -/
def teeMapZi (env : KernelEnv) (len : BitVec 64) (flags : BitVec 32) : VmProg (BitVec 64) := do
  let a : BitVec 32 := len.setWidth 32
  if a.setWidth 64 ≠ len then return 0
  if flags ≠ 0 ∧ flags ≠ teeMemoryAccessAnyOwner then return 0
  let b : BitVec 32 := if flags = 0 then 0 else ptaSystemMapFlagShareable
  match ← returned (invokeSystemPta env (systemMapZi env ⟨mapZiTypes, ⟨a, b⟩, ⟨0, 0⟩, ⟨0, 0⟩⟩)) with
  | .ok va => return BitVec.ofNat 64 va
  | .error _ => return 0

/-- `tee_mprotect`. -/
def teeMprotect (env : KernelEnv) (buf len : BitVec 64) (prot : BitVec 32) : VmProg Unit :=
  invokeSystemPta env
    (systemMprotect env ⟨rangeTypes, ⟨len.setWidth 32, prot⟩, .from64 buf, ⟨0, 0⟩⟩)

/-- `tee_unmap`. -/
def teeUnmap (env : KernelEnv) (buf len : BitVec 64) : VmProg Unit :=
  invokeSystemPta env (systemUnmap env ⟨rangeTypes, ⟨len.setWidth 32, 0⟩, .from64 buf, ⟨0, 0⟩⟩)

/-- `MMAP_PROT_READ`, `MMAP_PROT_WRITE` and `MMAP_PROT_EXEC`. -/
def mmapProtRead : BitVec 32 := 1
def mmapProtWrite : BitVec 32 := 2
def mmapProtExec : BitVec 32 := 4

/-- The protections `os_mprotect` asks the kernel for. -/
def mprot (prot : BitVec 32) : BitVec 32 :=
  (if prot &&& mmapProtRead ≠ 0 then (teeMattrUr ||| teeMattrPr).setWidth 32 else 0)
    ||| (if prot &&& mmapProtWrite ≠ 0 then (teeMattrUw ||| teeMattrPw).setWidth 32 else 0)
    ||| (if prot &&& mmapProtExec ≠ 0 then (teeMattrUx ||| teeMattrPx).setWidth 32 else 0)

/-- `os_mprotect`: whether the result is 0. -/
def osMprotect (env : KernelEnv) (addr size : BitVec 64) (prot : BitVec 32) : VmProg Bool := do
  match ← returned (teeMprotect env addr size (mprot prot)) with
  | .ok _ => return true
  | .error _ => return false

/-- The size in whole pages, as `os_mmap` computes it. -/
def alignedSize (size : BitVec 64) : BitVec 64 := (size + 4096 - 1) &&& ~~~ (4096 - 1)

/-- `os_mmap`, with 0 for the null pointer. -/
def osMmap (env : KernelEnv) (size : BitVec 64) (prot : BitVec 32) : VmProg (BitVec 64) := do
  if 0xffffffff ≤ alignedSize size then return 0
  let ret ← teeMapZi env (alignedSize size) 0
  if ret = 0 then return 0
  if ← osMprotect env ret (alignedSize size) prot then return ret
  let _ ← returned (teeUnmap env ret (alignedSize size))
  return 0

/-! ## What is asked for and what is done -/

/-- The page of an address has a byte of the range. -/
def Touches (buf len : BitVec 64) (a : ℕ) : Prop :=
  ∃ b, buf.toNat ≤ b ∧ b < buf.toNat + len.toNat ∧ b / smallPageSize = a / smallPageSize

/-- The address is behind what is left of the range when its length is cut to 32 bits. -/
def CutOff (buf len : BitVec 64) (a : ℕ) : Prop :=
  buf.toNat + pageCeil (len.toNat % 2 ^ 32) ≤ a

/-- The page has these protections. -/
def HasProt (prot : BitVec 32) (p : Option Page) : Prop :=
  p.map (fun p => p.attr &&& teeMattrProtMask) = some (prot.setWidth 16)

variable {buf len : BitVec 64}

section

variable {n a : ℕ}

lemma le_pageCeil (n : ℕ) : n ≤ pageCeil n := by
  simp only [pageCeil, smallPageSize]
  omega

lemma pageCeil_of_aligned (h : PageAligned n) : pageCeil n = n := by
  simp only [PageAligned, pageCeil, smallPageSize] at *
  omega

lemma touches_iff (h : PageAligned buf.toNat) :
    Touches buf len a ↔ buf.toNat ≤ a ∧ a < buf.toNat + pageCeil len.toNat := by
  simp only [Touches, PageAligned, pageCeil, smallPageSize] at *
  constructor
  · rintro ⟨b, hlow, hhigh, hpage⟩
    omega
  · rintro ⟨hlow, hhigh⟩
    rcases lt_or_ge a (buf.toNat + len.toNat) with ha | ha
    · exact ⟨a, hlow, ha, rfl⟩
    · exact ⟨buf.toNat + len.toNat - 1, by omega, by omega, by omega⟩

end

/-! ## What the calls do -/

lemma to64_from64 (v : BitVec 64) : (Value.from64 v).to64 = v.toNat := by
  have hlt := v.isLt
  simp only [Value.from64, Value.to64, BitVec.toNat_setWidth, BitVec.toNat_ushiftRight,
    Nat.shiftRight_eq_div_pow]
  omega

lemma size_of_pos {types b : BitVec 32} {v w : Value}
    (h : 0 < Params.size ⟨types, ⟨len.setWidth 32, b⟩, v, w⟩) :
    Params.size ⟨types, ⟨len.setWidth 32, b⟩, v, w⟩ = pageCeil (len.toNat % 2 ^ 32)
      ∧ 0 < len.toNat % 2 ^ 32 := by
  simp only [Params.size, pageCeil, smallPageSize, BitVec.toNat_setWidth] at *
  omega

/-- A call has done something to all pages of a range, up to where its length was cut. -/
structure Reaches (buf len : BitVec 64) (P : Option Page → Prop) (m m' : ℕ → Option Page) : Prop
    where
  aligned : PageAligned buf.toNat
  pos : 0 < len.toNat % 2 ^ 32
  done : ∀ a, buf.toNat ≤ a → ¬ CutOff buf len a → P (m' a)
  others : ∀ a, CutOff buf len a → m' a = m a

variable {P : Option Page → Prop} {m m' : ℕ → Option Page}

lemma Reaches.forall_touches_iff (h : Reaches buf len P m m') :
    (∀ a, Touches buf len a → P (m' a)) ↔ ∀ a, Touches buf len a → CutOff buf len a → P (m a) := by
  constructor
  · intro hall a ha hcut
    rw [← h.others a hcut]
    exact hall a ha
  · intro hall a ha
    by_cases hcut : CutOff buf len a
    · rw [h.others a hcut]
      exact hall a ha hcut
    · exact h.done a ((touches_iff h.aligned).mp ha).1 hcut

section

variable {env : KernelEnv} {s t : Vm}

variable {α : Type} {prot : BitVec 32}

lemma exists_of_invokeSystemPta {command : VmProg α} {x : α}
    (h : invokeSystemPta env command s = .ok x t) :
    ∃ u : Vm, u.regions = s.regions ∧ command u = .ok x t := by
  obtain ⟨_, u, hattempt, h⟩ := bind_eq_ok.mp h
  exact ⟨u, (keeps_attempt (I := (· = s.regions)) env.toVmEnv s rfl).1 _ u hattempt, h⟩

variable {sz : ℕ} {x : VmProg α} {ptr size : BitVec 64}

lemma range_of_flags {va : ℕ} {f : BitVec 16 → VmProg Unit} (hsorted : Sorted s.regions)
    (h : (vmGetFlags va sz >>= f) s = .ok () t) :
    0 < sz ∧ PageAligned va ∧ PageAligned sz
      ∧ (∀ a, va ≤ a → a < va + sz → ∃ p, pageMap s.regions a = some p)
      ∧ ∃ flags, f flags s = .ok () t := by
  obtain ⟨flags, u, hflags, hf⟩ := bind_eq_ok.mp h
  obtain ⟨rfl, hcheck, r₀, post, hchecked, -⟩ := checked_of_vmGet hflags
  obtain ⟨hsz, haligned⟩ := not_or.mp hcheck
  obtain ⟨hsize, hva⟩ := not_not.mp haligned
  refine ⟨Nat.pos_of_ne_zero hsz, hva, hsize, fun a hlow hhigh => ?_, flags, hf⟩
  obtain ⟨x, hx, hcontains, -⟩ :=
    hchecked.exists_contains (fun _ => ()) (fun _ _ _ _ => rfl) hlow hhigh
  exact ⟨x.page a, hsorted.pageMap_eq_some_iff.mpr ⟨x, hx, hcontains, rfl⟩⟩

lemma hasProt_protect (h : prot &&& ~~~ (teeMattrProtMask.setWidth 32) = 0) (p : Page) :
    HasProt prot (some (p.protect (prot.setWidth 16))) := by
  refine congrArg some (BitVec.eq_of_getLsbD_eq fun i hi => ?_)
  have hmask : prot.getLsbD i = true → teeMattrProtMask.getLsbD i = true := by
    intro hbit
    have hzero := congrArg (fun x => x.getLsbD i) h
    simpa [hbit, show i < 32 by omega] using hzero
  simp only [Page.protect, BitVec.getLsbD_and, BitVec.getLsbD_or, BitVec.getLsbD_not,
    BitVec.getLsbD_setWidth, hi, decide_true, Bool.true_and]
  cases hbit : prot.getLsbD i with
  | false => simp
  | true => simp [hmask hbit]

lemma Reaches.of_onRange {f : Option Page → Option Page}
    (hsz : sz = pageCeil (len.toNat % 2 ^ 32)) (hpos : 0 < len.toNat % 2 ^ 32)
    (haligned : PageAligned buf.toNat) (hm' : m' = onRange buf.toNat (buf.toNat + sz) f m)
    (hP : ∀ a, buf.toNat ≤ a → a < buf.toNat + sz → P (f (m a))) : Reaches buf len P m m' := by
  subst hm' hsz
  refine ⟨haligned, hpos, fun a hlow hcut => ?_, fun a hcut => ?_⟩
  · have hhigh := not_le.mp hcut
    rw [onRange, if_pos ⟨hlow, hhigh⟩]
    exact hP a hlow hhigh
  · exact if_neg fun h => hcut.not_gt h.2

lemma reaches_of_teeMprotect (hsorted : Sorted s.regions)
    (h : teeMprotect env buf len prot s = .ok () t) :
    Reaches buf len (HasProt prot) (pageMap s.regions) (pageMap t.regions) := by
  obtain ⟨u, hu, hcommand⟩ := exists_of_invokeSystemPta h
  rw [← hu] at hsorted ⊢
  simp only [systemMprotect, failIf_bind_eq_ok, to64_from64] at hcommand
  obtain ⟨-, -, hcommand⟩ := hcommand
  obtain ⟨hpos, hva, -, hmapped, flags, hrest⟩ := range_of_flags hsorted hcommand
  obtain ⟨-, hset⟩ := failIf_bind_eq_ok.mp hrest
  obtain ⟨hsize, hlen⟩ := size_of_pos hpos
  obtain ⟨hprot, -⟩ := failIf_bind_eq_ok.mp hset
  refine .of_onRange hsize hlen hva
    ((vmSetProt_pageMap env.toVmEnv hsorted _ _ prot u rfl).1 () t hset) fun a hlow hhigh => ?_
  obtain ⟨p, hp⟩ := hmapped a hlow hhigh
  rw [hp]
  exact hasProt_protect (not_not.mp fun hbad => hprot (.inl hbad)) p

lemma reaches_of_teeUnmap (hsorted : Sorted s.regions) (h : teeUnmap env buf len s = .ok () t) :
    Reaches buf len (· = none) (pageMap s.regions) (pageMap t.regions) := by
  obtain ⟨u, hu, hcommand⟩ := exists_of_invokeSystemPta h
  rw [← hu] at hsorted ⊢
  simp only [systemUnmap, unmapRange, failIf_bind_eq_ok, to64_from64] at hcommand
  obtain ⟨-, -, -, hcommand⟩ := hcommand
  obtain ⟨hpos, hva, haligned, -, flags, hrest⟩ := range_of_flags hsorted hcommand
  obtain ⟨-, hunmap⟩ := failIf_bind_eq_ok.mp hrest
  obtain ⟨hsize, hlen⟩ := size_of_pos hpos
  have hmap := (vmUnmap_pageMap env.toVmEnv hsorted _ _ u rfl).1 () t hunmap
  rw [pageCeil_of_aligned haligned] at hmap
  exact .of_onRange hsize hlen hva hmap fun _ _ _ => rfl

lemma ok_of_returned {a : α} (h : returned x s = .ok (.ok a) t) :
    x s = .ok a t := by
  rw [returned] at h
  cases hx : x s with
  | ok a' t' =>
    rw [hx] at h
    cases h
    rfl
  | error e t' =>
    rw [hx] at h
    cases e with
    | error e => cases h
    | panic => cases h

lemma keeps_returned {I : Vm → Prop} (h : Keeps I x) :
    Keeps I (returned x) := by
  intro s hs
  obtain ⟨hok, herr⟩ := h s hs
  rw [returned]
  cases hx : x s with
  | ok a t => exact Triple.pure (P := I) (fun _ ht => ht) t (hok a t hx)
  | error e t =>
    cases e with
    | error e => exact Triple.pure (P := I) (fun _ ht => ht) t (herr _ t hx)
    | panic => exact Triple.throw (P := I) (fun _ ht => ht) t (herr _ t hx)

/-- A mapping leaves the regions in order, whether it succeeds or not. -/
lemma keeps_sorted_teeMapZi (len : BitVec 64) (flags : BitVec 32) :
    Keeps (fun s => Sorted s.regions) (teeMapZi env len flags) := by
  have hmap : ∀ params, Keeps (fun s => Sorted s.regions) (systemMapZi env params) := by
    intro params
    refine Keeps.bind (Keeps.failIf _) fun _ => Keeps.bind (Keeps.failIf _) fun _ =>
      Keeps.bind (keeps_newMobj env _) fun mobj s hs => ?_
    refine (vmMapPad_adds _ _ _ _ _ _ _ _ _ _).conseq (fun _ => id) ?_ ?_ s rfl
    · rintro va t ⟨cattr, hadd⟩
      exact (umapAddRegion_spec hadd hs).1
    · rintro t ht
      exact ht ▸ hs
  refine Keeps.ite (Keeps.pure _) (Keeps.ite (Keeps.pure _) ?_)
  refine Keeps.bind (keeps_returned (Keeps.bind (keeps_attempt _) fun _ => hmap _)) fun r => ?_
  cases r with
  | ok va => exact Keeps.pure _
  | error e => exact Keeps.pure _

lemma exists_of_osMmap (hsorted : Sorted s.regions) (h : osMmap env size prot s = .ok ptr t)
    (hptr : ptr ≠ 0) :
    (alignedSize size).toNat < 2 ^ 32 ∧ ∃ u : Vm, Sorted u.regions
      ∧ teeMprotect env ptr (alignedSize size) (mprot prot) u = .ok () t := by
  rw [osMmap] at h
  split at h
  · exact absurd (pure_eq_ok.mp h).1.symm hptr
  rename_i hsize
  obtain ⟨ret, u, hmap, hrest⟩ := bind_eq_ok.mp h
  split at hrest
  · exact absurd (pure_eq_ok.mp hrest).1.symm hptr
  obtain ⟨done, v, hprotect, hend⟩ := bind_eq_ok.mp hrest
  cases done with
  | false =>
    -- the pages are unmapped again
    obtain ⟨_, w, -, hnull⟩ := bind_eq_ok.mp hend
    exact absurd (pure_eq_ok.mp hnull).1.symm hptr
  | true =>
    obtain ⟨rfl, rfl⟩ := pure_eq_ok.mp hend
    have hlt : (alignedSize size).toNat < 2 ^ 32 := by
      have hlt := BitVec.lt_def.mp (BitVec.not_le.mp hsize)
      exact hlt.trans (by decide)
    refine ⟨hlt, u, (keeps_sorted_teeMapZi _ _ s hsorted).1 _ u hmap, ?_⟩
    obtain ⟨r, w, hreturned, hr⟩ := bind_eq_ok.mp hprotect
    cases r with
    | error e => cases (pure_eq_ok.mp hr).1
    | ok _ =>
      obtain ⟨-, rfl⟩ := pure_eq_ok.mp hr
      exact ok_of_returned hreturned

lemma toNat_alignedSize (size : BitVec 64) :
    (alignedSize size).toNat = (size.toNat + 4095) % 2 ^ 64 / 4096 * 4096 := by
  have hmask : alignedSize size = (size + 4095) &&& ~~~ BitVec.ofNat 64 (2 ^ 12 - 1) := by
    have hsub : size + 4096 - 1 = size + 4095 := by
      rw [BitVec.sub_eq_add_neg, BitVec.add_assoc]
      rfl
    rw [alignedSize, hsub]
    rfl
  rw [hmask, toNat_and_not_mask _ (by decide), BitVec.toNat_add]
  rfl

lemma mapped_of_osMmap (hsorted : Sorted s.regions) (h : osMmap env size prot s = .ok ptr t)
    (hptr : ptr ≠ 0) {i : ℕ} (hi : i < size.toNat) :
    pageMap t.regions (ptr.toNat + i) ≠ none := by
  obtain ⟨hlt, u, hu, hprotect⟩ := exists_of_osMmap hsorted h hptr
  have hreaches := reaches_of_teeMprotect hu hprotect
  have hpos := hreaches.pos
  rw [Nat.mod_eq_of_lt hlt] at hpos
  -- a size that wraps around is rounded to zero
  have hle : size.toNat ≤ (alignedSize size).toNat := by
    have := size.isLt
    rw [toNat_alignedSize] at hpos ⊢
    omega
  have hreached : ¬ CutOff ptr (alignedSize size) (ptr.toNat + i) := by
    have hceil := le_pageCeil (alignedSize size).toNat
    rw [CutOff, Nat.mod_eq_of_lt hlt]
    omega
  intro hnone
  have hprot := hreaches.done _ (Nat.le_add_right _ _) hreached
  rw [hnone] at hprot
  cases hprot

end

/-- Let the regions be in order, as all operations keep them.  If `tee_mprotect` or `tee_unmap`
succeeds, every page of the range has the protections asked for, or is no longer mapped, exactly if
this was already so for the pages that a length of 32 bits does not reach.  If `os_mmap` returns a
pointer, all bytes are mapped. -/
theorem lengths_survive_iff {env : KernelEnv} {s : Vm} (h : Sorted s.regions) :
    (∀ buf len prot t, teeMprotect env buf len prot s = .ok () t →
        ((∀ a, Touches buf len a → HasProt prot (pageMap t.regions a))
          ↔ ∀ a, Touches buf len a → CutOff buf len a → HasProt prot (pageMap s.regions a)))
      ∧ (∀ buf len t, teeUnmap env buf len s = .ok () t →
        ((∀ a, Touches buf len a → pageMap t.regions a = none)
          ↔ ∀ a, Touches buf len a → CutOff buf len a → pageMap s.regions a = none))
      ∧ ∀ size prot ptr t, osMmap env size prot s = .ok ptr t → ptr ≠ 0 →
        ∀ i < size.toNat, pageMap t.regions (ptr.toNat + i) ≠ none := by
  refine ⟨fun buf len prot t ht => ?_, fun buf len t ht => ?_, fun size prot ptr t ht hptr i hi => ?_⟩
  · exact (reaches_of_teeMprotect h ht).forall_touches_iff
  · exact (reaches_of_teeUnmap h ht).forall_touches_iff
  · exact mapped_of_osMmap h ht hptr hi

/-- A range of one page and a byte is made writable as two pages, and as much is mapped. -/
theorem lengths_survive_iff_sample :
    (∃ t, teeMprotect sampleKernelEnv 0x40000000 4097 (teeMattrUrw.setWidth 32)
        ⟨[samplePages], 0⟩ = .ok () t
      ∧ ∀ a, Touches 0x40000000 4097 a → HasProt (teeMattrUrw.setWidth 32) (pageMap t.regions a))
    ∧ ∃ ptr t, osMmap sampleKernelEnv 4097 mmapProtRead ⟨[], 0⟩ = .ok ptr t ∧ ptr ≠ 0
      ∧ ∀ i < 4097, pageMap t.regions (ptr.toNat + i) ≠ none := by
  constructor
  · have hrun : ((result? (teeMprotect sampleKernelEnv 0x40000000 4097 (teeMattrUrw.setWidth 32)
        ⟨[samplePages], 0⟩)).any fun _ => true) = true := by decide +kernel
    obtain ⟨_, t, ht, -⟩ := exists_ok_of_any hrun
    refine ⟨t, ht, ((lengths_survive_iff (s := ⟨[samplePages], 0⟩)
      samplePages_wellFormed.disjoint).1 _ _ _ t ht).mpr fun a ha hcut => ?_⟩
    -- the length fits into 32 bits
    have haligned : PageAligned (0x40000000 : BitVec 64).toNat := by decide
    exact absurd hcut ((touches_iff haligned).mp ha).2.not_ge
  · have hrun : ((result? (osMmap sampleKernelEnv 4097 mmapProtRead ⟨[], 0⟩)).any
        fun p => p.1 ≠ 0) = true := by decide +kernel
    obtain ⟨ptr, t, ht, hptr⟩ := exists_ok_of_any hrun
    have hne : ptr ≠ 0 := of_decide_eq_true hptr
    exact ⟨ptr, t, ht, hne, (lengths_survive_iff (s := ⟨[], 0⟩) List.Pairwise.nil).2.2 _ _ ptr t ht
      hne⟩

/-- With a length of 4 GiB and a page only the first page is treated. -/
theorem lengths_cut_short :
    (∃ t, teeMprotect sampleKernelEnv 0x40000000 0x100001000 (teeMattrUrw.setWidth 32)
        ⟨[samplePages], 0⟩ = .ok () t
      ∧ Touches 0x40000000 0x100001000 0x40001000
      ∧ ¬ HasProt (teeMattrUrw.setWidth 32) (pageMap t.regions 0x40001000))
    ∧ ∃ t, teeUnmap sampleKernelEnv 0x40000000 0x100001000 ⟨[samplePages], 0⟩ = .ok () t
      ∧ Touches 0x40000000 0x100001000 0x40001000 ∧ pageMap t.regions 0x40001000 ≠ none := by
  have htouches : Touches 0x40000000 0x100001000 0x40001000 :=
    ⟨0x40001000, by decide, by decide, rfl⟩
  constructor
  · have hrun : ((result? (teeMprotect sampleKernelEnv 0x40000000 0x100001000
        (teeMattrUrw.setWidth 32) ⟨[samplePages], 0⟩)).any fun p =>
          pageMap p.2.regions 0x40001000 = some (samplePages.page 0x40001000)) = true := by
      decide +kernel
    obtain ⟨_, t, ht, hpage⟩ := exists_ok_of_any hrun
    refine ⟨t, ht, htouches, ?_⟩
    rw [of_decide_eq_true hpage]
    exact fun hprot => absurd (Option.some.inj hprot) (by decide)
  · have hrun : ((result? (teeUnmap sampleKernelEnv 0x40000000 0x100001000
        ⟨[samplePages], 0⟩)).any fun p => pageMap p.2.regions 0x40001000 ≠ none) = true := by
      decide +kernel
    obtain ⟨_, t, ht, hpage⟩ := exists_ok_of_any hrun
    exact ⟨t, ht, htouches, of_decide_eq_true hpage⟩

end Watz.OpTee
