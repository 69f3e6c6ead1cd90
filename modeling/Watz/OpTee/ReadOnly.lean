import Watz.OpTee.Syscalls
import Watz.OpTee.RangeQueries

/-!
# File mappings stay read-only

Which system calls can make a region that maps a file writable, and that along a run without
such calls none is.
-/

namespace Watz.OpTee

open Lib

/-! ## The system calls -/

variable {len va : ℕ} {rs : List Region}

/-- If the program may leave writable files in the range only when it fails, they are gone when
it returns: the range is unmapped then. -/
lemma returns_orUnmap {lo hi : ℕ} {x : VmProg Unit} {P : Vm → Prop} (env : KernelEnv)
    (hlo : va ≤ lo) (hhi : hi ≤ va + roundupOverflow 64 len smallPageSize 0)
    (h : Triple P x (fun _ s => FilesReadOnly s.regions)
      (fun s => FilesReadOnlyBut lo hi s.regions)) :
    Returns P (orUnmap env va len x) (fun _ s => FilesReadOnly s.regions)
      (fun s => FilesReadOnly s.regions) := by
  intro s hs
  obtain ⟨hok, herr⟩ := h s hs
  rw [orUnmap]
  cases hx : x s with
  | ok u t =>
    refine ⟨fun a t' heq => ?_, fun _ _ heq => (nomatch heq)⟩
    obtain ⟨rfl, rfl⟩ := EStateM.Result.ok.inj heq
    exact hok _ _ hx
  | error e t =>
    cases e with
    | panic => exact ⟨fun _ _ heq => (nomatch heq), fun _ _ heq => (nomatch heq)⟩
    | error e =>
      obtain ⟨hunmap, -⟩ := vmUnmap_spec (herr _ _ hx) hlo hhi env.toVmEnv t rfl
      dsimp only
      cases hu : vmUnmap env.toVmEnv va len t with
      | ok u t' =>
        refine ⟨fun _ _ heq => (nomatch heq), fun e' t'' heq => ?_⟩
        obtain ⟨-, rfl⟩ := EStateM.Result.error.inj heq
        exact hunmap _ _ hu
      | error e' t' => exact ⟨fun _ _ heq => (nomatch heq), fun _ _ heq => (nomatch heq)⟩

/-! ### Calls that cannot make a file writable -/

variable {I : List Region → Prop} {flags : BitVec 64} {numBytes m : ℕ}

lemma keeps_newMobj (env : KernelEnv) (numPages : ℕ) :
    Keeps (fun s : Vm => I s.regions) (newMobj env numPages) :=
  Keeps.bind (keeps_allocate _) fun _ => Keeps.bind (keeps_allocate _) fun _ => Keeps.pure _

lemma keeps_vmMapPad (env : VmEnv) (va len : ℕ) (prot : BitVec 32) {flags : BitVec 16}
    (hflags : flags &&& vmFlagReadonly = 0) (mobj : Mobj) (offs padBegin padEnd align : ℕ) :
    Keeps (fun s : Vm => FilesReadOnly s.regions)
      (vmMapPad env va len prot flags mobj offs padBegin padEnd align) := by
  intro s hs
  refine (vmMapPad_spec hs.sorted env va len prot flags mobj offs padBegin padEnd align).conseq
    (fun _ => id) ?_ ?_ s rfl
  · rintro va' t ⟨reg, -, hmap⟩
    refine hs.mapped hmap fun hro => absurd ?_ hro
    rw [hmap.flags_eq, hflags]
  · rintro t ht
    exact ht ▸ hs

lemma keeps_mapZi (env : KernelEnv) (va numBytes padBegin padEnd : ℕ) (shareable : Bool) :
    Keeps (fun s : Vm => FilesReadOnly s.regions)
      (mapZi env va numBytes padBegin padEnd shareable) := by
  refine Keeps.bind (keeps_newMobj env _) fun mobj => ?_
  refine keeps_vmMapPad _ _ _ _ ?_ _ _ _ _ _
  cases shareable <;> decide

lemma keeps_vmGetFlags (va len : ℕ) :
    Keeps (fun s : Vm => I s.regions) (vmGetFlags va len) := by
  refine Keeps.bind (Keeps.failIf _) fun _ => Keeps.bind Keeps.get fun s => ?_
  split
  · exact Keeps.throw _
  · exact Keeps.bind (Keeps.failIf _) fun _ => Keeps.pure _

lemma vmGetFlags_spec (va len : ℕ) :
    Triple (fun s : Vm => s.regions = rs) (vmGetFlags va len)
      (fun flags s => s.regions = rs
        ∧ ∃ r₀ post, Checked cmpRegionForGetFlags va (va + len) rs r₀ post ∧ r₀.flags = flags)
      (fun s => s.regions = rs) := by
  intro s hs
  obtain ⟨hok, herr⟩ := keeps_vmGetFlags (I := (· = rs)) va len s hs
  refine ⟨fun flags t h => ⟨hok flags t h, ?_⟩, herr⟩
  obtain ⟨rfl, -, hchecked⟩ := checked_of_vmGet h
  exact hs ▸ hchecked

lemma keeps_vmUnmap (env : VmEnv) (va len : ℕ) :
    Keeps (fun s : Vm => FilesReadOnly s.regions) (vmUnmap env va len) := by
  intro s hs
  exact (vmUnmap_spec (hs.but va va) le_rfl (Nat.le_add_right _ _) env).weaken
    (fun _ ht => ht.of_le le_rfl) s rfl

lemma keeps_unmapRange (env : KernelEnv) (va sz : ℕ) :
    Keeps (fun s : Vm => FilesReadOnly s.regions) (unmapRange env va sz) :=
  Keeps.bind (Keeps.failIf _) fun _ => Keeps.bind (keeps_vmGetFlags va sz) fun _ =>
    Keeps.bind (Keeps.failIf _) fun _ => keeps_vmUnmap _ _ _

lemma keeps_ldelfSyscallRemap (env : KernelEnv) (oldVa newVa numBytes padBegin padEnd : ℕ) :
    Keeps (fun s : Vm => FilesReadOnly s.regions)
      (ldelfSyscallRemap env oldVa newVa numBytes padBegin padEnd) :=
  Keeps.bind (keeps_vmGetFlags _ _) fun _ => Keeps.bind (Keeps.failIf _) fun _ =>
    keeps_vmRemap (FilesReadOnly.movable _) _ _ _ _ _

/-! ### Calls that change protections -/

lemma vmSetProt_keeps (h : FilesReadOnly rs) {prot : BitVec 32}
    (hprot : prot.setWidth 16 &&& writeMask ≠ 0 → NoFileIn va (va + len) rs) (env : VmEnv) :
    Triple (fun s : Vm => s.regions = rs) (vmSetProt env va len prot)
      (fun _ s => FilesReadOnly s.regions) (fun s => FilesReadOnly s.regions) :=
  (vmSetProt_spec (h.but va va) le_rfl (Nat.le_add_right _ _) hprot env).weaken
    fun _ hs => hs.of_le le_rfl

/-- If the first region is no file, the check of the flags leaves only the end of the range: no
file lies before it. -/
lemma Checked.noFileIn {r₀ : Region} {post : List Region}
    (h : Checked cmpRegionForGetFlags va (va + len) rs r₀ post) (hsorted : Sorted rs)
    (hflags : r₀.flags &&& vmFlagReadonly = 0)
    (hlast : ∀ r ∈ rs, r.ReadOnly → ¬ (r.va < va + len ∧ va + len ≤ r.endVa)) :
    NoFileIn va (va + len) rs := by
  intro r hr hro
  by_contra hmeet
  obtain ⟨hend, hva⟩ := not_or.mp hmeet
  have hpost := h.mem_of_overlaps hsorted hr (by omega)
  by_cases hbehind : va + len ≤ r.endVa
  · exact hlast r hr hro ⟨by omega, hbehind⟩
  · obtain ⟨pre, rfl⟩ := h.suffix
    obtain ⟨rn, hcmp⟩ := cmp_of_contiguousUpTo (sorted_append.mp hsorted).2.1 h.contiguous r hpost
      (by omega)
    have heq : r₀.flags = r.flags := by simpa [cmpRegionForGetFlags] using hcmp
    rw [Region.ReadOnly, ← heq] at hro
    exact hro hflags

lemma writeable_ldelfProt (flags : BitVec 64) :
    ldelfProt flags &&& writeMask ≠ 0 ↔ flags &&& ldelfMapFlagWriteable ≠ 0 := by
  rw [ldelfProt]
  by_cases hw : flags &&& ldelfMapFlagWriteable ≠ 0 <;>
    by_cases hx : flags &&& ldelfMapFlagExecutable ≠ 0 <;>
    simp only [hw, hx, if_true, if_false, ne_eq, not_false_eq_true] <;> decide

/-- Widening protections to a word and storing them in a region gives them back. -/
@[simp] lemma setWidth_setWidth_prot (prot : BitVec 16) :
    (prot.setWidth 32).setWidth 16 = prot := by simp

/-- Which calls spare the files that are mapped: a file is mapped writable or with more than one
page, and a range is made writable only if it has no file in it.  For `ldelf_syscall_set_prot`
only the region at the end of the range matters, since it looks at the others itself. -/
def Syscall.SparesFiles (rs : List Region) : Syscall → Prop
  | .ldelfMapBin _ numBytes _ _ _ _ flags =>
    flags &&& ldelfMapFlagWriteable ≠ 0
      ∨ smallPageSize < numBytes ∧ numBytes + (smallPageSize - 1) < 2 ^ 32
  | .ldelfSetProt va numBytes flags =>
    flags &&& ldelfMapFlagWriteable ≠ 0 → ∀ r ∈ rs, r.ReadOnly →
      ¬ (r.va < va + roundup numBytes ∧ va + roundup numBytes ≤ r.endVa)
  | .systemMprotect params =>
    params.value0.b.setWidth 16 &&& writeMask ≠ 0 →
      NoFileIn params.value1.to64 (params.value1.to64 + params.size) rs
  | _ => True

lemma ldelfSyscallSetProt_spec (h : FilesReadOnly rs) (env : KernelEnv)
    (hspares : (Syscall.ldelfSetProt va numBytes flags).SparesFiles rs) :
    Triple (fun s : Vm => s.regions = rs) (ldelfSyscallSetProt env va numBytes flags)
      (fun _ s => FilesReadOnly s.regions) (fun s => FilesReadOnly s.regions) := by
  have hsame := of_regions_eq h
  refine Triple.failIf_bind hsame fun _ => Triple.failIf_bind hsame fun _ => ?_
  refine Triple.bind ((vmGetFlags_spec va _).weaken hsame)
    fun vmFlags => ?_
  refine Triple.failIf_bind (fun s hs => hsame s hs.1) fun _ =>
    Triple.failIf_bind (fun s hs => hsame s hs.1) fun hdenied => ?_
  rintro s ⟨hs, r₀, post, hchecked, rfl⟩
  refine vmSetProt_keeps h (fun hw => ?_) env.toVmEnv s hs
  rw [setWidth_setWidth_prot] at hw
  have hfile : r₀.flags &&& vmFlagReadonly = 0 := not_not.mp fun hro => hdenied ⟨hro, hw⟩
  exact hchecked.noFileIn h.sorted hfile (hspares ((writeable_ldelfProt flags).mp hw))

lemma systemMprotect_spec (h : FilesReadOnly rs) (env : KernelEnv) {params : Params}
    (hspares : (Syscall.systemMprotect params).SparesFiles rs) :
    Triple (fun s : Vm => s.regions = rs) (systemMprotect env params)
      (fun _ s => FilesReadOnly s.regions) (fun s => FilesReadOnly s.regions) := by
  have hsame := of_regions_eq h
  refine Triple.failIf_bind hsame fun _ => Triple.failIf_bind hsame fun _ => ?_
  refine Triple.bind ((keeps_vmGetFlags (I := (· = rs)) _ _).weaken hsame) fun vmFlags => ?_
  exact Triple.failIf_bind hsame fun _ => vmSetProt_keeps h hspares env.toVmEnv

/-! ### Mapping a file -/

lemma roundupOverflow_page (numBytes : ℕ) :
    roundupOverflow 32 numBytes smallPageSize 0 % 4096 = 0
      ∧ roundupOverflow 32 numBytes smallPageSize 0 < 2 ^ 32 := by
  rw [roundupOverflow]
  split
  · simp
  · rename_i hlt
    simp only [smallPageSize] at hlt ⊢
    omega

lemma roundup_of_pages (hpages : m % 4096 = 0) (hlt : m < 2 ^ 32) :
    roundup m = m ∧ roundupOverflow 64 m smallPageSize 0 = m := by
  constructor
  · simp only [roundup, wordSize, smallPageSize]
    omega
  · rw [roundupOverflow, if_neg (by simp only [smallPageSize]; omega)]
    simp only [smallPageSize]
    omega

lemma Sorted.disjoint (h : Sorted rs) {r r' : Region} (hr : r ∈ rs) (hr' : r' ∈ rs) (hne : r ≠ r') :
    r.endVa ≤ r'.va ∨ r'.endVa ≤ r.va := by
  induction rs with
  | nil => simp at hr
  | cons x rs ih =>
    obtain ⟨hx, hrs⟩ := sorted_cons.mp h
    rcases List.mem_cons.mp hr with hr | hr <;> rcases List.mem_cons.mp hr' with hr' | hr'
    · exact absurd (hr.trans hr'.symm) hne
    · exact .inl (hr ▸ hx r' hr')
    · exact .inr (hr' ▸ hx r hr)
    · exact ih hrs hr hr'

lemma fillMapping_spec {rs' : List Region} {vmFlags prot : BitVec 16} {reg : Region}
    (h : FilesReadOnly rs) (hpages : m % 4096 = 0) (hlt : m < 2 ^ 32)
    (hmap : Mapped rs m (teeMattrPrw.setWidth 32) vmFlags reg rs')
    (hnew : vmFlags &&& vmFlagReadonly = 0 ∨ 0 < m ∧ prot &&& writeMask = 0) (env : KernelEnv)
    (x : VmProg Unit) (hx : Keeps (fun s : Vm => FilesReadOnly s.regions) x) :
    Returns (fun s => s.regions = rs')
      (orUnmap env reg.va m do
        attempt env.toVmEnv
        vmSetProt env.toVmEnv reg.va m (prot.setWidth 32)
        x)
      (fun _ s => FilesReadOnly s.regions) (fun s => FilesReadOnly s.regions) := by
  obtain ⟨hsize, hround⟩ := roundup_of_pages hpages hlt
  have hend : reg.endVa = reg.va + m := by rw [Region.endVa, hmap.size, hsize]
  -- the exceptions are the new region if it is a file, and nothing otherwise
  obtain ⟨hi, hhi, hbut, hprot⟩ : ∃ hi ≤ reg.va + m, FilesReadOnlyBut reg.va hi rs'
      ∧ (prot &&& writeMask ≠ 0 → NoFileIn reg.va (reg.va + m) rs') := by
    rcases hnew with hflags | ⟨hpos, hprot⟩
    · have hreg : ¬ reg.ReadOnly := by
        rw [Region.ReadOnly, hmap.flags_eq, not_not, hflags]
      have hrs' := h.mapped hmap fun hro => absurd hro hreg
      refine ⟨reg.va, Nat.le_add_right _ _, hrs'.but _ _, fun _ r hr hro => ?_⟩
      rw [← hend]
      refine hmap.sorted.disjoint hr ((hmap.mem reg).mpr (.inl rfl)) ?_
      rintro rfl
      exact hreg hro
    · refine ⟨reg.endVa, hend.le, h.mapped_but hmap ?_, fun hw => absurd hprot hw⟩
      rwa [hmap.size, hsize]
  refine returns_orUnmap env le_rfl (hround ▸ hhi) ?_
  refine Triple.bind ((keeps_attempt (I := (· = rs')) env.toVmEnv).weaken
    fun s hs => hs ▸ hbut) fun _ => ?_
  refine Triple.bind (vmSetProt_spec hbut le_rfl hhi ?_ env.toVmEnv) fun _ =>
    hx.weaken fun s hs => hs.but _ _
  rwa [setWidth_setWidth_prot]

lemma returns_ldelfSyscallMapBin (env : KernelEnv) {handle offsBytes padBegin padEnd : ℕ}
    (h : FilesReadOnly rs)
    (hspares : (Syscall.ldelfMapBin va numBytes handle offsBytes padBegin padEnd
      flags).SparesFiles rs) :
    Returns (fun s => s.regions = rs)
      (ldelfSyscallMapBin env va numBytes handle offsBytes padBegin padEnd flags)
      (fun _ s => FilesReadOnly s.regions) (fun s => FilesReadOnly s.regions) := by
  have hsame := of_regions_eq h
  obtain ⟨hpages, hlt⟩ := roundupOverflow_page numBytes
  -- a file that is not mapped writable has at least two pages
  have hbig : flags &&& ldelfMapFlagWriteable = 0 →
      4096 < roundupOverflow 32 numBytes smallPageSize 0 := by
    intro hflags
    rcases hspares with hw | ⟨hmin, hmax⟩
    · exact absurd hflags hw
    · rw [roundupOverflow, if_neg (by omega)]
      simp only [smallPageSize] at hmin ⊢
      omega
  rw [ldelfSyscallMapBin]
  refine .failIf_bind hsame fun _ => .failIf_bind hsame fun _ => .failIf_bind hsame fun _ => ?_
  refine .failIf_bind hsame fun hexcl => .failIf_bind hsame fun _ => .failIf_bind hsame fun _ => ?_
  dsimp only
  generalize roundupOverflow 32 numBytes smallPageSize 0 = m at hpages hlt hbig ⊢
  obtain ⟨hsize, -⟩ := roundup_of_pages hpages hlt
  have hprot : flags &&& ldelfMapFlagWriteable = 0 →
      (if m = 4096 then ldelfProt flags ||| (teeMattrUw ||| teeMattrPw) else ldelfProt flags)
        &&& writeMask = 0 := by
    intro hflags
    rw [if_neg (hbig hflags).ne']
    exact not_not.mp fun hw => (writeable_ldelfProt flags).mp hw hflags
  split
  · refine .failIf_bind hsame fun _ => .failIf_bind hsame fun hshare => ?_
    have hflags : flags &&& ldelfMapFlagWriteable = 0 :=
      not_not.mp fun hw => hexcl ⟨hshare, hw⟩
    refine .of_triple (Triple.bind ((keeps_allocate (I := (· = rs)) _).weaken hsame) fun _ => ?_)
    refine (vmMapPad_spec h.sorted _ _ _ _ _ _ _ _ _ _).conseq (fun _ => id) ?_ hsame
    rintro va' t ⟨reg, -, hmap⟩
    refine h.mapped hmap fun _ => ⟨?_, ?_⟩
    · rw [hmap.size, hsize]
      exact (Nat.zero_lt_succ _).trans (hbig hflags)
    · rw [hmap.writeable, setWidth_setWidth_prot, not_not]
      exact hprot hflags
  · refine .bind (.of_triple ((keeps_newMobj (I := (· = rs)) _ _).weaken hsame)) fun mobj => ?_
    refine .bind (.of_triple ((vmMapPad_spec h.sorted _ _ _ _ _ _ _ _ _ _).weaken
      hsame)) fun va' => ?_
    rintro s ⟨reg, rfl, hmap⟩
    refine (Returns.bind (fillMapping_spec h hpages hlt hmap ?_ env _ ?_) fun _ =>
      .of_triple (Keeps.pure _)) s rfl
    · by_cases hw : flags &&& ldelfMapFlagWriteable = 0
      · exact .inr ⟨(Nat.zero_lt_succ _).trans (hbig hw), hprot hw⟩
      · rw [decide_eq_true hw, if_pos rfl]
        exact .inl (by decide)
    · exact Keeps.ite (Keeps.pure _) (keeps_attempt _)

/-! ## Runs -/

lemma FilesReadOnly.exec (h : FilesReadOnly rs) (env : KernelEnv) {call : Syscall}
    (hspares : call.SparesFiles rs) :
    Returns (fun s => s.regions = rs) (call.exec env) (fun _ s => FilesReadOnly s.regions)
      (fun s => FilesReadOnly s.regions) := by
  have hkeeps : ∀ {x : VmProg Unit}, Keeps (fun s : Vm => FilesReadOnly s.regions) x →
      Returns (fun s => s.regions = rs) x (fun _ s => FilesReadOnly s.regions)
        (fun s => FilesReadOnly s.regions) := fun hx =>
    .of_triple (Triple.conseq hx (fun s hs => hs ▸ h) (fun _ _ => id) fun _ => id)
  have hdiscard : ∀ {x : VmProg ℕ}, Keeps (fun s : Vm => FilesReadOnly s.regions) x →
      Keeps (fun s : Vm => FilesReadOnly s.regions) (discard x) := fun hx =>
    Keeps.bind hx fun _ => Keeps.pure _
  cases call with
  | ldelfMapZi va numBytes padBegin padEnd flags =>
    exact hkeeps (hdiscard (Keeps.bind (Keeps.failIf _) fun _ => keeps_mapZi _ _ _ _ _ _))
  | ldelfUnmap va numBytes => exact hkeeps (keeps_unmapRange _ _ _)
  | ldelfMapBin va numBytes handle offsBytes padBegin padEnd flags =>
    exact Returns.bind (returns_ldelfSyscallMapBin env h hspares) fun _ =>
      .of_triple (Keeps.pure _)
  | ldelfSetProt va numBytes flags => exact .of_triple (ldelfSyscallSetProt_spec h env hspares)
  | ldelfRemap oldVa newVa numBytes padBegin padEnd =>
    exact hkeeps (hdiscard (keeps_ldelfSyscallRemap _ _ _ _ _ _))
  | systemMapZi params =>
    exact hkeeps (hdiscard (Keeps.bind (Keeps.failIf _) fun _ => Keeps.bind (Keeps.failIf _)
      fun _ => keeps_mapZi _ _ _ _ _ _))
  | systemMprotect params => exact .of_triple (systemMprotect_spec h env hspares)
  | systemUnmap params =>
    exact hkeeps (Keeps.bind (Keeps.failIf _) fun _ => Keeps.bind (Keeps.failIf _)
      fun _ => keeps_unmapRange _ _ _)

lemma filesReadOnly_kernelStep {s : Option (List Region)} {i : KernelEnv × Syscall}
    (hs : ∀ rs, s = some rs → FilesReadOnly rs) (hi : ∀ rs, s = some rs → i.2.SparesFiles rs) :
    ∀ rs, (kernelStep s i).2 = some rs → FilesReadOnly rs := by
  intro rs' hrs'
  obtain ⟨env, call⟩ := i
  cases s with
  | none => cases hrs'
  | some rs =>
    obtain ⟨hok, herr⟩ := (hs rs rfl).exec env (hi rs rfl) ⟨rs, 0⟩ rfl
    rw [kernelStep] at hrs'
    split at hrs'
    · rename_i hexec
      exact Option.some.inj hrs' ▸ hok _ _ hexec
    · cases hrs'
    · rename_i hexec
      exact Option.some.inj hrs' ▸ herr _ _ hexec

/-- The kernel's own mappings of a new address space are no files. -/
lemma keeps_mapKernel (env : VmEnv) (mappings : List KernelMapping) :
    Keeps (fun s : Vm => FilesReadOnly s.regions) (mapKernel env mappings) := by
  induction mappings with
  | nil => exact Keeps.pure _
  | cons m ms ih =>
    rw [mapKernel]
    exact Keeps.bind (Keeps.bind (keeps_vmMapPad _ _ _ _ m.notFile _ _ _ _ _) fun _ =>
      Keeps.pure _) fun _ => ih

/-- File mappings stay read-only along every run whose calls spare them: from a new address space
on, no region that maps a file can be written after a call has returned. -/
theorem files_stay_readOnly {env : VmEnv} {mappings : List KernelMapping} {start : Vm}
    (hstart : mapKernel env mappings ⟨[], 0⟩ = .ok () start)
    {calls : List (KernelEnv × Syscall)}
    (hcalls : ∀ e ∈ history kernelStep (some start.regions) calls,
      ∀ rs, e.before = some rs → e.input.2.SparesFiles rs)
    {rs : List Region} (hrs : finalState kernelStep (some start.regions) calls = some rs) :
    ∀ r ∈ rs, r.ReadOnly → ¬ r.Writeable := by
  have hempty : FilesReadOnly [] := ⟨List.Pairwise.nil, by simp⟩
  have hinit : FilesReadOnly start.regions :=
    (keeps_mapKernel env mappings ⟨[], 0⟩ hempty).1 _ _ hstart
  have hfinal : ∀ rs, finalState kernelStep (some start.regions) calls = some rs →
      FilesReadOnly rs :=
    invariant_finalState (I := fun s => ∀ rs, s = some rs → FilesReadOnly rs)
      (C := fun s i => ∀ rs, s = some rs → i.2.SparesFiles rs)
      (fun s i hs hi => filesReadOnly_kernelStep hs hi)
      (fun rs heq => Option.some.inj heq ▸ hinit) hcalls
  exact fun r hr hro => ((hfinal rs hrs).harmless r hr hro).2

/-- A kernel in which nothing fails and no file is in memory yet. -/
def sampleKernelEnv : KernelEnv where
  vaRangeBase := 0x200000
  vaRangeSize := 0x400000
  outcome _ := none
  hasSystemCtx := true
  handleLookup _ := true
  fileFindSlice _ := none
  mobj := { id := 1, size := 0, isPaged := false, isSecure := true, cattr := some 1 }

/-- Map part of a file, in pages that may be shared. -/
def mapShared (numBytes : ℕ) : KernelEnv × Syscall :=
  (sampleKernelEnv, .ldelfMapBin 0 numBytes 0 0 0 0 ldelfMapFlagShareable)

/-- Two pages of a file are mapped, and are not writable. -/
theorem files_stay_readOnly_sample :
    ∃ rs, finalState kernelStep (some []) [mapShared 8192] = some rs
      ∧ (∃ r ∈ rs, r.ReadOnly) ∧ ∀ r ∈ rs, r.ReadOnly → ¬ r.Writeable := by
  have hstart : mapKernel sampleKernelEnv.toVmEnv [] ⟨[], 0⟩ = .ok () ⟨[], 0⟩ := rfl
  obtain ⟨rs, hrs, hfile⟩ := exists_region (s := finalState kernelStep (some [])
    [mapShared 8192]) (p := Region.ReadOnly) (by decide +kernel)
  refine ⟨rs, hrs, hfile, files_stay_readOnly hstart ?_ hrs⟩
  intro e he rs _
  obtain rfl := List.mem_singleton.mp he
  exact .inr (by decide)

/-- `MPROTECT` of two pages at the start of the address range, with the protections of a
readable and writable mapping. -/
def mprotectSample : KernelEnv × Syscall :=
  (sampleKernelEnv, .systemMprotect
    { types := rangeTypes, value0 := ⟨8192, teeMattrUrw.setWidth 32⟩, value1 := ⟨0, 0x200000⟩,
      value2 := ⟨0, 0⟩ })

/-- Three ways to write to a file: a mapping of a single page is writable from the start,
`MPROTECT` does not look at the flag, and `ldelf_syscall_set_prot` looks at every region of the
range but the last one. -/
theorem file_made_writeable :
    (∃ rs, finalState kernelStep (some []) [mapShared 4096] = some rs
      ∧ ∃ r ∈ rs, r.ReadOnly ∧ r.Writeable)
    ∧ (∃ rs, finalState kernelStep (some []) [mapShared 8192, mprotectSample] = some rs
      ∧ ∃ r ∈ rs, r.ReadOnly ∧ r.Writeable)
    ∧ ∃ rs, finalState kernelStep (some [])
        [(sampleKernelEnv, .ldelfMapBin 0 4096 0 0 0 0 ldelfMapFlagWriteable), mapShared 8192,
          (sampleKernelEnv, .ldelfSetProt 0x200000 0x3000 ldelfMapFlagWriteable)] = some rs
      ∧ ∃ r ∈ rs, r.ReadOnly ∧ r.Writeable := by
  exact ⟨exists_region (by decide +kernel), exists_region (by decide +kernel),
    exists_region (by decide +kernel)⟩

end Watz.OpTee
