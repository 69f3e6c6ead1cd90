import Watz.OpTee.Regions

/-!
# What the operations on an address space do to file mappings

A region with `VM_FLAG_READONLY` maps pages of a file that other applications may map too.  This
file follows such regions through the operations of `Watz.OpTee.Vm`: where they are created, cut,
joined, moved and protected, and what a range needs for them to stay read-only.
-/

namespace Watz.OpTee

open Lib

/-! ## The invariant -/

/-- A region that maps a file has pages, and they cannot be written. -/
def Region.Harmless (r : Region) : Prop := r.ReadOnly → 0 < r.size ∧ ¬ r.Writeable

/-- The regions are in order, and no file can be written through them. -/
structure FilesReadOnly (rs : List Region) : Prop where
  sorted : Sorted rs
  harmless : ∀ r ∈ rs, r.Harmless

/-- The same while a file is being mapped at the addresses from `lo` to `hi`: the regions there
may be writable for the time being. -/
structure FilesReadOnlyBut (lo hi : ℕ) (rs : List Region) : Prop where
  sorted : Sorted rs
  pos : ∀ r ∈ rs, r.ReadOnly → 0 < r.size
  within : ∀ r ∈ rs, r.ReadOnly → r.Writeable → lo ≤ r.va ∧ r.endVa ≤ hi

variable {rs rs' pre rest : List Region} {hi lo len endVa va : ℕ} {r : Region} {E : Vm → Prop}
  {α : Type} {Q : α → Vm → Prop} {x : VmProg α} {prot : BitVec 32}

lemma FilesReadOnly.but (h : FilesReadOnly rs) (lo hi : ℕ) :
    FilesReadOnlyBut lo hi rs :=
  ⟨h.sorted, fun r hr hro => (h.harmless r hr hro).1,
    fun r hr hro hw => absurd hw (h.harmless r hr hro).2⟩

/-- A range without addresses allows no exception. -/
lemma FilesReadOnlyBut.of_le (h : FilesReadOnlyBut lo hi rs) (hle : hi ≤ lo) :
    FilesReadOnly rs := by
  refine ⟨h.sorted, fun r hr hro => ⟨h.pos r hr hro, fun hw => ?_⟩⟩
  obtain ⟨hlo, hhi⟩ := h.within r hr hro hw
  have hpos := h.pos r hr hro
  simp only [Region.endVa] at hhi
  omega

lemma Region.Part.readOnly {r' : Region} (h : r'.Part r) : r'.ReadOnly ↔ r.ReadOnly := by
  rw [Region.ReadOnly, Region.ReadOnly, h.flags]

lemma Region.Part.writeable {r' : Region} (h : r'.Part r) : r'.Writeable ↔ r.Writeable := by
  rw [Region.Writeable, Region.Writeable, h.attr]

lemma FilesReadOnlyBut.cutOf (h : FilesReadOnlyBut lo hi rs) (hcut : CutOf rs rs') :
    FilesReadOnlyBut lo hi rs' := by
  refine ⟨hcut.sorted, fun r' hr' hro => ?_, fun r' hr' hro hw => ?_⟩
  · obtain ⟨r, hr, hpart⟩ := hcut.part r' hr'
    exact hpart.pos (h.pos r hr (hpart.readOnly.mp hro))
  · obtain ⟨r, hr, hpart⟩ := hcut.part r' hr'
    obtain ⟨hlo, hhi⟩ := h.within r hr (hpart.readOnly.mp hro) (hpart.writeable.mp hw)
    exact ⟨hlo.trans hpart.low, hpart.high.trans hhi⟩

lemma FilesReadOnly.cutOf (h : FilesReadOnly rs) (hcut : CutOf rs rs') :
    FilesReadOnly rs' := ((h.but 0 0).cutOf hcut).of_le le_rfl

lemma FilesReadOnly.sublist (h : FilesReadOnly rs) (hsub : List.Sublist rs' rs) :
    FilesReadOnly rs' :=
  ⟨h.sorted.sublist hsub, fun r hr => h.harmless r (hsub.subset hr)⟩

lemma FilesReadOnly.mergeOf (h : FilesReadOnly rs) (hmerge : MergeOf rs rs') :
    FilesReadOnly rs' := by
  refine ⟨hmerge.sorted, fun r' hr' hro => ?_⟩
  obtain ⟨r, hr, -, hsize, hattr, hflags⟩ := hmerge.lowest r' hr'
  rw [Region.ReadOnly, ← hflags] at hro
  obtain ⟨hpos, hw⟩ := h.harmless r hr hro
  exact ⟨hpos.trans_le hsize, by rwa [Region.Writeable, ← hattr]⟩

lemma exists_region {s : Option (List Region)} {p : Region → Prop} [DecidablePred p]
    (h : (s.any fun rs => rs.any fun r => p r) = true) :
    ∃ rs, s = some rs ∧ ∃ r ∈ rs, p r := by
  cases s with
  | none => cases h
  | some rs => exact ⟨rs, rfl, by simpa using h⟩

/-! ## Returning -/

/-- What holds when a program returns to its caller, with a result or with an error; a panic
does not return. -/
def Returns {α : Type} (P : Vm → Prop) (x : VmProg α) (Q : α → Vm → Prop) (E : Vm → Prop) : Prop :=
  ∀ s, P s → (∀ a t, x s = .ok a t → Q a t) ∧ ∀ e t, x s = .error (.error e) t → E t

lemma Returns.of_triple {P : Vm → Prop} (h : Triple P x Q E) :
    Returns P x Q E := fun s hs => ⟨(h s hs).1, fun _ => (h s hs).2 _⟩

lemma Returns.conseq {P P' E' : Vm → Prop} {Q' : α → Vm → Prop} (h : Returns P x Q E)
    (hP : ∀ s, P' s → P s) (hQ : ∀ a s, Q a s → Q' a s) (hE : ∀ s, E s → E' s) :
    Returns P' x Q' E' := fun s hs =>
  ⟨fun a t hx => hQ a t ((h s (hP s hs)).1 a t hx), fun e t hx => hE t ((h s (hP s hs)).2 e t hx)⟩

lemma Returns.bind {β : Type} {P : Vm → Prop} {f : α → VmProg β} {R : β → Vm → Prop}
    (hx : Returns P x Q E) (hf : ∀ a, Returns (Q a) (f a) R E) : Returns P (x >>= f) R E := by
  intro s hs
  obtain ⟨hok, herr⟩ := hx s hs
  cases h : x s with
  | ok a t =>
    rw [bind_of_ok h]
    exact hf a t (hok a t h)
  | error e t =>
    rw [bind_of_error h]
    refine ⟨fun _ _ h => (nomatch h), fun e' t' h' => ?_⟩
    obtain ⟨rfl, rfl⟩ := EStateM.Result.error.inj h'
    exact herr e' t h

lemma Returns.failIf_bind {P : Vm → Prop} {c : Prop} [Decidable c] {e : VmStop}
    {f : Unit → VmProg α} (hE : ∀ s, P s → E s) (h : ¬ c → Returns P (f ()) Q E) :
    Returns P (failIf c e >>= f) Q E := by
  by_cases hc : c
  · exact .of_triple (Triple.failIf_bind hE fun hnc => absurd hc hnc)
  · rw [failIf_of_neg hc]
    exact h hc

lemma Returns.get_bind {P : Vm → Prop} {f : Vm → VmProg α}
    (h : ∀ s, P s → Returns (fun t => t = s) (f s) Q E) : Returns P (get >>= f) Q E :=
  fun s hs => h s hs s rfl

lemma Returns.setRegions_bind {P : Vm → Prop} {f : PUnit → VmProg α}
    (h : Returns (fun s => s.regions = rs) (f ()) Q E) : Returns P (setRegions rs >>= f) Q E :=
  fun s _ => h { s with regions := rs } rfl

lemma Returns.panic {P : Vm → Prop} :
    Returns P (throw .panic : VmProg α) Q E :=
  fun _ _ => ⟨fun _ _ h => (nomatch h), fun _ _ h => (nomatch h)⟩

/-! ## Calls into allocators and pager -/

section Draw

variable {I : List Region → Prop} (env : VmEnv)

lemma keeps_draw : Keeps (fun s : Vm => I s.regions) (draw env) :=
  Keeps.bind Keeps.get fun _ =>
    Keeps.bind (Keeps.modify fun _ hs => hs) fun _ => Keeps.pure _

lemma keeps_drawIf (called : Bool) : Keeps (fun s : Vm => I s.regions) (drawIf env called) :=
  Keeps.ite (keeps_draw env) (Keeps.pure _)

lemma keeps_attempt : Keeps (fun s : Vm => I s.regions) (attempt env) := by
  refine Keeps.bind (keeps_draw env) fun o => ?_
  cases o with
  | none => exact Keeps.pure _
  | some e => exact Keeps.throw _

lemma keeps_allocate : Keeps (fun s : Vm => I s.regions) (allocate env) := by
  refine Keeps.bind (keeps_draw env) fun o => ?_
  cases o with
  | none => exact Keeps.pure _
  | some e => exact Keeps.throw _

lemma keeps_attemptOrPanic : Keeps (fun s : Vm => I s.regions) (attemptOrPanic env) := by
  refine Keeps.bind (keeps_draw env) fun o => ?_
  cases o with
  | none => exact Keeps.pure _
  | some e => exact Keeps.throw _

lemma keeps_attemptIf (paged : Bool) : Keeps (fun s : Vm => I s.regions) (attemptIf env paged) :=
  Keeps.ite (keeps_attempt env) (Keeps.pure _)

lemma keeps_attemptOrPanicIf (paged : Bool) :
    Keeps (fun s : Vm => I s.regions) (attemptOrPanicIf env paged) :=
  Keeps.ite (keeps_attemptOrPanic env) (Keeps.pure _)

lemma returns_draw :
    Returns (fun s : Vm => I s.regions) (draw env) (fun _ s => I s.regions) E :=
  fun s hs => ⟨(keeps_draw env s hs).1, fun _ _ h => (nomatch h)⟩

lemma returns_drawIf (called : Bool) :
    Returns (fun s : Vm => I s.regions) (drawIf env called) (fun _ s => I s.regions) E := by
  rw [drawIf]
  split
  · exact returns_draw env
  · exact .of_triple (Triple.pure fun _ hs => hs)

lemma returns_attemptOrPanic :
    Returns (fun s : Vm => I s.regions) (attemptOrPanic env) (fun _ s => I s.regions) E := by
  intro s hs
  refine ⟨fun a t h => (keeps_attemptOrPanic env s hs).1 a t h, fun e t h => ?_⟩
  rcases bind_eq_error.mp h with hdraw | ⟨o, u, -, ho⟩
  · cases hdraw
  · cases o with
    | none => cases ho
    | some e' => cases ho

lemma returns_attemptOrPanicIf (paged : Bool) :
    Returns (fun s : Vm => I s.regions) (attemptOrPanicIf env paged) (fun _ s => I s.regions) E := by
  rw [attemptOrPanicIf]
  split
  · exact returns_attemptOrPanic env
  · exact .of_triple (Triple.pure fun _ hs => hs)

end Draw

/-! ## Mapping -/

lemma writeable_newAttr {mobj : Mobj} {cattr prot : BitVec 16} :
    newAttr mobj cattr prot &&& writeMask = prot &&& writeMask := by
  have hcache : cattr <<< teeMattrCacheShift &&& writeMask = 0 := by
    apply BitVec.eq_of_getLsbD_eq
    intro i hi
    have hmask : ∀ j < 16, writeMask.getLsbD j = true → j < 12 := by decide
    by_cases hlow : i < 12
    · simp [teeMattrCacheShift, hlow]
    · have : writeMask.getLsbD i = false := by
        by_contra htrue
        exact hlow (hmask i hi (by simpa using htrue))
      simp [this]
  have hblock : teeMattrValidBlock &&& writeMask = 0 := by decide
  have hsecure : teeMattrSecure &&& writeMask = 0 := by decide
  have hor : ∀ x y : BitVec 16, (x ||| y) &&& writeMask = (x &&& writeMask) ||| (y &&& writeMask) := by
    intro x y
    rw [BitVec.and_comm, BitVec.and_or_distrib_left, BitVec.and_comm x, BitVec.and_comm y]
  rw [newAttr]
  cases mobj.isPaged <;> cases mobj.isSecure <;> simp [hor, hcache, hblock, hsecure]

/-- What a successful `vm_map_pad` leaves. -/
structure Mapped (rs : List Region) (len : ℕ) (prot : BitVec 32) (flags : BitVec 16) (reg : Region)
    (rs' : List Region) : Prop where
  sorted : Sorted rs'
  mem : ∀ x, x ∈ rs' ↔ x = reg ∨ x ∈ rs
  size : reg.size = roundup len
  flags_eq : reg.flags = flags
  writeable : reg.Writeable ↔ prot.setWidth 16 &&& writeMask ≠ 0

lemma vmMapPad_adds (env : VmEnv) (va len : ℕ) (prot : BitVec 32) (flags : BitVec 16)
    (mobj : Mobj) (offs padBegin padEnd align : ℕ) :
    Triple (fun s : Vm => s.regions = rs)
      (vmMapPad env va len prot flags mobj offs padBegin padEnd align)
      (fun va' s => ∃ cattr, umapAddRegion env
        { mobj := mobj, offset := offs, va := va, size := roundup len,
          attr := newAttr mobj cattr (prot.setWidth 16), flags := flags }
        padBegin padEnd align rs = .ok (va', s.regions))
      (fun s => s.regions = rs) := by
  refine Triple.bind (Keeps.failIf _) fun _ =>
    Triple.bind (keeps_allocate (I := (· = rs)) env) fun _ => ?_
  refine Triple.bind (Q := fun _ (s : Vm) => s.regions = rs) ?_ fun cattr => ?_
  · rw [mobjGetCattr]
    split
    · exact Triple.throw fun _ hs => hs
    · exact Triple.pure fun _ hs => hs
    · exact Triple.pure fun _ hs => hs
  refine Triple.bind (Q := fun s (t : Vm) => s.regions = rs ∧ t.regions = rs)
    (Triple.get fun _ hs => ⟨hs, hs⟩) fun s => ?_
  split
  · exact Triple.throw fun _ hs => hs.2
  rename_i va' rs' hadd
  rintro t ⟨hs, ht⟩
  rw [hs] at hadd
  refine (Triple.bind (keeps_attempt (I := (· = rs)) env) fun _ =>
    Triple.bind (keeps_attemptIf (I := (· = rs)) env _) fun _ => ?_) t ht
  exact Triple.bind (Q := fun _ (s : Vm) => s.regions = rs') (Triple.modify fun _ _ => rfl) fun _ =>
    Triple.pure fun u hu => ⟨cattr, hu ▸ hadd⟩

lemma vmMapPad_spec (hsorted : Sorted rs) (env : VmEnv) (va len : ℕ) (prot : BitVec 32)
    (flags : BitVec 16) (mobj : Mobj) (offs padBegin padEnd align : ℕ) :
    Triple (fun s : Vm => s.regions = rs)
      (vmMapPad env va len prot flags mobj offs padBegin padEnd align)
      (fun va' s => ∃ reg, reg.va = va' ∧ Mapped rs len prot flags reg s.regions)
      (fun s => s.regions = rs) := by
  refine (vmMapPad_adds env va len prot flags mobj offs padBegin padEnd align).conseq
    (fun _ => id) ?_ fun _ => id
  rintro va' s ⟨cattr, hadd⟩
  obtain ⟨hsorted', hmem⟩ := umapAddRegion_spec hadd hsorted
  exact ⟨_, rfl, hsorted', hmem, rfl, rfl, by rw [Region.Writeable, writeable_newAttr]⟩

lemma FilesReadOnly.mapped {flags : BitVec 16} {reg : Region} (h : FilesReadOnly rs)
    (hmap : Mapped rs len prot flags reg rs') (hreg : reg.Harmless) : FilesReadOnly rs' := by
  refine ⟨hmap.sorted, fun x hx => ?_⟩
  rcases (hmap.mem x).mp hx with rfl | hx
  · exact hreg
  · exact h.harmless x hx

lemma FilesReadOnly.mapped_but {flags : BitVec 16} {reg : Region} (h : FilesReadOnly rs)
    (hmap : Mapped rs len prot flags reg rs') (hpos : 0 < reg.size) :
    FilesReadOnlyBut reg.va reg.endVa rs' := by
  refine ⟨hmap.sorted, fun x hx hro => ?_, fun x hx hro hw => ?_⟩
  · rcases (hmap.mem x).mp hx with rfl | hx
    · exact hpos
    · exact (h.harmless x hx hro).1
  · rcases (hmap.mem x).mp hx with rfl | hx
    · exact ⟨le_rfl, le_rfl⟩
    · exact absurd hw (h.harmless x hx hro).2

/-! ## Splitting -/

lemma splitVmRegion_spec (env : VmEnv) (r : Region) (va : ℕ) :
    Triple (fun s : Vm => s.regions = rs) (splitVmRegion env r va)
      (fun p s => p = r.cut va ∧ s.regions = rs) (fun s => s.regions = rs) :=
  Triple.bind (keeps_allocate (I := (· = rs)) env) fun _ =>
    Triple.bind (keeps_attemptIf (I := (· = rs)) env _) fun _ => Triple.pure fun _ hs => ⟨rfl, hs⟩

/-- The second half of `split_vm_range` has cut a list: it has found the region with the last
address of the range, and some region now ends with the range. -/
structure CutsEnd (endVa : ℕ) (l l' : List Region) : Prop where
  eq_cut : l' = cutAt endVa l
  found : ∃ r ∈ l, r.va < endVa ∧ endVa ≤ r.endVa
  ends : ∃ r ∈ l', r.endVa = endVa

lemma splitLast_spec (rs : List Region) (env : VmEnv) (hend : 0 < endVa) {l : List Region}
    (hsorted : Sorted l) :
    Triple (fun s : Vm => s.regions = rs) (splitLast env endVa l)
      (fun o s => s.regions = rs ∧ ∀ l', o = some l' → CutsEnd endVa l l')
      (fun s => s.regions = rs) := by
  rw [splitLast]
  split
  · exact Triple.pure fun _ hs => ⟨hs, by simp⟩
  rename_i pre r post hfind
  obtain ⟨rfl, hlow, hhigh⟩ := findVmRegion_spec hfind
  have hfound : ∃ x ∈ pre ++ r :: post, x.va < endVa ∧ endVa ≤ x.endVa :=
    ⟨r, by simp, by omega, by omega⟩
  have hpre : Uncut endVa pre := fun x hx =>
    .inl ((hsorted.endVa_le x hx).trans (by omega))
  refine Triple.ite (fun hne => ?_) fun heq => Triple.pure fun _ hs => ⟨hs, ?_⟩
  · refine Triple.bind (splitVmRegion_spec env r endVa) fun p => Triple.pure fun s hs => ?_
    obtain ⟨rfl, hs⟩ := hs
    refine ⟨hs, fun l' hl' => ?_⟩
    obtain rfl := Option.some.inj hl'
    exact ⟨(cutAt_append_cons hpre (by omega) (by omega)).symm, hfound,
      (r.cut endVa).1, by simp, Region.cut_fst_endVa (by omega)⟩
  · intro l' hl'
    obtain rfl := Option.some.inj hl'
    have hend : endVa = r.endVa := not_not.mp heq
    refine ⟨(cutAt_of_uncut ?_).symm, hfound, r, by simp, hend.symm⟩
    refine List.forall_mem_append.mpr ⟨hpre, List.forall_mem_cons.mpr ⟨.inl hend.ge, ?_⟩⟩
    intro x hx
    exact .inr (hend.le.trans ((sorted_cons.mp (sorted_append.mp hsorted).2.1).1 x hx))

/-- The list is cut at an address, and its regions are parts of the ones before. -/
structure SplitAt (rs : List Region) (va : ℕ) (p : List Region × List Region) : Prop where
  cutOf : CutOf rs (p.1 ++ p.2)
  before : ∀ r ∈ p.1, r.endVa ≤ va
  behind : ∀ r ∈ p.2, va ≤ r.va

/-- An ordered list in two parts, the second of which begins at the address. -/
lemma SplitAt.of_head {post : List Region} (hva : r.va = va) (h : CutOf rs (pre ++ r :: post)) :
    SplitAt rs va (pre, r :: post) := by
  refine ⟨h, fun x hx => hva ▸ h.sorted.endVa_le x hx, ?_⟩
  exact (sorted_append.mp h.sorted).2.1.le_va hva.ge

lemma SplitAt.of_cutAt {p p' : List Region × List Region} (h : SplitAt rs va p)
    (heq : p'.1 ++ p'.2 = cutAt endVa (p.1 ++ p.2)) (hbefore : ∀ r ∈ p'.1, r.endVa ≤ va)
    (hbehind : ∀ r ∈ p'.2, va ≤ r.va) : SplitAt rs va p' :=
  ⟨h.cutOf.trans (heq ▸ cutOf_cutAt h.cutOf.sorted), hbefore, hbehind⟩

lemma splitFirst_spec (hsorted : Sorted rs) (env : VmEnv) (va len : ℕ)
    (cmpRegs : Region → Region → Region → Bool) :
    Triple (fun s : Vm => s.regions = rs) (splitFirst env va len cmpRegs)
      (fun p s => s.regions = p.1 ++ p.2 ∧ p.1 ++ p.2 = cutAt va rs ∧ SplitAt rs va p)
      (fun s => s.regions = rs) := by
  refine Triple.bind (Q := fun s (t : Vm) => s.regions = rs ∧ t.regions = rs)
    (Triple.get fun _ hs => ⟨hs, hs⟩) fun s => ?_
  split
  · exact Triple.throw fun _ hs => hs.2
  rename_i pre r post hfind
  rintro t ⟨hs, ht⟩
  rw [hs] at hfind
  have hcut := cutAt_of_findVmRegion hsorted hfind
  obtain ⟨rfl, hlow, hhigh⟩ := findVmRegion_spec hfind
  refine (Triple.bind (Keeps.failIf _) fun _ => Triple.ite (fun hne => ?_) fun heq => ?_ :
    Triple (fun s : Vm => s.regions = pre ++ r :: post) _ _ _) t ht
  · rw [if_pos hne] at hcut
    refine Triple.bind (splitVmRegion_spec env r va) fun p => ?_
    refine Triple.bind
      (Q := fun _ (s : Vm) => p = r.cut va ∧ s.regions = pre ++ p.1 :: p.2 :: post)
      (Triple.modify fun u hu => ⟨hu.1, rfl⟩) fun _ => Triple.pure fun u hu => ?_
    obtain ⟨rfl, hu⟩ := hu
    refine ⟨by simp [hu], by simp [hcut], .of_head rfl ?_⟩
    simpa using cutOf_cut hsorted (by omega : r.va < va) hhigh
  · rw [if_neg heq] at hcut
    exact Triple.pure fun u hu => ⟨hu, hcut.symm, .of_head (not_not.mp heq).symm (.refl hsorted)⟩

/-- The list is cut at both ends of a range. -/
structure SplitRange (rs : List Region) (va endVa : ℕ) (p : List Region × List Region) : Prop
    extends SplitAt rs va p where
  eq_cut : p.1 ++ p.2 = cutAt endVa (cutAt va rs)
  ends : va < endVa → ∃ r ∈ p.2, r.endVa = endVa

/-- The list if splitting a range has failed: it is as before, or cut at the first address. -/
def PartlyCut (rs : List Region) (va : ℕ) (rs' : List Region) : Prop :=
  rs' = rs ∨ PageAligned va ∧ rs' = cutAt va rs

lemma PartlyCut.cutOf (h : PartlyCut rs va rs') (hsorted : Sorted rs) : CutOf rs rs' := by
  rcases h with rfl | ⟨-, rfl⟩
  · exact .refl hsorted
  · exact cutOf_cutAt hsorted

lemma SplitRange.of_before {pre' : List Region} (hle : va ≤ endVa)
    (hsplit : SplitAt rs va (pre, rest)) (hcut : pre ++ rest = cutAt va rs)
    (h : CutsEnd endVa pre pre') : SplitRange rs va endVa (pre', rest) := by
  obtain ⟨r, hr, hva, hend⟩ := h.found
  have hend' := hsplit.before r hr
  obtain rfl : va = endVa := le_antisymm hle (hend.trans hend')
  have hpre : pre' = pre := by
    rw [h.eq_cut]
    exact cutAt_of_uncut fun x hx => .inl (hsplit.before x hx)
  subst hpre
  refine ⟨hsplit, ?_, fun hlt => absurd hlt (lt_irrefl _)⟩
  rw [← hcut]
  exact (cutAt_of_uncut (List.forall_mem_append.mpr
    ⟨fun x hx => .inl (hsplit.before x hx), fun x hx => .inr (hsplit.behind x hx)⟩)).symm

lemma SplitRange.of_behind {rest' : List Region} (hle : va ≤ endVa)
    (hsplit : SplitAt rs va (pre, rest)) (hcut : pre ++ rest = cutAt va rs)
    (h : CutsEnd endVa rest rest') : SplitRange rs va endVa (pre, rest') := by
  have heq : pre ++ rest' = cutAt endVa (pre ++ rest) := by
    rw [h.eq_cut]
    exact (cutAt_append_of_uncut fun x hx => .inl ((hsplit.before x hx).trans hle)).symm
  refine ⟨hsplit.of_cutAt heq hsplit.before fun x hx => ?_, heq.trans (hcut ▸ rfl),
    fun _ => h.ends⟩
  obtain ⟨r, hr, hpart⟩ := (cutOf_cutAt (sorted_append.mp hsplit.cutOf.sorted).2.1).part x
    (h.eq_cut ▸ hx)
  exact (hsplit.behind r hr).trans hpart.low

lemma splitVmRange_spec (hsorted : Sorted rs) (env : VmEnv) (hend : 0 < va + len)
    (cmpRegs : Region → Region → Region → Bool) :
    Triple (fun s : Vm => s.regions = rs) (splitVmRange env va len cmpRegs)
      (fun p s => s.regions = p.1 ++ p.2 ∧ SplitRange rs va (va + len) p ∧ PageAligned va
        ∧ PageAligned len)
      (fun s => PartlyCut rs va s.regions) := by
  have hsame : ∀ s : Vm, s.regions = rs → PartlyCut rs va s.regions := fun _ => .inl
  refine Triple.failIf_bind hsame fun haligned => Triple.failIf_bind hsame fun _ => ?_
  have haligned := not_not.mp haligned
  refine Triple.bind ((splitFirst_spec hsorted env va len cmpRegs).weaken hsame) ?_
  rintro ⟨pre, rest⟩ t ⟨ht, hcut, hsplit⟩
  have hpartly : ∀ s : Vm, s.regions = pre ++ rest → PartlyCut rs va s.regions :=
    fun s hs => .inr ⟨haligned.1, hs.trans hcut⟩
  obtain ⟨hpre, hrest, -⟩ := sorted_append.mp hsplit.cutOf.sorted
  refine (Triple.bind ((splitLast_spec (pre ++ rest) env hend hpre).weaken hpartly)
    fun o => ?_ : Triple (fun s : Vm => s.regions = pre ++ rest) _ _ _) t ht
  cases o with
  | some pre' =>
    rintro u ⟨-, hends⟩
    have hdone := SplitRange.of_before (Nat.le_add_right va len) hsplit hcut (hends pre' rfl)
    exact (Triple.bind (Q := fun _ (s : Vm) => s.regions = pre' ++ rest)
      (Triple.modify fun _ _ => rfl) fun _ => Triple.pure fun v hv => ⟨hv, hdone, haligned⟩ :
      Triple (fun _ : Vm => True) _ _ _) u trivial
  | none =>
    refine Triple.bind ((splitLast_spec (pre ++ rest) env hend hrest).conseq
      (fun _ hs => hs.1) (fun _ _ => id) hpartly) fun o => ?_
    cases o with
    | some rest' =>
      rintro u ⟨-, hends⟩
      have hdone := SplitRange.of_behind (Nat.le_add_right va len) hsplit hcut (hends rest' rfl)
      exact (Triple.bind (Q := fun _ (s : Vm) => s.regions = pre ++ rest')
        (Triple.modify fun _ _ => rfl) fun _ => Triple.pure fun v hv => ⟨hv, hdone, haligned⟩ :
        Triple (fun _ : Vm => True) _ _ _) u trivial
    | none => exact Triple.throw fun s hs => hpartly s hs.1

/-! ## Protecting and unmapping -/

/-- No file is mapped between two addresses. -/
def NoFileIn (va endVa : ℕ) (rs : List Region) : Prop :=
  ∀ r ∈ rs, r.ReadOnly → r.endVa ≤ va ∨ endVa ≤ r.va

/-- The list after the first loop of `vm_set_prot`.  Files are made writable only if the range
has some; those that were writable inside the range no longer are, unless that is asked for. -/
lemma FilesReadOnlyBut.protect {prot : BitVec 16} (h : FilesReadOnlyBut lo hi rs)
    (hsplit : SplitAt rs va (pre, rest)) (hlo : va ≤ lo) (hhi : hi ≤ endVa)
    (hprot : prot &&& writeMask ≠ 0 → NoFileIn va endVa rs) :
    FilesReadOnly (pre ++ protectUpTo endVa prot rest) := by
  have hcut := h.cutOf hsplit.cutOf
  have hrest := (sorted_append.mp hsplit.cutOf.sorted).2.1
  refine ⟨sorted_congr ?_ hsplit.cutOf.sorted, fun x hx hro => ?_⟩
  · rw [List.map_append, List.map_append, map_protectUpTo]
  rcases List.mem_append.mp hx with hx | hx
  · -- before the range nothing is writable
    have hmem : x ∈ pre ++ rest := by simp [hx]
    have hpos := hcut.pos x hmem hro
    refine ⟨hpos, fun hw => ?_⟩
    obtain ⟨hxlo, -⟩ := hcut.within x hmem hro hw
    have hend := hsplit.before x hx
    simp only [Region.endVa] at hend
    omega
  rcases mem_protectUpTo hrest hx with ⟨r, hr, hend, rfl⟩ | ⟨hx, hout⟩
  · have hmem : r ∈ pre ++ rest := by simp [hr]
    have hpos := hcut.pos r hmem hro
    refine ⟨hpos, fun hw => ?_⟩
    obtain ⟨r₀, hr0, hpart⟩ := hsplit.cutOf.part r hmem
    have hva : va ≤ r.va := hsplit.behind r hr
    have hhigh := hpart.high
    have hlow := hpart.low
    rcases hprot (Region.writeable_protect.mp hw) r₀ hr0 (hpart.readOnly.mp hro) with hr0 | hr0 <;>
    · simp only [Region.endVa] at *
      omega
  · have hmem : x ∈ pre ++ rest := by simp [hx]
    have hpos := hcut.pos x hmem hro
    refine ⟨hpos, fun hw => ?_⟩
    obtain ⟨-, hxhi⟩ := hcut.within x hmem hro hw
    have := x.va_le_endVa
    omega

lemma keeps_syncPager {I : List Region → Prop} (env : VmEnv) (endVa : ℕ) (rs : List Region) :
    Keeps (fun s : Vm => I s.regions) (syncPager env endVa rs) := by
  induction rs with
  | nil => exact Keeps.pure _
  | cons r rs ih =>
    rw [syncPager]
    exact Keeps.ite (Keeps.pure _) (Keeps.bind (keeps_attemptOrPanicIf env _) fun _ => ih)

lemma of_regions_eq {I : List Region → Prop} (h : I rs) :
    ∀ s : Vm, s.regions = rs → I s.regions := by
  rintro s rfl
  exact h

lemma vmSetProt_spec (h : FilesReadOnlyBut lo hi rs) (hlo : va ≤ lo) (hhi : hi ≤ va + len)
    (hprot : prot.setWidth 16 &&& writeMask ≠ 0 → NoFileIn va (va + len) rs) (env : VmEnv) :
    Triple (fun s : Vm => s.regions = rs) (vmSetProt env va len prot)
      (fun _ s => FilesReadOnly s.regions) (fun s => FilesReadOnlyBut lo hi s.regions) := by
  have hsame := of_regions_eq h
  refine Triple.failIf_bind hsame fun hlen => ?_
  have hlen : len ≠ 0 := fun h => hlen (.inr h)
  refine Triple.bind ((splitVmRange_spec h.sorted env (by omega) cmpNone).weaken
    fun s hs => h.cutOf (hs.cutOf h.sorted)) ?_
  rintro ⟨pre, rest⟩ t ⟨-, hsplit, -⟩
  have hdone := h.protect hsplit.toSplitAt hlo hhi hprot
  refine (Triple.bind (Q := fun _ (s : Vm) => FilesReadOnly s.regions)
    (Triple.modify fun _ _ => hdone) fun _ => ?_ : Triple (fun _ : Vm => True) _ _ _) t trivial
  refine Triple.bind ((keeps_syncPager (I := FilesReadOnly) env _ _).weaken
    fun s hs => hs.but lo hi) fun _ => ?_
  exact Triple.modify fun s _ => hdone.mergeOf (mergeOf_mergeVmRange hdone.sorted)

lemma vmUnmap_spec (h : FilesReadOnlyBut lo hi rs) (hlo : va ≤ lo)
    (hhi : hi ≤ va + roundupOverflow 64 len smallPageSize 0) (env : VmEnv) :
    Triple (fun s : Vm => s.regions = rs) (vmUnmap env va len)
      (fun _ s => FilesReadOnly s.regions) (fun s => FilesReadOnlyBut lo hi s.regions) := by
  have hsame := of_regions_eq h
  rw [vmUnmap]
  generalize roundupOverflow 64 len smallPageSize 0 = l at hhi ⊢
  refine Triple.failIf_bind hsame fun hl => Triple.failIf_bind hsame fun _ => ?_
  have hl : l ≠ 0 := fun h => hl (.inl h)
  refine Triple.bind ((splitVmRange_spec h.sorted env (by omega) cmpNone).weaken
    fun s hs => h.cutOf (hs.cutOf h.sorted)) ?_
  rintro ⟨pre, rest⟩ t ⟨-, hsplit, -⟩
  refine Triple.modify (P := fun _ => True) (fun s _ => ?_) t trivial
  have hcut := h.cutOf hsplit.cutOf
  have hrest := (sorted_append.mp hsplit.cutOf.sorted).2.1
  have hsub : List.Sublist (pre ++ unmapUpTo (va + l) rest) (pre ++ rest) :=
    (unmapUpTo_sublist (va + l) rest).append_left pre
  refine ⟨hcut.sorted.sublist hsub, fun x hx hro => ?_⟩
  have hpos := hcut.pos x (hsub.subset hx) hro
  refine ⟨hpos, fun hw => ?_⟩
  obtain ⟨hxlo, hxhi⟩ := hcut.within x (hsub.subset hx) hro hw
  rcases List.mem_append.mp hx with hx | hx
  · have hend := hsplit.before x hx
    simp only [Region.endVa] at hend
    omega
  · have hva := le_va_of_mem_unmapUpTo hrest x hx
    simp only [Region.endVa] at hxhi
    omega

/-! ## Moving -/

/-- What an invariant of the regions needs for moving them: regions can be cut and taken out, and
a region that has been taken out can be put in at another place. -/
structure Movable (env : VmEnv) (I : List Region → Prop) (P : Region → Prop) : Prop where
  sorted : ∀ {rs}, I rs → Sorted rs
  forall_mem : ∀ {rs}, I rs → ∀ r ∈ rs, P r
  cutAt : ∀ {rs va}, I rs → PageAligned va → I (cutAt va rs)
  sublist : ∀ {rs rs'}, I rs → List.Sublist rs' rs → I rs'
  moved : ∀ {r va}, P r → P { r with va := va }
  add : ∀ {reg padBegin padEnd align va rs rs'}, I rs → P reg →
    umapAddRegion env reg padBegin padEnd align rs = .ok (va, rs') → I rs'

section Moving

variable {env : VmEnv} {I : List Region → Prop} {P : Region → Prop}

section

variable (h : Movable env I P)

include h

lemma Movable.partlyCut (hrs : I rs) (hcut : PartlyCut rs va rs') :
    I rs' := by
  rcases hcut with rfl | ⟨hva, rfl⟩
  · exact hrs
  · exact h.cutAt hrs hva

lemma Movable.splitRange {p : List Region × List Region} (hrs : I rs)
    (hsplit : SplitRange rs va (va + len) p) (hva : PageAligned va) (hlen : PageAligned len) :
    I (p.1 ++ p.2) := by
  rw [hsplit.eq_cut]
  refine h.cutAt (h.cutAt hrs hva) ?_
  simp only [PageAligned, smallPageSize] at hva hlen ⊢
  omega

lemma keeps_restoreMap (paged : Bool) {regs : List Region} (hregs : ∀ r ∈ regs, P r) (nextVa : ℕ) :
    Keeps (fun s : Vm => I s.regions) (restoreMap env paged nextVa regs) := by
  induction regs generalizing nextVa with
  | nil => exact Keeps.pure _
  | cons r regs ih =>
    rw [restoreMap]
    refine Keeps.get_bind fun s hs => ?_
    split
    · exact Keeps.throw _
    rename_i rs hadd
    have hrs : I rs := h.add hs (h.moved (hregs r (by simp))) hadd
    refine Keeps.bind (Keeps.modify fun _ _ => hrs) fun _ => ?_
    refine Keeps.bind (keeps_attemptOrPanic env) fun _ => ?_
    refine Keeps.bind (keeps_attemptOrPanicIf env _) fun _ => ?_
    exact ih (fun x hx => hregs x (by simp [hx])) _

lemma keeps_remapRegions (paged : Bool) (newVa oldVa len padBegin padEnd : ℕ)
    {added regs : List Region} (hadded : ∀ r ∈ added, P r) (hregs : ∀ r ∈ regs, P r) :
    Keeps (fun s : Vm => I s.regions)
      (remapRegions env paged newVa oldVa len padBegin padEnd added regs) := by
  induction regs generalizing added with
  | nil => exact Keeps.pure _
  | cons r regs ih =>
    have hr : P r := hregs r (by simp)
    have htail : ∀ x ∈ regs, P x := fun x hx => hregs x (by simp [hx])
    rw [remapRegions]
    refine Keeps.get_bind fun s hs => ?_
    dsimp only
    split
    · -- no place for the region: all but the last one go back
      refine Keeps.bind (Keeps.modify fun _ _ => h.sublist hs (List.diff_sublist _ _)) fun _ => ?_
      refine Keeps.bind (keeps_restoreMap h paged ?_ _) fun _ => Keeps.throw _
      exact List.forall_mem_append.mpr
        ⟨fun x hx => hadded x (List.dropLast_subset _ hx), hregs⟩
    rename_i va rs hadd
    have hrs : I rs := by
      split at hadd
      · exact h.add hs (h.moved hr) hadd
      · exact h.add hs (h.moved hr) hadd
    refine Keeps.bind (Keeps.modify fun _ _ => hrs) fun _ => ?_
    refine Keeps.bind (keeps_draw env) fun allocPgt => ?_
    refine Keeps.bind (keeps_drawIf env _) fun pager => ?_
    split
    · refine Keeps.bind (Keeps.modify fun _ _ => h.sublist hrs (List.diff_sublist _ _)) fun _ => ?_
      refine Keeps.bind (keeps_restoreMap h paged ?_ _) fun _ => Keeps.throw _
      exact List.forall_mem_append.mpr ⟨hadded, htail⟩
    · refine ih (List.forall_mem_append.mpr ⟨hadded, ?_⟩) htail
      intro x hx
      rw [List.mem_singleton.mp hx]
      exact h.moved hr

/-- Code behind the split of a range keeps an invariant if it does so for regions that have it. -/
lemma Movable.keeps_split {α : Type} {cmpRegs : Region → Region → Region → Bool}
    {f : List Region × List Region → VmProg α} (hlen : len ≠ 0)
    (hf : ∀ pre rest, I (pre ++ rest) → Triple (fun _ : Vm => True) (f (pre, rest))
      (fun _ s => I s.regions) (fun s => I s.regions)) :
    Keeps (fun s : Vm => I s.regions) (splitVmRange env va len cmpRegs >>= f) := by
  intro s hs
  refine (Triple.bind ((splitVmRange_spec (h.sorted hs) env (by omega) cmpRegs).weaken
    fun t ht => h.partlyCut hs ht) ?_ :
    Triple (fun t : Vm => t.regions = s.regions) _ _ _) s rfl
  rintro ⟨pre, rest⟩ t ⟨-, hsplit, hva, hlen⟩
  exact hf pre rest (h.splitRange hs hsplit hva hlen) t trivial

lemma keeps_vmRemap (newVa oldVa len padBegin padEnd : ℕ) :
    Keeps (fun s : Vm => I s.regions) (vmRemap env newVa oldVa len padBegin padEnd) := by
  rw [vmRemap]
  refine Keeps.failIf_bind fun hlen => h.keeps_split (fun h => hlen (.inl h)) fun pre rest hcut => ?_
  have hregs : ∀ r ∈ rest.takeWhile fun r => r.endVa ≤ oldVa + len, P r := by
    intro r hr
    exact h.forall_mem hcut r (List.mem_append_right _ ((List.takeWhile_sublist _).subset hr))
  refine Triple.bind (Q := fun _ (s : Vm) => I s.regions) (Triple.modify fun _ _ => ?_) fun _ => ?_
  · exact h.sublist hcut ((List.dropWhile_sublist _).append_left pre)
  · exact Keeps.bind (keeps_remapRegions h _ _ _ _ _ _ (by simp) hregs) fun _ => Keeps.pure _

lemma Movable.keeps_vmSetProt
    (hprotect : ∀ {pre rest endVa prot}, I (pre ++ rest) → I (pre ++ protectUpTo endVa prot rest))
    (hmerge : ∀ {rs} va endVa, I rs → I (mergeVmRange va endVa rs)) (va len : ℕ) (prot : BitVec 32) :
    Keeps (fun s : Vm => I s.regions) (vmSetProt env va len prot) := by
  refine Keeps.failIf_bind fun hlen => h.keeps_split (fun h => hlen (.inr h)) fun pre rest hcut => ?_
  have hdone : I (pre ++ protectUpTo (va + len) (prot.setWidth 16) rest) := hprotect hcut
  refine Triple.bind (Q := fun _ (s : Vm) => I s.regions)
    (Triple.modify fun _ _ => hdone) fun _ => ?_
  exact Keeps.bind (keeps_syncPager _ _ _) fun _ => Keeps.modify fun _ _ => hmerge _ _ hdone

lemma Movable.keeps_vmUnmap (va len : ℕ) :
    Keeps (fun s : Vm => I s.regions) (vmUnmap env va len) := by
  rw [vmUnmap]
  generalize roundupOverflow 64 len smallPageSize 0 = l
  refine Keeps.failIf_bind fun hl => Keeps.failIf_bind fun _ =>
    h.keeps_split (fun h => hl (.inl h)) fun pre rest hcut => Triple.modify fun _ _ => ?_
  exact h.sublist hcut ((unmapUpTo_sublist (va + l) rest).append_left pre)

end

end Moving

/-- A region put at another place is as harmless as before. -/
lemma FilesReadOnly.movable (env : VmEnv) : Movable env FilesReadOnly Region.Harmless where
  sorted h := h.sorted
  forall_mem h := h.harmless
  cutAt h _ := h.cutOf (cutOf_cutAt h.sorted)
  sublist h hsub := h.sublist hsub
  moved h := h
  add h hreg hadd := by
    obtain ⟨hsorted, hmem⟩ := umapAddRegion_spec hadd h.sorted
    refine ⟨hsorted, fun x hx => ?_⟩
    rcases (hmem x).mp hx with rfl | hx
    · exact hreg
    · exact h.harmless x hx

end Watz.OpTee
