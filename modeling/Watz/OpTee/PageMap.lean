import Watz.OpTee.WellFormed

/-!
# The map of pages

What an address space is for is a map from addresses to bytes of memory objects, with protections
and flags; how it is cut into regions is of no importance.  Splitting and merging do not change
this map, and changing protections and unmapping change it on the range they are given, and
nowhere else, or not at all if they fail.
-/

namespace Watz.OpTee

open Lib

/-! ## The map -/

/-- What is mapped at an address: an object, a place in it, attributes and flags. -/
structure Page where
  mobj : ℕ
  offset : ℕ
  attr : BitVec 16
  flags : BitVec 16
deriving DecidableEq

/-- The address lies in the region. -/
def Region.Contains (r : Region) (a : ℕ) : Prop := r.va ≤ a ∧ a < r.endVa

instance (r : Region) (a : ℕ) : Decidable (r.Contains a) := inferInstanceAs (Decidable (_ ∧ _))

/-- What a region maps at one of its addresses. -/
def Region.page (r : Region) (a : ℕ) : Page where
  mobj := r.mobj.id
  offset := r.offset + (a - r.va)
  attr := r.attr
  flags := r.flags

/-- The map a list of regions stands for. -/
def pageMap (rs : List Region) (a : ℕ) : Option Page :=
  (rs.find? fun r => r.Contains a).map fun r => r.page a

section

variable {rs pre post rest : List Region} {r : Region} {va endVa a : ℕ}

lemma pageMap_cons : pageMap (r :: rs) a = if r.Contains a then some (r.page a) else pageMap rs a := by
  rw [pageMap, List.find?_cons]
  split
  · rename_i h
    rw [if_pos (of_decide_eq_true h)]
    rfl
  · rename_i h
    rw [if_neg (of_decide_eq_false h)]
    rfl

lemma pageMap_append : pageMap (pre ++ post) a = (pageMap pre a).or (pageMap post a) := by
  rw [pageMap, pageMap, pageMap, List.find?_append, Option.map_or]

lemma pageMap_eq_none_iff : pageMap rs a = none ↔ ∀ r ∈ rs, ¬ r.Contains a := by
  rw [pageMap, Option.map_eq_none_iff, List.find?_eq_none]
  simp

lemma Sorted.eq_of_contains {rs : List Region} (h : Sorted rs) {r r' : Region} (hr : r ∈ rs)
    (hr' : r' ∈ rs) {a : ℕ} (ha : r.Contains a) (ha' : r'.Contains a) : r = r' := by
  by_contra hne
  have hapart : rs.Pairwise fun x y => x.endVa ≤ y.va ∨ y.endVa ≤ x.va :=
    List.Pairwise.imp Or.inl h
  have : Std.Symm fun x y : Region => x.endVa ≤ y.va ∨ y.endVa ≤ x.va := ⟨fun _ _ => Or.symm⟩
  have hne' := hapart.forall hr hr' hne
  simp only [Region.Contains] at ha ha'
  omega

lemma Sorted.pageMap_eq_some_iff (h : Sorted rs) {p : Page} :
    pageMap rs a = some p ↔ ∃ r ∈ rs, r.Contains a ∧ r.page a = p := by
  rw [pageMap, Option.map_eq_some_iff]
  constructor
  · rintro ⟨r, hfind, rfl⟩
    have hcontains := List.find?_some hfind
    exact ⟨r, List.mem_of_find?_eq_some hfind, of_decide_eq_true hcontains, rfl⟩
  · rintro ⟨r, hr, hcontains, rfl⟩
    cases hfind : rs.find? fun r => r.Contains a with
    | none => exact absurd (decide_eq_true hcontains) (List.find?_eq_none.mp hfind r hr)
    | some r' =>
      have hcontains' := List.find?_some hfind
      refine ⟨r', rfl, ?_⟩
      rw [h.eq_of_contains hr (List.mem_of_find?_eq_some hfind) hcontains
        (of_decide_eq_true hcontains')]

/-- Lists that agree at the front and stand for the same map behind it stand for the same map. -/
lemma pageMap_cons_congr {rs' : List Region} (h : pageMap rs = pageMap rs') :
    pageMap (r :: rs) = pageMap (r :: rs') := by
  funext a
  rw [pageMap_cons, pageMap_cons, h]

/-! ## Splitting and merging -/

lemma contains_cut_fst (hlow : r.va < va) (hhigh : va < r.endVa) :
    (r.cut va).1.Contains a ↔ r.Contains a ∧ a < va := by
  simp only [Region.Contains, Region.endVa, Region.cut] at *
  omega

lemma contains_cut_snd (hlow : r.va < va) (hhigh : va < r.endVa) :
    (r.cut va).2.Contains a ↔ r.Contains a ∧ va ≤ a := by
  simp only [Region.Contains, Region.endVa, Region.cut] at *
  omega

lemma page_cut_snd (hlow : r.va < va) (ha : va ≤ a) : (r.cut va).2.page a = r.page a := by
  have hoffset : r.offset + (va - r.va) + (a - va) = r.offset + (a - r.va) := by omega
  simp only [Region.page, Region.cut, hoffset]

lemma pageMap_cut (hlow : r.va < va) (hhigh : va < r.endVa) :
    pageMap ((r.cut va).1 :: (r.cut va).2 :: rs) = pageMap (r :: rs) := by
  funext a
  have hfst := contains_cut_fst (a := a) hlow hhigh
  have hsnd := contains_cut_snd (a := a) hlow hhigh
  rw [pageMap_cons, pageMap_cons, pageMap_cons]
  by_cases hr : r.Contains a
  · rcases lt_or_ge a va with ha | ha
    · rw [if_pos (hfst.mpr ⟨hr, ha⟩), if_pos hr]
      rfl
    · rw [if_neg fun h => ha.not_gt (hfst.mp h).2, if_pos (hsnd.mpr ⟨hr, ha⟩), if_pos hr,
        page_cut_snd hlow ha]
  · rw [if_neg fun h => hr (hfst.mp h).1, if_neg fun h => hr (hsnd.mp h).1, if_neg hr]

lemma pageMap_cutAt (va : ℕ) (rs : List Region) : pageMap (cutAt va rs) = pageMap rs := by
  induction rs with
  | nil => rfl
  | cons r rs ih =>
    rw [cutAt]
    split
    · rename_i h
      exact pageMap_cut h.1 h.2
    · exact pageMap_cons_congr ih

lemma pageMap_join {rn : Region} (hend : r.endVa = rn.va) (hid : r.mobj.id = rn.mobj.id)
    (hflags : r.flags = rn.flags) (hattr : r.attr = rn.attr)
    (hoffset : r.offset + r.size = rn.offset) :
    pageMap ({ r with size := r.size + rn.size } :: rs) = pageMap (r :: rn :: rs) := by
  funext a
  have hjoined : { r with size := r.size + rn.size }.Contains a
      ↔ r.Contains a ∨ rn.Contains a := by
    simp only [Region.Contains, Region.endVa] at *
    omega
  rw [pageMap_cons, pageMap_cons, pageMap_cons]
  by_cases hr : r.Contains a
  · rw [if_pos (hjoined.mpr (.inl hr)), if_pos hr]
    rfl
  · rw [if_neg hr]
    by_cases hrn : rn.Contains a
    · rw [if_pos (hjoined.mpr (.inr hrn)), if_pos hrn]
      have hplace : r.offset + (a - r.va) = rn.offset + (a - rn.va) := by
        simp only [Region.Contains, Region.endVa] at *
        omega
      simp only [Region.page, hid, hflags, hattr, hplace]
    · rw [if_neg fun h => (hjoined.mp h).elim hr hrn, if_neg hrn]

lemma pageMap_mergeFrom (va endVa : ℕ) (r : Region) (rs : List Region) :
    pageMap (mergeFrom va endVa r rs) = pageMap (r :: rs) := by
  induction rs generalizing r with
  | nil => rfl
  | cons rn rs ih =>
    have htail : pageMap (r :: mergeFrom va endVa rn rs) = pageMap (r :: rn :: rs) :=
      pageMap_cons_congr (ih rn)
    rw [mergeFrom]
    split
    · exact htail
    split
    · rfl
    split
    · exact htail
    split
    · exact htail
    split
    · exact htail
    rename_i hend hsame hoffset
    simp only [ne_eq, not_or, not_not] at hend hsame hoffset
    exact (ih _).trans (pageMap_join hend hsame.1 hsame.2.1 hsame.2.2 hoffset)

lemma pageMap_mergeVmRange (va endVa : ℕ) (rs : List Region) :
    pageMap (mergeVmRange va endVa rs) = pageMap rs := by
  cases rs with
  | nil => rfl
  | cons r rs => exact pageMap_mergeFrom va endVa r rs

/-! ## Changing a range -/

/-- The protections of a page replaced. -/
def Page.protect (prot : BitVec 16) (p : Page) : Page :=
  { p with attr := (p.attr &&& ~~~ teeMattrProtMask) ||| prot }

lemma pageMap_protectUpTo {prot : BitVec 16} (hsorted : Sorted rs) (huncut : Uncut endVa rs)
    (a : ℕ) :
    pageMap (protectUpTo endVa prot rs) a
      = if a < endVa then (pageMap rs a).map (Page.protect prot) else pageMap rs a := by
  induction rs with
  | nil => split <;> rfl
  | cons r rs ih =>
    obtain ⟨hr, hrs⟩ := sorted_cons.mp hsorted
    obtain ⟨hcut, hcuts⟩ := List.forall_mem_cons.mp huncut
    rw [protectUpTo]
    split
    · -- the first region behind the range
      rename_i hend
      split
      · rename_i ha
        have hnone : pageMap (r :: rs) a = none := pageMap_eq_none_iff.mpr fun x hx hcontains => by
          have := hsorted.le_va le_rfl x hx
          simp only [Region.Contains] at hcontains
          omega
        rw [hnone]
        rfl
      · rfl
    · rename_i hend
      rw [pageMap_cons, pageMap_cons, ih hrs hcuts]
      by_cases ha : r.Contains a
      · have hlt : a < endVa := by
          simp only [Region.Contains] at ha
          omega
        rw [if_pos (show (r.protect prot).Contains a from ha), if_pos ha, if_pos hlt]
        rfl
      · rw [if_neg (show ¬ (r.protect prot).Contains a from ha), if_neg ha]

/-- In a list with a region that ends with the range, the pages before that end are removed. -/
lemma pageMap_unmapUpTo (hsorted : Sorted rs) (hends : ∃ r ∈ rs, r.endVa = endVa) (a : ℕ) :
    pageMap (unmapUpTo endVa rs) a = if a < endVa then none else pageMap rs a := by
  induction rs with
  | nil => simp at hends
  | cons r rs ih =>
    obtain ⟨hr, hrs⟩ := sorted_cons.mp hsorted
    have hle : r.endVa ≤ endVa := by
      obtain ⟨x, hx, rfl⟩ := hends
      rcases List.mem_cons.mp hx with rfl | hx
      · exact le_rfl
      · exact (hr x hx).trans x.va_le_endVa
    have hbehind : ¬ a < endVa → pageMap (r :: rs) a = pageMap rs a := by
      intro ha
      rw [pageMap_cons, if_neg]
      simp only [Region.Contains]
      omega
    by_cases hstop : r.endVa = endVa
    · rw [unmapUpTo, if_pos (.inr hstop)]
      split
      · rename_i ha
        refine pageMap_eq_none_iff.mpr fun x hx hcontains => ?_
        have := hr x hx
        simp only [Region.Contains] at hcontains
        omega
      · rename_i ha
        exact (hbehind ha).symm
    · obtain ⟨x, hx, hxend⟩ := hends
      have hx : x ∈ rs := by
        rcases List.mem_cons.mp hx with rfl | hx
        · exact absurd hxend hstop
        · exact hx
      have hne : rs.isEmpty = false := List.isEmpty_eq_false_iff.mpr (List.ne_nil_of_mem hx)
      rw [unmapUpTo, if_neg (by simp [hne, hstop]), ih hrs ⟨x, hx, hxend⟩]
      split
      · rfl
      · rename_i ha
        exact (hbehind ha).symm

lemma pageMap_parts (hpre : ∀ r ∈ pre, r.endVa ≤ va) (hrest : ∀ r ∈ rest, va ≤ r.va) :
    pageMap (pre ++ rest) a = if a < va then pageMap pre a else pageMap rest a := by
  rw [pageMap_append]
  split
  · have hnone : pageMap rest a = none := pageMap_eq_none_iff.mpr fun r hr hcontains => by
      have := hrest r hr
      simp only [Region.Contains] at hcontains
      omega
    rw [hnone, Option.or_none]
  · have hnone : pageMap pre a = none := pageMap_eq_none_iff.mpr fun r hr hcontains => by
      have := hpre r hr
      simp only [Region.Contains] at hcontains
      omega
    rw [hnone, Option.none_or]

/-- A map changed on a range of addresses. -/
def onRange (lo hi : ℕ) (f : Option Page → Option Page) (m : ℕ → Option Page) (a : ℕ) :
    Option Page :=
  if lo ≤ a ∧ a < hi then f (m a) else m a

variable {p : List Region × List Region}

lemma SplitRange.pageMap_eq (h : SplitRange rs va endVa p) :
    pageMap (p.1 ++ p.2) = pageMap rs := by
  rw [h.eq_cut, pageMap_cutAt, pageMap_cutAt]

lemma pageMap_onRange {rs rest' : List Region} {f : Option Page → Option Page}
    (hsplit : SplitRange rs va endVa p) (hbehind : ∀ r ∈ rest', va ≤ r.va)
    (hrest' : ∀ a, pageMap rest' a = if a < endVa then f (pageMap p.2 a) else pageMap p.2 a) :
    pageMap (p.1 ++ rest') = onRange va endVa f (pageMap rs) := by
  have hmap : pageMap rs = pageMap (p.1 ++ p.2) := hsplit.pageMap_eq.symm
  funext a
  rw [onRange, hmap, pageMap_parts hsplit.before hbehind, pageMap_parts hsplit.before hsplit.behind,
    hrest']
  rcases lt_or_ge a va with ha | ha
  · rw [if_pos ha, if_pos ha, if_neg (by omega)]
  · rw [if_neg ha.not_gt, if_neg ha.not_gt]
    by_cases hend : a < endVa
    · rw [if_pos hend, if_pos ⟨ha, hend⟩]
    · rw [if_neg hend, if_neg fun h => hend h.2]

lemma SplitRange.uncut (h : SplitRange rs va endVa p) (hsorted : Sorted rs) : Uncut endVa p.2 := by
  have hall : Uncut endVa (cutAt endVa (cutAt va rs)) := uncut_cutAt (cutOf_cutAt hsorted).sorted
  rw [← h.eq_cut] at hall
  exact (List.forall_mem_append.mp hall).2

lemma pageMap_partlyCut {rs' : List Region} (h : PartlyCut rs va rs') :
    pageMap rs' = pageMap rs := by
  rcases h with rfl | ⟨-, rfl⟩
  · rfl
  · exact pageMap_cutAt va rs

end

/-! ## The operations -/

section

variable {range : VaRange} {rs : List Region} (env : VmEnv)

lemma findVmRegion_eq_none {va : ℕ} (h : ∀ r ∈ rs, ¬ r.Contains va) :
    findVmRegion va rs = none := by
  induction rs with
  | nil => rfl
  | cons r rs ih =>
    obtain ⟨hr, hrs⟩ := List.forall_mem_cons.mp h
    rw [findVmRegion, if_neg (show ¬ (r.va ≤ va ∧ va < r.endVa) from hr), ih hrs]
    rfl

lemma pageMap_same : ∀ s : Vm, s.regions = rs → pageMap s.regions = pageMap rs :=
  fun _ hs => hs ▸ rfl

lemma splitVmRange_pageMap (h : WellFormed range rs) (va len : ℕ)
    (cmpRegs : Region → Region → Region → Bool) :
    Triple (fun s : Vm => s.regions = rs) (splitVmRange env va len cmpRegs)
      (fun _ s => pageMap s.regions = pageMap rs) (fun s => pageMap s.regions = pageMap rs) := by
  rcases Nat.eq_zero_or_pos (va + len) with hzero | hpos
  · -- nothing is mapped at the first address
    obtain ⟨rfl, rfl⟩ : va = 0 ∧ len = 0 := by omega
    have hnone : findVmRegion 0 rs = none := findVmRegion_eq_none fun r hr hcontains => by
      have := (h.regions r hr).base_le
      have := range.base_pos
      simp only [Region.Contains] at hcontains
      omega
    refine Triple.failIf_bind pageMap_same fun _ => Triple.failIf_bind pageMap_same fun _ => ?_
    refine Triple.bind (Q := fun _ _ => False) ?_ fun _ s hs => hs.elim
    refine Triple.bind (Q := fun s (t : Vm) => s.regions = rs ∧ t.regions = rs)
      (Triple.get fun _ hs => ⟨hs, hs⟩) fun s => ?_
    rintro t ⟨hs, ht⟩
    rw [hs, hnone]
    exact Triple.throw pageMap_same t ht
  · refine (splitVmRange_spec h.disjoint env hpos cmpRegs).conseq (fun _ => id) ?_
      fun s hs => pageMap_partlyCut hs
    rintro p s ⟨hs, hsplit, -⟩
    rw [hs, hsplit.pageMap_eq]

/-- The pager's failures are fatal: the loop over the regions does not return an error. -/
lemma returns_syncPager {I : List Region → Prop} {E : Vm → Prop} (endVa : ℕ) (rs : List Region) :
    Returns (fun s : Vm => I s.regions) (syncPager env endVa rs) (fun _ s => I s.regions) E := by
  induction rs with
  | nil => exact .of_triple (Triple.pure fun _ hs => hs)
  | cons r rs ih =>
    rw [syncPager]
    split
    · exact .of_triple (Triple.pure fun _ hs => hs)
    · exact .bind (returns_attemptOrPanicIf env _) fun _ => ih

lemma vmSetProt_pageMap (h : Sorted rs) (va len : ℕ) (prot : BitVec 32) :
    Returns (fun s : Vm => s.regions = rs) (vmSetProt env va len prot)
      (fun _ s => pageMap s.regions
        = onRange va (va + len) (Option.map (Page.protect (prot.setWidth 16))) (pageMap rs))
      (fun s => pageMap s.regions = pageMap rs) := by
  refine .failIf_bind pageMap_same fun hlen => ?_
  have hlen : len ≠ 0 := fun h => hlen (.inr h)
  refine .bind (.of_triple ((splitVmRange_spec h env (by omega) cmpNone).weaken
    fun s hs => pageMap_partlyCut hs)) ?_
  rintro ⟨pre, rest⟩ t ⟨-, hsplit, -⟩
  have hrest := (sorted_append.mp hsplit.cutOf.sorted).2.1
  have huncut := hsplit.uncut h
  have hmap : pageMap (pre ++ protectUpTo (va + len) (prot.setWidth 16) rest)
      = onRange va (va + len) (Option.map (Page.protect (prot.setWidth 16))) (pageMap rs) := by
    refine pageMap_onRange hsplit (fun r hr => ?_) (pageMap_protectUpTo hrest huncut)
    rcases mem_protectUpTo hrest hr with ⟨x, hx, -, rfl⟩ | ⟨hx, -⟩
    · exact hsplit.behind x hx
    · exact hsplit.behind r hx
  refine (Returns.bind (Q := fun _ _ => True) (.of_triple (Triple.modify fun _ _ => trivial))
    fun _ => .bind (returns_syncPager env (I := fun _ => True) _ _)
      fun _ => .of_triple (Triple.modify fun s _ => ?_) :
    Returns (fun _ => True) _ _ _) t trivial
  exact (pageMap_mergeVmRange _ _ _).trans hmap

lemma vmUnmap_pageMap (h : Sorted rs) (va len : ℕ) :
    Returns (fun s : Vm => s.regions = rs) (vmUnmap env va len)
      (fun _ s => pageMap s.regions = onRange va (va + pageCeil len) (fun _ => none) (pageMap rs))
      (fun s => pageMap s.regions = pageMap rs) := by
  rw [vmUnmap]
  refine .failIf_bind pageMap_same fun hl => .failIf_bind pageMap_same fun _ => ?_
  have hl : roundupOverflow 64 len smallPageSize 0 = pageCeil len := by
    rw [roundupOverflow] at hl ⊢
    split at hl
    · exact absurd (.inl rfl) hl
    · rename_i hover
      rw [if_neg hover, pageCeil]
  rw [hl]
  refine .bind (.of_triple ((splitVmRange_spec h env (by omega) cmpNone).weaken
    fun s hs => pageMap_partlyCut hs)) ?_
  rintro ⟨pre, rest⟩ t ⟨-, hsplit, -⟩
  have hrest := (sorted_append.mp hsplit.cutOf.sorted).2.1
  have hmap : pageMap (pre ++ unmapUpTo (va + pageCeil len) rest)
      = onRange va (va + pageCeil len) (fun _ => none) (pageMap rs) := by
    refine pageMap_onRange hsplit (fun r hr => ?_)
      (pageMap_unmapUpTo hrest (hsplit.ends (by omega)))
    exact hsplit.behind r ((unmapUpTo_sublist _ _).subset hr)
  exact (Returns.of_triple (Triple.modify fun _ _ => hmap) : Returns (fun _ => True) _ _ _) t trivial

end

/-- For every well-formed list of regions and whatever the allocators answer, the operations are
what they should be on the map of pages.  Splitting and merging do not change it.  Changing
protections changes the protection bits of the pages of the range, unmapping removes the pages of
the range rounded up, and an error leaves the map as it was. -/
theorem pageMap_refines {range : VaRange} (outcome : ℕ → Option VmError) {s : Vm}
    (h : WellFormed range s.regions) (va len : ℕ) (prot : BitVec 32) :
    (∀ cmpRegs, pageMap (final (splitVmRange (range.env outcome) va len cmpRegs s)).regions
        = pageMap s.regions)
      ∧ (∀ endVa, pageMap (mergeVmRange va endVa s.regions) = pageMap s.regions)
      ∧ (∀ t, vmSetProt (range.env outcome) va len prot s = .ok () t →
        prot &&& ~~~ (teeMattrProtMask.setWidth 32) = 0 ∧ pageMap t.regions
          = onRange va (va + len) (Option.map (Page.protect (prot.setWidth 16)))
            (pageMap s.regions))
      ∧ (∀ t, vmUnmap (range.env outcome) va len s = .ok () t →
        pageMap t.regions
          = onRange va (va + pageCeil len) (fun _ => none) (pageMap s.regions))
      ∧ ∀ e t, vmSetProt (range.env outcome) va len prot s = .error (.error e) t
          ∨ vmUnmap (range.env outcome) va len s = .error (.error e) t →
        pageMap t.regions = pageMap s.regions := by
  obtain ⟨hprotOk, hprotErr⟩ := vmSetProt_pageMap (range.env outcome) h.disjoint va len prot s rfl
  obtain ⟨hunmapOk, hunmapErr⟩ := vmUnmap_pageMap (range.env outcome) h.disjoint va len s rfl
  refine ⟨fun cmpRegs => ?_, fun endVa => pageMap_mergeVmRange va endVa _, fun t ht => ⟨?_, ?_⟩,
    fun t ht => hunmapOk () t ht, ?_⟩
  · exact (splitVmRange_pageMap (range.env outcome) h va len cmpRegs).final_of rfl
  · obtain ⟨_, _, hcheck, -⟩ := bind_eq_ok.mp ht
    obtain ⟨hcheck, -⟩ := failIf_eq_ok.mp hcheck
    exact not_not.mp fun hbad => hcheck (.inl hbad)
  · exact hprotOk () t ht
  · rintro e t (ht | ht)
    · exact hprotErr e t ht
    · exact hunmapErr e t ht

/-- Two readable pages at the beginning of the user addresses. -/
def samplePages : Region where
  mobj := sampleObjects.get 0
  offset := 0
  va := 0x40000000
  size := 8192
  attr := teeMattrUr
  flags := 0

lemma samplePages_wellFormed : WellFormed sampleRange [samplePages] := by
  refine .of_sorted (List.pairwise_singleton _ _) fun r hr => ?_
  obtain rfl := List.mem_singleton.mp hr
  constructor <;> decide

/-- The second page is made writable. -/
theorem pageMap_refines_sample :
    ∃ t, vmSetProt (sampleRange.env fun _ => none) 0x40001000 4096 (teeMattrUrw.setWidth 32)
        ⟨[samplePages], 0⟩ = .ok () t
      ∧ pageMap t.regions = onRange 0x40001000 0x40002000 (Option.map (Page.protect teeMattrUrw))
        (pageMap [samplePages]) :=
  ⟨_, rfl, ((pageMap_refines (s := ⟨[samplePages], 0⟩) (fun _ => none) samplePages_wellFormed 0x40001000 4096
    (teeMattrUrw.setWidth 32)).2.2.1 _ rfl).2⟩

end Watz.OpTee
