import Watz.OpTee.Access

/-!
# Physical addresses

`vm_va2pa` gives the physical address behind a user address, `vm_pa2va` goes the other way: it
scans the memory object of each region in granules, from the region's offset on.  The scan stops at
the size of the region where it should stop at the offset plus the size, so that regions which
begin late in their object are not searched, or not to their end.
-/

namespace Watz.OpTee

open Lib
open Region (Contains endVa)

/-! ## The two translations -/

/-- `vm_va2pa`. -/
def vmVa2pa (phys : Phys) (rs : List Region) (ua : ℕ) : Except VmError ℕ :=
  (teeMmuUserVa2paAttr phys rs ua true).map fun q => q.1.getD 0

/-- How far a round of `vm_pa2va` goes: to the end of the granule or of the region, and over the
whole region if there is no granule. -/
def scanStep (granule size ofs : ℕ) : ℕ :=
  if granule ≠ 0 then min (granule - ofs % granule) (size - ofs) else size

/-- The inner loop of `vm_pa2va` from an offset on, for a number of rounds.  An error of
`mobj_get_pa` skips the round. -/
def scanFrom (phys : Phys) (region : Region) (pa : ℕ) : ℕ → ℕ → Option ℕ
  | 0, _ => none
  | fuel + 1, ofs =>
    if ofs < region.size then
      let granule := phys.granule region.mobj.id
      let size := scanStep granule region.size ofs
      match phys.mobjGetPa region.mobj.id ofs granule with
      | .error _ => scanFrom phys region pa fuel (ofs + size)
      | .ok p =>
        if coreIsBufferInside pa 1 p size then some (region.va + (ofs - region.offset) + (pa - p))
        else scanFrom phys region pa fuel (ofs + size)
    else none

/-- `vm_pa2va`.  Each round goes on by at least a byte, so that there are no more rounds than the
region has bytes. -/
def vmPa2va (phys : Phys) (rs : List Region) (pa : ℕ) : Option ℕ :=
  rs.findSome? fun r => scanFrom phys r pa r.size r.offset

/-- `mobj_get_pa` is what it is for all kinds of objects: `addr` gives the physical address of an
offset, whole pages of the object are pages of memory, and if a granule is asked for the address is
rounded down.  The granule of an object is a page, or there is none and the object is contiguous. -/
structure Phys.Respects (phys : Phys) (objects : Objects) (addr : ℕ → ℕ → ℕ) : Prop where
  granule : ∀ i, phys.granule i = 0 ∨ phys.granule i = smallPageSize
  exact : ∀ i off, phys.granule i = 0 → off < pageCeil (objects.get i).size →
    phys.mobjGetPa i off 0 = .ok (addr i off)
  rounded : ∀ i off, off < pageCeil (objects.get i).size →
    phys.mobjGetPa i off smallPageSize = .ok (addr i off / smallPageSize * smallPageSize)
  page : ∀ i off, off < pageCeil (objects.get i).size →
    addr i off % smallPageSize = off % smallPageSize
  contiguous : ∀ i off, phys.granule i = 0 → off < pageCeil (objects.get i).size →
    addr i off = addr i 0 + off
  lt : ∀ i off, off < pageCeil (objects.get i).size → addr i off < wordSize

/-- No two pages of the address space are the same page of memory. -/
def MappedOnce (phys : Phys) (rs : List Region) : Prop :=
  ∀ a < wordSize, ∀ b < wordSize, ∀ p q, vmVa2pa phys rs a = .ok p → vmVa2pa phys rs b = .ok q →
    p / smallPageSize = q / smallPageSize → a / smallPageSize = b / smallPageSize

/-- What is translated to a physical address is found again. -/
def RoundTrips (phys : Phys) (rs : List Region) : Prop :=
  ∀ a < wordSize, ∀ p, vmVa2pa phys rs a = .ok p → vmPa2va phys rs p = some a

/-- The scan of `vm_pa2va` reaches every byte of the region, at its right place. -/
def Region.Scanned (phys : Phys) (r : Region) : Prop :=
  PageAligned r.offset ∧ if phys.granule r.mobj.id = 0 then r.offset < r.size else r.offset = 0

/-! ## From user addresses to physical ones -/

/-- The physical address of an address of a region. -/
def Region.physAddr (addr : ℕ → ℕ → ℕ) (r : Region) (a : ℕ) : ℕ :=
  addr r.mobj.id (r.offset + (a - r.va) / smallPageSize * smallPageSize) / smallPageSize
    * smallPageSize + a % smallPageSize

/-- The low bits of an address are those of its page number times the page size plus them. -/
lemma or_page (q x : ℕ) : q * smallPageSize ||| x % smallPageSize
    = q * smallPageSize + x % smallPageSize := by
  have hlt : x % smallPageSize < 2 ^ 12 := Nat.mod_lt _ (by decide)
  rw [Nat.mul_comm, show smallPageSize = 2 ^ 12 from rfl]
  exact (Nat.two_pow_add_eq_or_of_lt hlt q).symm

section

variable {range : VaRange} {objects : Objects} {rs : List Region} {addr : ℕ → ℕ → ℕ} {phys : Phys}

variable {r : Region} {a b fuel pa : ℕ}

lemma Region.Placed.lt_pageCeil (h : r.Placed range objects) (off : ℕ)
    (hoff : off < r.offset + r.size) : off < pageCeil (objects.get r.mobj.id).size := by
  rw [show objects.get r.mobj.id = r.mobj from h.mapped]
  exact hoff.trans_le h.in_mobj

lemma Region.Placed.lt_wordSize (h : r.Placed range objects) :
    r.va < wordSize ∧ r.size < wordSize ∧ r.va + r.size < wordSize := by
  have hend := h.end_le
  have hlt := range.end_lt
  simp only [endVa] at hend
  omega

lemma Arranged.inside_iff (h : Arranged range objects rs) (hr : r ∈ rs) (ha : a < wordSize) :
    coreIsBufferInside a 1 r.va r.size = true ↔ r.Contains a := by
  obtain ⟨hva, hsize, hsum⟩ := (h.placed r hr).lt_wordSize
  rw [coreIsBufferInside_iff ha (by decide) hva hsize, Contains, endVa]
  omega

lemma Region.Placed.page_lt (h : r.Placed range objects) (ha : r.Contains a) :
    (a - r.va) / smallPageSize * smallPageSize + smallPageSize ≤ r.size := by
  have hsize := h.size_aligned
  simp only [Contains, endVa, PageAligned, smallPageSize] at *
  omega

lemma Arranged.vmVa2pa_eq (h : Arranged range objects rs) (hphys : phys.Respects objects addr)
    (hr : r ∈ rs) (ha : r.Contains a) :
    vmVa2pa phys rs a = .ok (r.physAddr addr a) := by
  have hplaced := h.placed r hr
  have hword : a < wordSize := by
    have := hplaced.lt_wordSize
    simp only [Contains, endVa] at ha
    omega
  have hfind : userRegion rs a = some r := by
    cases hfind : userRegion rs a with
    | none =>
      have hnone := List.find?_eq_none.mp hfind r hr
      exact absurd ((h.inside_iff hr hword).mpr ha) hnone
    | some r' =>
      have hr' := List.mem_of_find?_eq_some hfind
      have hinside := List.find?_some hfind
      have ha' := (h.inside_iff hr' hword).mp hinside
      rw [h.sorted.eq_of_contains hr' hr ha' ha]
  have hgranule : max (phys.granule r.mobj.id) smallPageSize = smallPageSize := by
    rcases hphys.granule r.mobj.id with hg | hg <;> rw [hg] <;> decide
  have hoff : r.offset + (a - r.va) / smallPageSize * smallPageSize < r.offset + r.size := by
    have := hplaced.page_lt ha
    simp only [smallPageSize] at *
    omega
  have hpa := hphys.rounded r.mobj.id _ (hplaced.lt_pageCeil _ hoff)
  rw [vmVa2pa, teeMmuUserVa2paAttr, hfind]
  simp only [if_true, hgranule, hpa]
  exact congrArg Except.ok (or_page _ a)

lemma Arranged.exists_of_vmVa2pa (h : Arranged range objects rs)
    (hphys : phys.Respects objects addr) {p : ℕ} (ha : a < wordSize)
    (hpa : vmVa2pa phys rs a = .ok p) :
    ∃ r ∈ rs, r.Contains a ∧ p = r.physAddr addr a := by
  cases hfind : userRegion rs a with
  | none =>
    rw [vmVa2pa, teeMmuUserVa2paAttr, hfind] at hpa
    cases hpa
  | some r =>
    have hr := List.mem_of_find?_eq_some hfind
    have hinside := List.find?_some hfind
    have hcontains := (h.inside_iff hr ha).mp hinside
    refine ⟨r, hr, hcontains, ?_⟩
    rw [h.vmVa2pa_eq hphys hr hcontains] at hpa
    exact (Except.ok.inj hpa).symm

lemma Region.physAddr_mod (addr : ℕ → ℕ → ℕ) (r : Region) (a : ℕ) :
    r.physAddr addr a % smallPageSize = a % smallPageSize := by
  rw [Region.physAddr, Nat.mul_comm, Nat.mul_add_mod, Nat.mod_mod]

/-! ## The scan of a region -/

lemma scanFrom_succ (pa fuel : ℕ) {ofs g p : ℕ} (hlt : ofs < r.size)
    (hg : phys.granule r.mobj.id = g) (hget : phys.mobjGetPa r.mobj.id ofs g = .ok p) :
    scanFrom phys r pa (fuel + 1) ofs
      = if coreIsBufferInside pa 1 p (scanStep g r.size ofs) then
          some (r.va + (ofs - r.offset) + (pa - p))
        else scanFrom phys r pa fuel (ofs + scanStep g r.size ofs) := by
  simp only [scanFrom, if_pos hlt, hg, hget]

/-- A round of the scan, not before the given offset, finds the address and gives `b`. -/
def ScanHit (phys : Phys) (r : Region) (pa start b : ℕ) : Prop :=
  ∃ ofs p, start ≤ ofs ∧ ofs < r.size ∧ (ofs = start ∨ phys.granule r.mobj.id ∣ ofs)
    ∧ phys.mobjGetPa r.mobj.id ofs (phys.granule r.mobj.id) = .ok p
    ∧ coreIsBufferInside pa 1 p (scanStep (phys.granule r.mobj.id) r.size ofs) = true
    ∧ b = r.va + (ofs - r.offset) + (pa - p)

lemma scanFrom_eq_some {start : ℕ} (h : scanFrom phys r pa fuel start = some b) :
    ScanHit phys r pa start b := by
  induction fuel generalizing start with
  | zero => cases h
  | succ fuel ih =>
    rw [scanFrom] at h
    split at h
    swap
    · cases h
    rename_i hlt
    -- a later round begins at a granule
    have hlater : scanFrom phys r pa fuel
        (start + scanStep (phys.granule r.mobj.id) r.size start) = some b →
          ScanHit phys r pa start b := by
      intro hscan
      obtain ⟨ofs, p, hle, hofs, hplace, hspec⟩ := ih hscan
      refine ⟨ofs, p, by omega, hofs, .inr ?_, hspec⟩
      rcases hplace with rfl | hdvd
      swap
      · exact hdvd
      rw [scanStep] at hofs ⊢
      split at hofs
      · rename_i hg
        have hmin : min (phys.granule r.mobj.id - start % phys.granule r.mobj.id) (r.size - start)
            = phys.granule r.mobj.id - start % phys.granule r.mobj.id := by omega
        have hmod := Nat.mod_lt start (Nat.pos_of_ne_zero hg)
        rw [if_pos hg, hmin]
        refine ⟨start / phys.granule r.mobj.id + 1, ?_⟩
        have hdiv := Nat.div_add_mod start (phys.granule r.mobj.id)
        rw [Nat.mul_add, Nat.mul_one]
        omega
      · omega
    dsimp only at h
    split at h
    · exact hlater h
    · rename_i p hpa
      split at h
      · rename_i hinside
        exact ⟨start, p, le_rfl, hlt, .inl rfl, hpa, hinside, (Option.some.inj h).symm⟩
      · exact hlater h

section Placed

variable (h : r.Placed range objects) (hphys : phys.Respects objects addr)

include h hphys

lemma Region.Placed.physAddr_of_contiguous (hg : phys.granule r.mobj.id = 0)
    (hoffset : PageAligned r.offset) (ha : r.Contains a) :
    r.physAddr addr a = addr r.mobj.id r.offset + (a - r.va) := by
  have hpage := h.page_lt ha
  have hlast := hphys.contiguous r.mobj.id (r.offset + (a - r.va) / smallPageSize * smallPageSize)
    hg (h.lt_pageCeil _ (by simp only [smallPageSize] at *; omega))
  have hfirst := hphys.contiguous r.mobj.id r.offset hg
    (h.lt_pageCeil _ (by simp only [smallPageSize] at *; omega))
  have hmod := hphys.page r.mobj.id r.offset
    (h.lt_pageCeil _ (by simp only [smallPageSize] at *; omega))
  have hva := h.va_aligned
  have hlow := ha.1
  rw [Region.physAddr, hlast]
  simp only [PageAligned, smallPageSize] at *
  omega

section

variable (hpa : pa < wordSize) (hscan : scanFrom phys r pa fuel r.offset = some b)

include hpa hscan

lemma Region.Placed.hit_of_contiguous (hg : phys.granule r.mobj.id = 0) :
    r.offset < r.size ∧ addr r.mobj.id r.offset ≤ pa ∧ pa < addr r.mobj.id r.offset + r.size
      ∧ b = r.va + (pa - addr r.mobj.id r.offset) := by
  obtain ⟨ofs, p, hle, hofs, hplace, hget, hinside, rfl⟩ := scanFrom_eq_some hscan
  obtain rfl : ofs = r.offset := by
    rcases hplace with rfl | hdvd
    · rfl
    · rw [hg] at hdvd
      have := Nat.eq_zero_of_zero_dvd hdvd
      omega
  have hlimit := h.lt_pageCeil r.offset (by omega)
  rw [hg, hphys.exact _ _ hg hlimit] at hget
  obtain rfl := Except.ok.inj hget
  rw [hg, show scanStep 0 r.size r.offset = r.size from rfl] at hinside
  obtain ⟨-, hlow, hhigh, -⟩ := (coreIsBufferInside_iff hpa (by decide) (hphys.lt _ _ hlimit)
    h.lt_wordSize.2.1).mp hinside
  exact ⟨hofs, hlow, by omega, by omega⟩

lemma Region.Placed.hit_of_pages (hg : phys.granule r.mobj.id = smallPageSize) :
    ∃ ofs, r.offset ≤ ofs ∧ (ofs = r.offset ∨ smallPageSize ∣ ofs)
      ∧ addr r.mobj.id ofs / smallPageSize = pa / smallPageSize
      ∧ pa % smallPageSize < smallPageSize - ofs % smallPageSize
      ∧ ofs + pa % smallPageSize < r.size
      ∧ b = r.va + (ofs - r.offset) + pa % smallPageSize := by
  obtain ⟨ofs, p, hle, hofs, hplace, hget, hinside, rfl⟩ := scanFrom_eq_some hscan
  have hlimit := h.lt_pageCeil ofs (by omega)
  have hlt := hphys.lt _ _ hlimit
  rw [hg, hphys.rounded _ _ hlimit] at hget
  obtain rfl := Except.ok.inj hget
  rw [hg] at hplace
  have hstep : scanStep (phys.granule r.mobj.id) r.size ofs
      = min (smallPageSize - ofs % smallPageSize) (r.size - ofs) := by
    rw [hg, scanStep, if_pos (by decide)]
  have hsize := h.lt_wordSize.2.1
  rw [hstep] at hinside
  obtain ⟨-, hlow, hhigh, -⟩ := (coreIsBufferInside_iff hpa (by decide)
    (lt_of_le_of_lt (Nat.div_mul_le_self _ _) hlt) (by omega)).mp hinside
  refine ⟨ofs, hle, hplace, ?_⟩
  simp only [smallPageSize] at *
  omega

lemma Region.Placed.contains_of_scan : r.Contains b := by
  rw [Contains, endVa]
  rcases hphys.granule r.mobj.id with hg | hg
  · obtain ⟨-, hlow, hhigh, rfl⟩ := h.hit_of_contiguous hphys hpa hscan hg
    omega
  · obtain ⟨ofs, hle, -, -, -, hlt, rfl⟩ := h.hit_of_pages hphys hpa hscan hg
    omega

lemma Region.Placed.physAddr_of_scan (hscanned : r.Scanned phys) : r.physAddr addr b = pa := by
  have hcontains := h.contains_of_scan hphys hpa hscan
  obtain ⟨hoffset, hreach⟩ := hscanned
  rcases hphys.granule r.mobj.id with hg | hg
  · obtain ⟨-, hlow, -, rfl⟩ := h.hit_of_contiguous hphys hpa hscan hg
    rw [h.physAddr_of_contiguous hphys hg hoffset hcontains]
    omega
  · rw [hg, if_neg (by decide)] at hreach
    obtain ⟨ofs, -, hplace, hpage, -, -, rfl⟩ := h.hit_of_pages hphys hpa hscan hg
    have hva := h.va_aligned
    have hofs : ofs % smallPageSize = 0 := by
      rcases hplace with rfl | hdvd
      · exact hoffset
      · exact Nat.mod_eq_zero_of_dvd hdvd
    have hback : r.offset + (r.va + (ofs - r.offset) + pa % smallPageSize - r.va) / smallPageSize
        * smallPageSize = ofs := by
      simp only [smallPageSize] at *
      omega
    rw [Region.physAddr, hback, hpage]
    simp only [PageAligned, smallPageSize] at *
    omega

end

lemma Region.Placed.scan_pages_isSome (hg : phys.granule r.mobj.id = smallPageSize)
    (hoffset : r.offset = 0) (target : ℕ) (hpa : pa < wordSize) (htarget : smallPageSize ∣ target)
    (hlt : target < r.size) (hpage : addr r.mobj.id target / smallPageSize = pa / smallPageSize)
    (fuel : ℕ) {ofs : ℕ} (hofs : smallPageSize ∣ ofs) (hle : ofs ≤ target)
    (hfuel : target < ofs + fuel) :
    (scanFrom phys r pa fuel ofs).isSome = true := by
  induction fuel generalizing ofs with
  | zero => omega
  | succ fuel ih =>
    have hsize := h.size_aligned
    have hlimit := h.lt_pageCeil ofs (by omega)
    have hstep : scanStep smallPageSize r.size ofs = smallPageSize := by
      rw [scanStep, if_pos (by decide)]
      simp only [PageAligned, smallPageSize] at *
      omega
    rw [scanFrom_succ _ _ (by omega) hg (hphys.rounded _ _ hlimit), hstep]
    split
    · rfl
    rename_i hmiss
    rcases eq_or_lt_of_le hle with rfl | hbefore
    · -- the round at the target finds the address
      have hlt' := hphys.lt _ _ hlimit
      refine absurd ((coreIsBufferInside_iff hpa (by decide)
        (lt_of_le_of_lt (Nat.div_mul_le_self _ _) hlt') (by decide)).mpr ?_) hmiss
      simp only [wordSize, smallPageSize] at *
      omega
    · refine ih (Dvd.dvd.add hofs (dvd_refl _)) ?_ ?_
      · simp only [smallPageSize] at *
        omega
      · simp only [smallPageSize] at *
        omega

lemma Region.Placed.scan_isSome (hscanned : r.Scanned phys) (ha : r.Contains a)
    (hpa : r.physAddr addr a < wordSize) :
    (scanFrom phys r (r.physAddr addr a) r.size r.offset).isSome = true := by
  obtain ⟨hoffset, hreach⟩ := hscanned
  have hpage := h.page_lt ha
  rcases hphys.granule r.mobj.id with hg | hg
  · rw [hg, if_pos rfl] at hreach
    have hlimit := h.lt_pageCeil r.offset (by omega)
    have hlast := hphys.lt r.mobj.id (r.offset + r.size - 1) (h.lt_pageCeil _ (by omega))
    have hsum := h.physAddr_of_contiguous hphys hg hoffset ha
    obtain ⟨fuel, hfuel⟩ : ∃ fuel, r.size = fuel + 1 := ⟨r.size - 1, by omega⟩
    have hinside : coreIsBufferInside (r.physAddr addr a) 1 (addr r.mobj.id r.offset) r.size
        = true := by
      refine (coreIsBufferInside_iff hpa (by decide) (hphys.lt _ _ hlimit)
        h.lt_wordSize.2.1).mpr ?_
      have hfirst := hphys.contiguous r.mobj.id r.offset hg hlimit
      rw [hphys.contiguous r.mobj.id _ hg (h.lt_pageCeil _ (by omega))] at hlast
      simp only [Contains, endVa] at ha
      omega
    have hround := scanFrom_succ (r.physAddr addr a) fuel hreach hg (hphys.exact _ _ hg hlimit)
    rw [show scanStep 0 r.size r.offset = r.size from rfl, if_pos hinside, ← hfuel] at hround
    rw [hround]
    rfl
  · rw [hg, if_neg (by decide)] at hreach
    refine h.scan_pages_isSome hphys hg hreach ((a - r.va) / smallPageSize * smallPageSize) hpa
      (Nat.dvd_mul_left _ _) ?_ ?_ r.size ?_ ?_ ?_
    · simp only [smallPageSize] at *
      omega
    · rw [Region.physAddr, hreach, Nat.zero_add]
      simp only [smallPageSize] at *
      omega
    · rw [hreach]
      exact Nat.dvd_zero _
    · omega
    · simp only [smallPageSize] at *
      omega

lemma Region.Placed.physAddr_lt (ha : r.Contains a) : r.physAddr addr a < wordSize := by
  have hpage := h.page_lt ha
  have hlt := hphys.lt r.mobj.id (r.offset + (a - r.va) / smallPageSize * smallPageSize)
    (h.lt_pageCeil _ (by simp only [smallPageSize] at *; omega))
  rw [Region.physAddr]
  simp only [wordSize, smallPageSize] at *
  omega

end Placed

/-! ## The round trip -/

lemma Arranged.roundTrips (h : Arranged range objects rs) (hphys : phys.Respects objects addr)
    (honce : MappedOnce phys rs) (hscanned : ∀ r ∈ rs, 0 < r.size → r.Scanned phys) :
    RoundTrips phys rs := by
  intro a ha p hpa
  obtain ⟨r, hr, hcontains, rfl⟩ := h.exists_of_vmVa2pa hphys ha hpa
  have hplaced := h.placed r hr
  have hlt := hplaced.physAddr_lt hphys hcontains
  have hpos : 0 < r.size := by
    simp only [Contains, endVa] at hcontains
    omega
  have hsome : (vmPa2va phys rs (r.physAddr addr a)).isSome = true := by
    rw [vmPa2va, List.findSome?_isSome_iff]
    exact ⟨r, hr, hplaced.scan_isSome hphys (hscanned r hr hpos) hcontains hlt⟩
  obtain ⟨b, hb⟩ := Option.isSome_iff_exists.mp hsome
  obtain ⟨r', hr', hscan⟩ := List.exists_of_findSome?_eq_some hb
  -- what is found has the same physical address, so it lies in the same page
  have hplaced' := h.placed r' hr'
  have hcontains' := hplaced'.contains_of_scan hphys hlt hscan
  have hpos' : 0 < r'.size := by
    simp only [Contains, endVa] at hcontains'
    omega
  have hsame := hplaced'.physAddr_of_scan hphys hlt hscan (hscanned r' hr' hpos')
  have hb' : b < wordSize := by
    have := hplaced'.lt_wordSize
    simp only [Contains, endVa] at hcontains'
    omega
  have hpage := honce a ha b hb' _ _ hpa (h.vmVa2pa_eq hphys hr' hcontains') (by rw [hsame])
  have hmod : a % smallPageSize = b % smallPageSize := by
    rw [← r.physAddr_mod addr, ← hsame, r'.physAddr_mod]
  rw [hb]
  refine congrArg some ?_
  simp only [smallPageSize] at hpage hmod
  omega

lemma Arranged.scan_eq_of_roundTrips (h : Arranged range objects rs)
    (hphys : phys.Respects objects addr) (htrips : RoundTrips phys rs) (hr : r ∈ rs)
    (ha : r.Contains a) :
    scanFrom phys r (r.physAddr addr a) r.size r.offset = some a := by
  have hplaced := h.placed r hr
  have hlt := hplaced.physAddr_lt hphys ha
  have hword : a < wordSize := by
    have := hplaced.lt_wordSize
    simp only [Contains, endVa] at ha
    omega
  have hfound := htrips a hword _ (h.vmVa2pa_eq hphys hr ha)
  obtain ⟨r', hr', hscan⟩ := List.exists_of_findSome?_eq_some hfound
  have ha' := (h.placed r' hr').contains_of_scan hphys hlt hscan
  obtain rfl := h.sorted.eq_of_contains hr hr' ha ha'
  exact hscan

lemma Arranged.scanned_of_roundTrips (h : Arranged range objects rs)
    (hphys : phys.Respects objects addr) (htrips : RoundTrips phys rs) (hr : r ∈ rs)
    (hpos : 0 < r.size) : r.Scanned phys := by
  have hplaced := h.placed r hr
  have hsize := hplaced.size_aligned
  have hva := hplaced.va_aligned
  rcases hphys.granule r.mobj.id with hg | hg
  · -- the first address of the region
    have ha : r.Contains r.va := ⟨le_rfl, by simp only [endVa]; omega⟩
    have hscan := h.scan_eq_of_roundTrips hphys htrips hr ha
    obtain ⟨hreach, hlow, -⟩ :=
      hplaced.hit_of_contiguous hphys (hplaced.physAddr_lt hphys ha) hscan hg
    refine ⟨?_, by rwa [hg, if_pos rfl]⟩
    have hmod := hphys.page r.mobj.id r.offset (hplaced.lt_pageCeil _ (by omega))
    rw [Region.physAddr, Nat.sub_self, Nat.zero_div, Nat.zero_mul, Nat.add_zero] at hlow
    simp only [PageAligned, smallPageSize] at *
    omega
  · -- the last byte of the first page shows that the offset is one of a page
    have ha : r.Contains (r.va + (smallPageSize - 1)) := by
      simp only [Contains, endVa, PageAligned, smallPageSize] at *
      omega
    have hscan := h.scan_eq_of_roundTrips hphys htrips hr ha
    obtain ⟨ofs, hle, -, -, hrest, -, hofs⟩ :=
      hplaced.hit_of_pages hphys (hplaced.physAddr_lt hphys ha) hscan hg
    rw [r.physAddr_mod] at hrest hofs
    have hoffset : PageAligned r.offset := by
      simp only [PageAligned, smallPageSize] at *
      omega
    refine ⟨hoffset, ?_⟩
    rw [hg, if_neg (by decide)]
    -- the last page of the region shows that there is nothing before it in the object
    have hb : r.Contains (r.endVa - smallPageSize) := by
      simp only [Contains, endVa, PageAligned, smallPageSize] at *
      omega
    have hscan' := h.scan_eq_of_roundTrips hphys htrips hr hb
    obtain ⟨ofs', hle', -, -, -, hlt', hofs'⟩ :=
      hplaced.hit_of_pages hphys (hplaced.physAddr_lt hphys hb) hscan' hg
    rw [r.physAddr_mod] at hlt' hofs'
    simp only [endVa, PageAligned, smallPageSize] at *
    omega

end

lemma arranged_finalState {range : VaRange} {objects : Objects}
    {calls : List ((ℕ → Option VmError) × VmCall)} {rs : List Region}
    (hrs : finalState (vmStep range objects) (some []) calls = some rs) :
    Arranged range objects rs :=
  forall_finalState_vmStep (C := fun _ => True) ⟨List.Pairwise.nil, by simp⟩
    (fun outcome call _ => keeps_arranged_exec range objects outcome call) (fun _ _ => trivial) hrs

/-- In every address space that the operations build, and in which no page of memory is mapped
twice, translating to physical addresses and back works exactly if each region begins at a page of
its object, and at the object's first page if the object has a granule, and before its own size if
the object has none. -/
theorem roundTrips_iff {range : VaRange} {objects : Objects}
    {calls : List ((ℕ → Option VmError) × VmCall)} {rs : List Region}
    (hrs : finalState (vmStep range objects) (some []) calls = some rs) {phys : Phys}
    {addr : ℕ → ℕ → ℕ} (hphys : phys.Respects objects addr) (honce : MappedOnce phys rs) :
    RoundTrips phys rs ↔ ∀ r ∈ rs, 0 < r.size → r.Scanned phys := by
  have h := arranged_finalState hrs
  exact ⟨fun htrips r hr hpos => h.scanned_of_roundTrips hphys htrips hr hpos,
    h.roundTrips hphys honce⟩

/-- The addresses that `samplePhys` gives. -/
def sampleAddr (i off : ℕ) : ℕ := i % 4 * 0x40000000 + off

lemma sampleAddr_lt {i off : ℕ} (hoff : off < 8192) : sampleAddr i off < wordSize := by
  have hmod := Nat.mod_lt i (show 0 < 4 by decide)
  calc
    sampleAddr i off < 4 * 0x40000000 + 8192 := by
      rw [sampleAddr]
      omega
    _ < wordSize := by decide

lemma samplePhys_respects : samplePhys.Respects sampleObjects sampleAddr where
  granule _ := .inl rfl
  exact _ _ _ _ := by simp only [samplePhys, sampleAddr, if_true]
  rounded _ _ _ := by
    simp only [samplePhys, sampleAddr, if_neg (show smallPageSize ≠ 0 by decide)]
  page i off _ := by
    simp only [sampleAddr, smallPageSize]
    omega
  contiguous i off _ _ := by simp only [sampleAddr, Nat.add_zero]
  lt i off hoff := by
    have hsize : pageCeil 8192 = 8192 := by decide
    exact sampleAddr_lt (hoff.trans_eq hsize)

/-- The first object, mapped to one place only. -/
def OnePlace (rs : List Region) : Prop :=
  ∀ r ∈ rs, r.mobj.id = 0 ∧ PageAligned r.offset ∧ r.va = 0x40000000 + r.offset

instance (rs : List Region) : Decidable (OnePlace rs) := inferInstanceAs (Decidable (∀ _ ∈ _, _))

lemma OnePlace.mappedOnce {range : VaRange} {rs : List Region} (hplace : OnePlace rs)
    (h : Arranged range sampleObjects rs) : MappedOnce samplePhys rs := by
  have hpa : ∀ a < wordSize, ∀ p, vmVa2pa samplePhys rs a = .ok p → a = 0x40000000 + p := by
    intro a ha p hp
    obtain ⟨r, hr, hcontains, rfl⟩ := h.exists_of_vmVa2pa samplePhys_respects ha hp
    obtain ⟨hid, hoffset, hva⟩ := hplace r hr
    rw [(h.placed r hr).physAddr_of_contiguous samplePhys_respects rfl hoffset hcontains, hid]
    simp only [sampleAddr, Contains] at *
    omega
  intro a ha b hb p q hp hq hpage
  have hap := hpa a ha p hp
  have hbq := hpa b hb q hq
  simp only [smallPageSize] at *
  omega

/-- Both pages of the object in one region. -/
theorem roundTrips_iff_sample :
    ∃ rs, finalState (vmStep sampleRange sampleObjects) (some []) [sampleMap 8192] = some rs
      ∧ rs.length = 1 ∧ RoundTrips samplePhys rs := by
  have hrun : (finalState (vmStep sampleRange sampleObjects) (some []) [sampleMap 8192]).map
      (fun rs => (rs.length, decide (OnePlace rs ∧ ∀ r ∈ rs, r.offset = 0 ∧ 0 < r.size)))
        = some (1, true) := by decide +kernel
  obtain ⟨rs, hrs, hfacts⟩ := Option.map_eq_some_iff.mp hrun
  obtain ⟨hlen, hfacts⟩ := Prod.mk.inj hfacts
  obtain ⟨hplace, hzero⟩ := of_decide_eq_true hfacts
  refine ⟨rs, hrs, hlen, ?_⟩
  refine (roundTrips_iff hrs samplePhys_respects
    (hplace.mappedOnce (arranged_finalState hrs))).mpr fun r hr _ => ⟨(hplace r hr).2.1, ?_⟩
  obtain ⟨hoffset, hpos⟩ := hzero r hr
  exact hoffset.trans_lt hpos

/-- The protections of the second page are changed, which makes it a region of its own. -/
def splitCalls : List ((ℕ → Option VmError) × VmCall) :=
  [sampleMap 8192, (fun _ => none, .setProt 0x40001000 4096 (teeMattrUrw.setWidth 32))]

/-- The physical address of the second page is not found any more. -/
theorem roundTrips_lost :
    ∃ rs, finalState (vmStep sampleRange sampleObjects) (some []) splitCalls = some rs
      ∧ MappedOnce samplePhys rs ∧ vmVa2pa samplePhys rs 0x40001000 = .ok 4096
      ∧ vmPa2va samplePhys rs 4096 = none := by
  have hrun : (finalState (vmStep sampleRange sampleObjects) (some []) splitCalls).map
      (fun rs => decide (OnePlace rs ∧ (vmVa2pa samplePhys rs 0x40001000).toOption = some 4096
        ∧ vmPa2va samplePhys rs 4096 = none)) = some true := by decide +kernel
  obtain ⟨rs, hrs, hfacts⟩ := Option.map_eq_some_iff.mp hrun
  obtain ⟨hplace, hpa, hva⟩ := of_decide_eq_true hfacts
  refine ⟨rs, hrs, hplace.mappedOnce (arranged_finalState hrs), ?_, hva⟩
  cases hok : vmVa2pa samplePhys rs 0x40001000 with
  | error e =>
    rw [hok] at hpa
    cases hpa
  | ok p =>
    rw [hok] at hpa
    exact congrArg Except.ok (Option.some.inj hpa)

end Watz.OpTee
