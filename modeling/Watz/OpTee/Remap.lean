import Watz.OpTee.RangeQueries

/-!
# Moving a range

`vm_remap` takes the regions of a range out of the list and puts them in again one behind the other
at the new address.  If one of them cannot be put in, or the page tables or the pager fail for it,
those that are already at the new address should go back to the old one.  The loop that collects
them stops before the region that was linked in last, so that this one stays behind.

The regions of a range follow each other without a gap and continue each other in their object.
This is what the check of `vm_remap` is for, and it decides whether a region that was left behind
shows in the map of pages.
-/

namespace Watz.OpTee

open Lib

/-! ## Putting a region in -/

/-- Two regions without a common address. -/
def Region.Apart (r r' : Region) : Prop := r.endVa ≤ r'.va ∨ r'.endVa ≤ r.va

section

variable {rs rs' : List Region}

lemma selectVaInRange_of_ne_zero {prev next reg : Region} {padBegin padEnd granul : ℕ}
    (hva : reg.va ≠ 0) (h : selectVaInRange prev next reg padBegin padEnd granul ≠ 0) :
    selectVaInRange prev next reg padBegin padEnd granul = reg.va := by
  revert h
  simp only [selectVaInRange, if_pos hva]
  split
  · exact fun h => absurd rfl h
  split
  · exact fun h => absurd rfl h
  split
  · exact fun h => absurd rfl h
  split
  · exact fun _ => rfl
  · exact fun h => absurd rfl h

/-- What adding a region to an ordered list does: it is put where it was asked for, if it was, and
away from all others. -/
structure Adds (reg : Region) (rs : List Region) (va : ℕ) (rs' : List Region) : Prop where
  sorted : Sorted rs'
  mem : ∀ x, x ∈ rs' ↔ x = { reg with va := va } ∨ x ∈ rs
  apart : ∀ x ∈ rs, x.Apart { reg with va := va }
  va_ne : va ≠ 0
  va_eq : reg.va ≠ 0 → va = reg.va

lemma adds_of_umapAddRegion {env : VmEnv} {reg : Region} {padBegin padEnd align va : ℕ}
    (h : umapAddRegion env reg padBegin padEnd align rs = .ok (va, rs')) (hsorted : Sorted rs) :
    Adds reg rs va rs' := by
  obtain ⟨hsorted', hmem⟩ := umapAddRegion_spec h hsorted
  obtain ⟨-, -, -, hins⟩ := checks_of_umapAddRegion h
  obtain ⟨pre, post, before, next, rfl, rfl, -, -, hne, hsel⟩ := insertRegion_eq_some hins
  refine ⟨hsorted', hmem, fun x hx => ?_, hne, fun hva => ?_⟩
  · obtain ⟨-, htail, hcross⟩ := sorted_append.mp hsorted'
    rcases List.mem_append.mp hx with hx | hx
    · exact .inl (hcross x hx _ (by simp))
    · exact .inr ((sorted_cons.mp htail).1 x hx)
  · rw [hsel] at hne ⊢
    exact selectVaInRange_of_ne_zero hva hne

end

/-! ## Regions one behind the other -/

/-- The regions follow each other from one address to another and continue each other in their
object from an offset on. -/
def Consecutive : ℕ → ℕ → List Region → ℕ → Prop
  | va, _, [], endVa => va = endVa
  | va, offset, r :: rs, endVa =>
    (r.va = va ∧ r.offset = offset ∧ 0 < r.size) ∧ Consecutive r.endVa (offset + r.size) rs endVa

/-- The regions put one behind the other from an address on. -/
def relocate : ℕ → List Region → List Region
  | _, [] => []
  | va, r :: rs => { r with va := va } :: relocate (va + r.size) rs

/-- A region of a range that begins at one address, in a range that begins at another. -/
def Region.moveTo (oldVa va : ℕ) (r : Region) : Region := { r with va := va + (r.va - oldVa) }

section

variable {va offset endVa : ℕ} {regs regs' : List Region}

lemma Consecutive.le (h : Consecutive va offset regs endVa) : va ≤ endVa := by
  induction regs generalizing va offset with
  | nil => exact h.le
  | cons r regs ih =>
    obtain ⟨⟨rfl, -⟩, hrest⟩ := h
    exact r.va_le_endVa.trans (ih hrest)

lemma Consecutive.append (h : Consecutive va offset (regs ++ regs') endVa) :
    ∃ mid, Consecutive va offset regs mid
      ∧ Consecutive mid (offset + (mid - va)) regs' endVa := by
  induction regs generalizing va offset with
  | nil => exact ⟨va, rfl, by simpa using h⟩
  | cons r regs ih =>
    obtain ⟨⟨rfl, rfl, hpos⟩, hrest⟩ := h
    obtain ⟨mid, hfirst, hsecond⟩ := ih hrest
    refine ⟨mid, ⟨⟨rfl, rfl, hpos⟩, hfirst⟩, ?_⟩
    have hle := hfirst.le
    have heq : r.offset + (mid - r.va) = r.offset + r.size + (mid - r.endVa) := by
      simp only [Region.endVa] at *
      omega
    rwa [heq]

section

variable (h : Consecutive va offset regs endVa)

include h

/-- The regions lie between the two addresses and have the offsets of their places. -/
lemma Consecutive.forall_mem :
    ∀ r ∈ regs, va ≤ r.va ∧ r.endVa ≤ endVa ∧ 0 < r.size ∧ r.offset = offset + (r.va - va) := by
  induction regs generalizing va offset with
  | nil => simp
  | cons r regs ih =>
    obtain ⟨⟨rfl, rfl, hpos⟩, hrest⟩ := h
    intro x hx
    rcases List.mem_cons.mp hx with rfl | hx
    · exact ⟨le_rfl, hrest.le, hpos, by simp⟩
    · obtain ⟨hlow, hhigh, hxpos, hoffset⟩ := ih hrest x hx
      simp only [Region.endVa] at *
      omega

lemma Consecutive.exists_contains {a : ℕ} (hlow : va ≤ a) (hhigh : a < endVa) :
    ∃ r ∈ regs, r.Contains a := by
  induction regs generalizing va offset with
  | nil =>
    have heq : va = endVa := h
    omega
  | cons r regs ih =>
    obtain ⟨⟨rfl, rfl, hpos⟩, hrest⟩ := h
    rcases lt_or_ge a r.endVa with ha | ha
    · exact ⟨r, by simp, hlow, ha⟩
    · obtain ⟨x, hx, hcontains⟩ := ih hrest ha
      exact ⟨x, by simp [hx], hcontains⟩

lemma Consecutive.relocate_eq : relocate va regs = regs := by
  induction regs generalizing va offset with
  | nil => rfl
  | cons r regs ih =>
    obtain ⟨⟨rfl, rfl, hpos⟩, hrest⟩ := h
    rw [relocate, show r.va + r.size = r.endVa from rfl, ih hrest]

end

lemma relocate_append : relocate va (regs ++ regs')
    = relocate va regs ++ relocate (va + (regs.map Region.size).sum) regs' := by
  induction regs generalizing va with
  | nil => rfl
  | cons r regs ih =>
    rw [List.cons_append, relocate, relocate, ih, List.map_cons, List.sum_cons, Nat.add_assoc]
    rfl

lemma Consecutive.sum_size (h : Consecutive va offset regs endVa) :
    va + (regs.map Region.size).sum = endVa := by
  induction regs generalizing va offset with
  | nil => exact h
  | cons r regs ih =>
    obtain ⟨⟨rfl, rfl, hpos⟩, hrest⟩ := h
    rw [List.map_cons, List.sum_cons, ← Nat.add_assoc]
    exact ih hrest

lemma consecutive_of_covers (hsorted : Sorted regs) (hle : va ≤ endVa)
    (hmem : ∀ r ∈ regs, va ≤ r.va ∧ r.endVa ≤ endVa ∧ 0 < r.size
      ∧ r.offset = offset + (r.va - va))
    (hcovers : ∀ a, va ≤ a → a < endVa → ∃ r ∈ regs, r.Contains a) :
    Consecutive va offset regs endVa := by
  induction regs generalizing va offset with
  | nil =>
    rcases eq_or_lt_of_le hle with heq | hlt
    · exact heq
    · obtain ⟨r, hr, -⟩ := hcovers va le_rfl hlt
      cases hr
  | cons r regs ih =>
    obtain ⟨hr, hrest⟩ := sorted_cons.mp hsorted
    obtain ⟨hlow, hhigh, hpos, hoffset⟩ := hmem r (by simp)
    -- the first address can only be in the first region
    have hva : r.va = va := by
      obtain ⟨x, hx, hcontains⟩ := hcovers va le_rfl (by simp only [Region.endVa] at hhigh; omega)
      rcases List.mem_cons.mp hx with rfl | hx
      · exact le_antisymm hcontains.1 hlow
      · have hx' := hr x hx
        simp only [Region.Contains, Region.endVa] at *
        omega
    subst hva
    refine ⟨⟨rfl, by omega, hpos⟩, ih hrest hhigh (fun x hx => ?_) fun a ha hlt => ?_⟩
    · obtain ⟨-, hxhigh, hxpos, hxoffset⟩ := hmem x (by simp [hx])
      have hx' := hr x hx
      simp only [Region.endVa] at *
      omega
    · obtain ⟨x, hx, hcontains⟩ := hcovers a (r.va_le_endVa.trans ha) hlt
      rcases List.mem_cons.mp hx with rfl | hx
      · exact absurd hcontains.2 (by omega)
      · exact ⟨x, hx, hcontains⟩

end

/-! ## Going back -/

/-- What the end of `vm_remap` leaves after a failure: all regions are in the list again, one
behind the other, and away from what was there before. -/
structure Restored (rs : List Region) (va : ℕ) (regs rs' : List Region) : Prop where
  sorted : Sorted rs'
  mem : ∀ x, x ∈ rs' ↔ x ∈ rs ∨ x ∈ relocate va regs
  apart : ∀ x ∈ rs, ∀ y ∈ relocate va regs, x.Apart y

lemma returns_restoreMap (env : VmEnv) (paged : Bool) {rs regs : List Region} {va : ℕ}
    (hsorted : Sorted rs) (hva : va ≠ 0) {E : Vm → Prop} :
    Returns (fun s => s.regions = rs) (restoreMap env paged va regs)
      (fun _ s => Restored rs va regs s.regions) E := by
  induction regs generalizing rs va with
  | nil =>
    refine .of_triple (Triple.pure fun s hs => ?_)
    rw [hs]
    exact ⟨hsorted, by simp [relocate], by simp [relocate]⟩
  | cons r regs ih =>
    rw [restoreMap]
    refine .get_bind fun s hs => ?_
    rw [hs]
    split
    · exact .panic
    rename_i va' rs' hadd
    have hadds := adds_of_umapAddRegion hadd hsorted
    obtain rfl : va' = va := hadds.va_eq hva
    refine .setRegions_bind (.bind (returns_attemptOrPanic (I := (· = rs')) env) fun _ =>
      .bind (returns_attemptOrPanicIf (I := (· = rs')) env paged) fun _ => ?_)
    intro t ht
    obtain ⟨hok, herr⟩ := ih hadds.sorted (by omega : va' + r.size ≠ 0) t ht
    refine ⟨fun u t' h => ?_, herr⟩
    obtain ⟨hsorted', hmem, hapart⟩ := hok u t' h
    refine ⟨hsorted', fun x => ?_, fun x hx y hy => ?_⟩
    · rw [hmem, hadds.mem, relocate, List.mem_cons, or_comm (a := x = _), or_assoc]
    · rcases List.mem_cons.mp hy with rfl | hy
      · exact hadds.apart x hx
      · exact hapart x ((hadds.mem x).mpr (.inr hx)) y hy

/-! ## Going forth -/

/-- Some regions of the range are at their new place, away from those outside of the range. -/
structure Linked (outside : List Region) (oldVa va : ℕ) (done rs : List Region) : Prop where
  sorted : Sorted rs
  mem : ∀ x, x ∈ rs ↔ x ∈ outside ∨ x ∈ done.map (Region.moveTo oldVa va)
  apart : ∀ y ∈ outside, ∀ x ∈ done, y.Apart (x.moveTo oldVa va)

/-- What a failure leaves once the first region has been put in: all as it was, if the new place is
the old one, and else a region of the range at its new place. -/
structure Failed (outside total : List Region) (oldVa va : ℕ) (rs : List Region) : Prop where
  sorted : Sorted rs
  back : va = oldVa → ∀ x, x ∈ rs ↔ x ∈ outside ∨ x ∈ total
  stranded : va ≠ oldVa →
    ∃ x ∈ total, x.moveTo oldVa va ∈ rs ∧ ∀ y ∈ outside, y.Apart (x.moveTo oldVa va)

lemma Region.not_apart {r r' : Region} (hva : r.va = r'.va) (hpos : 0 < r.size)
    (hpos' : 0 < r'.size) : ¬ r.Apart r' := by
  simp only [Region.Apart, Region.endVa]
  omega

lemma Region.moveTo_self {oldVa : ℕ} {r : Region} (h : oldVa ≤ r.va) : r.moveTo oldVa oldVa = r := by
  have hva : oldVa + (r.va - oldVa) = r.va := by omega
  rw [Region.moveTo, hva]

section

variable {outside total init rest : List Region} {d : Region} {oldVa va offset endVa : ℕ}

lemma Consecutive.map_moveTo_self (h : Consecutive oldVa offset total endVa) :
    total.map (Region.moveTo oldVa oldVa) = total :=
  (List.map_congr_left fun r hr => Region.moveTo_self (h.forall_mem r hr).1).trans
    (List.map_id total)

/-- The region linked in last is not among those that are collected. -/
lemma Consecutive.moveTo_not_mem (h : Consecutive oldVa offset (init ++ d :: rest) endVa) :
    d.moveTo oldVa va ∉ init.map (Region.moveTo oldVa va) := by
  obtain ⟨mid, hinit, ⟨rfl, -⟩, -⟩ := h.append
  intro hmem
  obtain ⟨x, hx, heq⟩ := List.mem_map.mp hmem
  obtain ⟨hlow, hhigh, hpos, -⟩ := hinit.forall_mem x hx
  have hva : va + (x.va - oldVa) = va + (d.va - oldVa) := congrArg Region.va heq
  simp only [Region.endVa] at hhigh
  omega

lemma Consecutive.mem_relocate_append (h : Consecutive oldVa offset (init ++ d :: rest) endVa)
    (r : Region) (regs : List Region) :
    { r with va := d.va } ∈ relocate oldVa (init ++ r :: regs) := by
  obtain ⟨mid, hinit, ⟨rfl, -⟩, -⟩ := h.append
  rw [relocate_append, hinit.sum_size]
  simp [relocate]

lemma Linked.failed {rs rs' : List Region} (hcons : Consecutive oldVa offset total endVa)
    (htotal : total = init ++ d :: rest) (h : Linked outside oldVa va (init ++ [d]) rs)
    (hrestored : Restored (rs.diff (init.map (Region.moveTo oldVa va))) oldVa
      (init.map (Region.moveTo oldVa va) ++ rest) rs') :
    Failed outside total oldVa va rs' := by
  subst htotal
  have hstays : d.moveTo oldVa va ∈ rs.diff (init.map (Region.moveTo oldVa va)) :=
    List.mem_diff_of_mem ((h.mem _).mpr (.inr (by simp))) hcons.moveTo_not_mem
  refine ⟨hrestored.sorted, ?_, fun _ => ⟨d, by simp, (hrestored.mem _).mpr (.inl hstays), ?_⟩⟩
  · rintro rfl
    obtain ⟨mid, hinit, ⟨rfl, -, hpos⟩, -⟩ := hcons.append
    have hmem := hrestored.mem
    have hapart := hrestored.apart _ hstays
    rw [hinit.map_moveTo_self] at hmem hapart hstays
    rw [Region.moveTo_self hinit.le] at hstays hapart
    cases rest with
    | cons r rest =>
      -- the next region cannot be put back: its place is taken
      have hr := hcons.forall_mem r (by simp)
      exact absurd (hapart _ (hcons.mem_relocate_append r rest))
        (Region.not_apart rfl hpos hr.2.2.1)
    | nil =>
      intro x
      rw [hmem, List.append_nil, hinit.relocate_eq, List.mem_append, List.mem_singleton]
      have hrs := h.mem x
      rw [List.map_append, hinit.map_moveTo_self, List.map_singleton,
        Region.moveTo_self hinit.le, List.mem_append, List.mem_singleton] at hrs
      constructor
      · rintro (hx | hx)
        · exact hrs.mp (List.diff_subset _ _ hx)
        · exact .inr (.inl hx)
      · intro hx
        by_cases hinner : x ∈ init
        · exact .inr hinner
        · exact .inl (List.mem_diff_of_mem (hrs.mpr hx) hinner)
  · exact fun y hy => h.apart y hy d (by simp)

lemma Linked.snoc {rs rs' : List Region} {r : Region} {v : ℕ}
    (h : Linked outside oldVa va init rs)
    (hadds : Adds { r with va := v } rs (va + (r.va - oldVa)) rs') :
    Linked outside oldVa va (init ++ [r]) rs' := by
  refine ⟨hadds.sorted, fun x => ?_, fun y hy x hx => ?_⟩
  · rw [hadds.mem, h.mem, List.map_append, List.mem_append, List.map_singleton,
      List.mem_singleton, or_comm, or_assoc]
    rfl
  · rcases List.mem_append.mp hx with hx | hx
    · exact h.apart y hy x hx
    · obtain rfl := List.mem_singleton.mp hx
      exact hadds.apart y ((h.mem y).mpr (.inl hy))

end

/-! ## The loop -/

section

variable {env : VmEnv} {paged : Bool} {newVa oldVa len padBegin padEnd : ℕ}

/-- Where the loop of `vm_remap` puts the next region. -/
def nextPlace (env : VmEnv) (newVa len padBegin padEnd : ℕ) (added : List Region) (r : Region)
    (rs : List Region) : Except VmError (ℕ × List Region) :=
  match added.getLast? with
  | some last => umapAddRegion env { r with va := last.endVa } 0 0 0 rs
  | none => umapAddRegion env { r with va := newVa } padBegin ((padEnd + len - r.size) % wordSize) 0 rs

lemma remapRegions_cons (added regs : List Region) (r : Region) :
    remapRegions env paged newVa oldVa len padBegin padEnd added (r :: regs) = (do
      let s ← get
      match nextPlace env newVa len padBegin padEnd added r s.regions with
      | .error e =>
        setRegions (s.regions.diff added.dropLast)
        restoreMap env paged oldVa (added.dropLast ++ r :: regs)
        throw (.error e)
      | .ok (va, rs) =>
        setRegions rs
        let allocPgt ← draw env
        let pager ← drawIf env (allocPgt.isNone && paged)
        match allocPgt <|> pager with
        | some e =>
          setRegions (rs.diff added)
          restoreMap env paged oldVa (added ++ regs)
          throw (.error e)
        | none =>
          remapRegions env paged newVa oldVa len padBegin padEnd (added ++ [{ r with va := va }])
            regs) := rfl

variable {outside total done regs rs : List Region} {r : Region} {va offset endVa : ℕ}

lemma returns_backOut {e : VmError} {P F : Vm → Prop} {Q : List Region → Vm → Prop}
    (hsorted : Sorted rs) (hold : oldVa ≠ 0)
    (h : ∀ rs', Restored rs oldVa regs rs' → ∀ t : Vm, t.regions = rs' → F t) :
    Returns P (do
      setRegions rs
      restoreMap env paged oldVa regs
      throw (.error e)) Q F :=
  .setRegions_bind (.bind (returns_restoreMap env paged hsorted hold) fun _ =>
    .of_triple (Triple.throw fun t ht => h _ ht t rfl))

lemma Linked.next {rs' : List Region} {va' : ℕ} (h : Linked outside oldVa va done rs)
    (hcons : Consecutive oldVa offset (done ++ r :: regs) endVa) (hva : va ≠ 0)
    (hfirst : done = [] → va' = va)
    (hplace : nextPlace env newVa len padBegin padEnd (done.map (Region.moveTo oldVa va)) r rs
      = .ok (va', rs')) :
    va' = va + (r.va - oldVa) ∧ Linked outside oldVa va (done ++ [r]) rs' := by
  obtain ⟨mid, hdone, ⟨rfl, -⟩, -⟩ := hcons.append
  rcases List.eq_nil_or_concat' done with rfl | ⟨init, d, rfl⟩
  · have hold : oldVa = r.va := hdone
    have heq : va' = va + (r.va - oldVa) := by rw [hfirst rfl, hold, Nat.sub_self, Nat.add_zero]
    subst heq
    exact ⟨rfl, h.snoc (adds_of_umapAddRegion hplace h.sorted)⟩
  · -- the last one of those that are there ends where this one has to begin
    have hend : (d.moveTo oldVa va).endVa = va + (r.va - oldVa) := by
      obtain ⟨mid, hinit, ⟨rfl, -⟩, hlast⟩ := hdone.append
      have hr : d.endVa = r.va := hlast
      have hle := hinit.le
      simp only [Region.moveTo, Region.endVa] at *
      omega
    rw [nextPlace, List.map_append, List.map_singleton, List.getLast?_concat] at hplace
    have hadds := adds_of_umapAddRegion hplace h.sorted
    have hne : (d.moveTo oldVa va).endVa ≠ 0 := by
      rw [hend]
      omega
    have heq := hadds.va_eq hne
    simp only [hend] at heq hadds
    subst heq
    exact ⟨rfl, h.snoc hadds⟩

/-- The loop, once there is a place for the first region: all regions are at the new place, or the
loop failed on the way. -/
lemma returns_remapRegions (paged : Bool) (hcons : Consecutive oldVa offset total endVa)
    (hold : oldVa ≠ 0) (hva : va ≠ 0) (htotal : total = done ++ regs)
    (hfirst : ∀ r rest, regs = r :: rest → done = [] →
      ∃ rs', nextPlace env newVa len padBegin padEnd [] r outside = .ok (va, rs')) :
    Returns (fun s => Linked outside oldVa va done s.regions ∧ (done = [] → s.regions = outside))
      (remapRegions env paged newVa oldVa len padBegin padEnd
        (done.map (Region.moveTo oldVa va)) regs)
      (fun added s => added = total.map (Region.moveTo oldVa va)
        ∧ Linked outside oldVa va total s.regions)
      (fun s => Failed outside total oldVa va s.regions) := by
  induction regs generalizing done with
  | nil =>
    rw [List.append_nil] at htotal
    subst htotal
    exact .of_triple (Triple.pure fun s hs => ⟨rfl, hs.1⟩)
  | cons r regs ih =>
    rw [remapRegions_cons]
    refine .get_bind fun s hs => ?_
    obtain ⟨hlinked, hempty⟩ := hs
    have hmid := hcons
    rw [htotal] at hmid
    obtain ⟨mid, hdone, ⟨rfl, -⟩, -⟩ := hmid.append
    cases hplace : nextPlace env newVa len padBegin padEnd (done.map (Region.moveTo oldVa va)) r
        s.regions with
    | error e =>
      rcases List.eq_nil_or_concat' done with rfl | ⟨init, d, rfl⟩
      · obtain ⟨rs', hrs'⟩ := hfirst r regs rfl rfl
        rw [hempty rfl, List.map_nil, hrs'] at hplace
        cases hplace
      · rw [List.map_append, List.map_singleton, List.dropLast_concat]
        refine returns_backOut (hlinked.sorted.sublist (List.diff_sublist _ _)) hold ?_
        rintro rs' hrestored t rfl
        exact hlinked.failed hcons (by rw [htotal, List.append_assoc, List.singleton_append])
          hrestored
    | ok p =>
      obtain ⟨va', rs'⟩ := p
      have hva' : done = [] → va' = va := by
        rintro rfl
        obtain ⟨rs'', hrs''⟩ := hfirst r regs rfl rfl
        rw [hempty rfl, List.map_nil, hrs''] at hplace
        exact (Prod.mk.inj (Except.ok.inj hplace)).1.symm
      obtain ⟨rfl, hlinked'⟩ := hlinked.next (htotal ▸ hcons) hva hva' hplace
      refine .setRegions_bind (.bind (returns_draw (I := (· = rs')) env) fun allocPgt =>
        .bind (returns_drawIf (I := (· = rs')) env _) fun pager => ?_)
      cases allocPgt <|> pager with
      | some e =>
        refine returns_backOut (hlinked'.sorted.sublist (List.diff_sublist _ _)) hold ?_
        rintro rs'' hrestored t rfl
        exact hlinked'.failed hcons htotal hrestored
      | none =>
        have hnext := @ih (done ++ [r]) (by simp [htotal]) (by simp)
        rw [List.map_append, List.map_singleton] at hnext
        intro t ht
        exact hnext t ⟨by rw [ht]; exact hlinked', by simp⟩

end

/-! ## The range that is taken out -/

section

variable {endVa : ℕ} {rs : List Region} {r : Region}

lemma mem_takeWhile_endVa (hsorted : Sorted rs) (hr : r ∈ rs) (hle : r.endVa ≤ endVa) :
    r ∈ rs.takeWhile fun r => r.endVa ≤ endVa := by
  induction rs with
  | nil => cases hr
  | cons x rs ih =>
    obtain ⟨hx, hrs⟩ := sorted_cons.mp hsorted
    rcases List.mem_cons.mp hr with rfl | hr
    · simp [hle]
    · have hxle : x.endVa ≤ endVa := (hx r hr).trans (r.va_le_endVa.trans hle)
      rw [List.takeWhile_cons, if_pos (decide_eq_true hxle)]
      exact List.mem_cons_of_mem _ (ih hrs hr)

lemma lt_endVa_of_mem_dropWhile (hsorted : Sorted rs)
    (hr : r ∈ rs.dropWhile fun r => r.endVa ≤ endVa) : endVa < r.endVa := by
  induction rs with
  | nil => cases hr
  | cons x rs ih =>
    obtain ⟨hx, hrs⟩ := sorted_cons.mp hsorted
    by_cases hxle : x.endVa ≤ endVa
    · rw [List.dropWhile_cons, if_pos (decide_eq_true hxle)] at hr
      exact ih hrs hr
    · rw [List.dropWhile_cons, if_neg (by simpa using hxle)] at hr
      rcases List.mem_cons.mp hr with rfl | hr
      · omega
      · exact (not_le.mp hxle).trans_le ((hx r hr).trans r.va_le_endVa)

end

lemma Checked.exists_page {range : VaRange} {rs post : List Region} {r₀ : Region} {va endVa : ℕ}
    (h : Checked cmpRegionForRemap va endVa rs r₀ post) (hwf : WellFormed range rs) {a : ℕ}
    (hlow : va ≤ a) (hhigh : a < endVa) :
    ∃ p, pageMap rs a = some p ∧ p.offset = r₀.offset + (va - r₀.va) + (a - va) := by
  -- how far the offsets are ahead of the addresses does not change along the range
  have hkey : ∀ r rn : Region, r.endVa = rn.va → cmpRegionForRemap r₀ r rn = true →
      (rn.offset : ℤ) - rn.va = r.offset - r.va := by
    intro r rn hend hcmp
    have hoffset : rn.offset = r.offset + r.size := (of_decide_eq_true hcmp).2.2.2
    simp only [Region.endVa] at hend
    omega
  obtain ⟨x, hx, hcontains, heq⟩ := h.exists_contains _ hkey hlow hhigh
  refine ⟨x.page a, hwf.disjoint.pageMap_eq_some_iff.mpr ⟨x, hx, hcontains, rfl⟩, ?_⟩
  have hr0 := h.low
  have ha := hcontains.1
  show x.offset + (a - x.va) = _
  omega

lemma SplitRange.consecutive {rs : List Region} {va endVa offset : ℕ}
    {p : List Region × List Region} (h : SplitRange rs va endVa p) (hsorted : Sorted rs)
    (hpos : ∀ r ∈ rs, 0 < r.size) (hle : va ≤ endVa)
    (hpages : ∀ a, va ≤ a → a < endVa →
      ∃ q, pageMap rs a = some q ∧ q.offset = offset + (a - va)) :
    Consecutive va offset (p.2.takeWhile fun r => r.endVa ≤ endVa) endVa := by
  have hcut := h.cutOf.sorted
  have hrest := (sorted_append.mp hcut).2.1
  have hmap := h.pageMap_eq
  refine consecutive_of_covers (hrest.sublist (List.takeWhile_sublist _)) hle ?_ ?_
  · intro r hr
    have hr' := (List.takeWhile_sublist _).subset hr
    have hend : r.endVa ≤ endVa := by simpa using List.mem_takeWhile_imp hr
    have hlow := h.behind r hr'
    obtain ⟨x, hx, hpart⟩ := h.cutOf.part r (List.mem_append_right _ hr')
    have hrpos := hpart.pos (hpos x hx)
    -- the region is what is mapped at its own address
    have hcontains : r.Contains r.va := ⟨le_rfl, by simp only [Region.endVa]; omega⟩
    have hpage := hcut.pageMap_eq_some_iff.mpr ⟨r, List.mem_append_right _ hr', hcontains, rfl⟩
    obtain ⟨q, hq, hoffset⟩ := hpages r.va hlow (hcontains.2.trans_le hend)
    rw [hmap, hq, Option.some.injEq] at hpage
    subst hpage
    have hroffset : r.offset + (r.va - r.va) = offset + (r.va - va) := hoffset
    exact ⟨hlow, hend, hrpos, by omega⟩
  · intro a hlow hhigh
    obtain ⟨q, hq, -⟩ := hpages a hlow hhigh
    rw [← hmap, hcut.pageMap_eq_some_iff] at hq
    obtain ⟨x, hx, hcontains, -⟩ := hq
    rcases List.mem_append.mp hx with hx | hx
    · exact absurd hcontains.2 (by have := h.before x hx; omega)
    · rcases h.uncut hsorted x hx with hend | hend
      · exact ⟨x, mem_takeWhile_endVa hrest hx hend, hcontains⟩
      · exact absurd hcontains.1 (by omega)

/-- The regions of a range are taken out of a list. -/
structure Taken (rs : List Region) (oldVa endVa offset : ℕ) (outside total : List Region) : Prop
    where
  sorted : Sorted outside
  consecutive : Consecutive oldVa offset total endVa
  apart : ∀ y ∈ outside, y.endVa ≤ oldVa ∨ endVa ≤ y.va
  mapped : ∀ a p, pageMap rs a = some p
    ↔ ∃ x, (x ∈ outside ∨ x ∈ total) ∧ x.Contains a ∧ x.page a = p
  old_ne : oldVa ≠ 0

lemma taken_of_splitVmRange {range : VaRange} {env : VmEnv} {s t : Vm} {oldVa len : ℕ}
    {pre rest : List Region} (hwf : WellFormed range s.regions) (hlen : 0 < len)
    (h : splitVmRange env oldVa len cmpRegionForRemap s = .ok (pre, rest) t) :
    ∃ offset, Taken s.regions oldVa (oldVa + len) offset
      (pre ++ rest.dropWhile fun r => r.endVa ≤ oldVa + len)
      (rest.takeWhile fun r => r.endVa ≤ oldVa + len) := by
  obtain ⟨-, hsplit, -⟩ :=
    (splitVmRange_spec hwf.disjoint env (by omega) cmpRegionForRemap s rfl).1 _ t h
  obtain ⟨r₀, post, hchecked⟩ := checked_of_splitVmRange h
  have hsorted := hsplit.cutOf.sorted
  have hrest := (sorted_append.mp hsorted).2.1
  refine ⟨r₀.offset + (oldVa - r₀.va), ?_, ?_, ?_, ?_, ?_⟩
  · exact hsorted.sublist ((List.dropWhile_sublist _).append_left pre)
  · exact hsplit.consecutive hwf.disjoint (fun r hr => (hwf.regions r hr).pos) (by omega)
      fun a hlow hhigh => hchecked.exists_page hwf hlow hhigh
  · intro y hy
    rcases List.mem_append.mp hy with hy | hy
    · exact .inl (hsplit.before y hy)
    · have hlt := lt_endVa_of_mem_dropWhile hrest hy
      rcases hsplit.uncut hwf.disjoint y ((List.dropWhile_sublist _).subset hy) with hend | hend
      · omega
      · exact .inr hend
  · intro a p
    rw [← hsplit.pageMap_eq, hsorted.pageMap_eq_some_iff]
    refine exists_congr fun x => and_congr_left fun _ => ?_
    have hparts : x ∈ rest ↔ x ∈ rest.takeWhile (fun r => r.endVa ≤ oldVa + len)
        ∨ x ∈ rest.dropWhile fun r => r.endVa ≤ oldVa + len := by
      rw [← List.mem_append, List.takeWhile_append_dropWhile]
    rw [List.mem_append, List.mem_append, hparts, or_assoc, or_comm (a := x ∈ rest.takeWhile _)]
  · have hbase := (hwf.regions r₀ hchecked.mem).base_le
    have := range.base_pos
    have := hchecked.low
    omega

/-! ## What the map of pages shows -/

/-- A range of pages has moved: it is found at the new place and no longer at the old one, no page
was there before, and all others are unchanged. -/
structure Moved (oldVa newVa len : ℕ) (m m' : ℕ → Option Page) : Prop where
  arrived : ∀ i < len, m' (newVa + i) = m (oldVa + i)
  gone : ∀ a, oldVa ≤ a → a < oldVa + len → ¬ (newVa ≤ a ∧ a < newVa + len) → m' a = none
  free : ∀ a, newVa ≤ a → a < newVa + len → ¬ (oldVa ≤ a ∧ a < oldVa + len) → m a = none
  others : ∀ a, ¬ (oldVa ≤ a ∧ a < oldVa + len) → ¬ (newVa ≤ a ∧ a < newVa + len) → m' a = m a

section

variable {rs rs' outside total : List Region} {oldVa endVa offset va len : ℕ}

section

variable (h : Taken rs oldVa endVa offset outside total)

include h

lemma Taken.pageMap_eq (hsorted : Sorted rs') (hmem : ∀ x, x ∈ rs' ↔ x ∈ outside ∨ x ∈ total) :
    pageMap rs' = pageMap rs := by
  funext a
  refine Option.ext fun p => ?_
  rw [hsorted.pageMap_eq_some_iff, h.mapped]
  simp only [hmem]

lemma Taken.pageMap_of_restored (hrestored : Restored outside oldVa total rs') :
    pageMap rs' = pageMap rs := by
  refine h.pageMap_eq hrestored.sorted fun x => ?_
  rw [hrestored.mem, h.consecutive.relocate_eq]

/-- In the old range only the regions that are taken out have addresses. -/
lemma Taken.exists_total {a : ℕ} (hlow : oldVa ≤ a) (hhigh : a < endVa) :
    ∃ x ∈ total, x.Contains a ∧ pageMap rs a = some (x.page a) := by
  obtain ⟨x, hx, hcontains⟩ := h.consecutive.exists_contains hlow hhigh
  exact ⟨x, hx, hcontains, (h.mapped a _).mpr ⟨x, .inr hx, hcontains, rfl⟩⟩

lemma Taken.pageMap_outside {a : ℕ} (ha : ¬ (oldVa ≤ a ∧ a < endVa)) :
    pageMap rs a = pageMap outside a := by
  refine Option.ext fun p => ?_
  rw [h.mapped, h.sorted.pageMap_eq_some_iff]
  refine exists_congr fun x => and_congr_left fun hx => or_iff_left fun htotal => ha ?_
  obtain ⟨hlow, hhigh, -⟩ := h.consecutive.forall_mem x htotal
  exact ⟨hlow.trans hx.1.1, hx.1.2.trans_le hhigh⟩

end

lemma contains_moveTo {r : Region} {i : ℕ} (va : ℕ) (hlow : oldVa ≤ r.va) :
    (r.moveTo oldVa va).Contains (va + i) ↔ r.Contains (oldVa + i) := by
  simp only [Region.Contains, Region.moveTo, Region.endVa]
  omega

lemma page_moveTo {r : Region} {i : ℕ} (hlow : oldVa ≤ r.va) (h : r.Contains (oldVa + i)) :
    (r.moveTo oldVa va).page (va + i) = r.page (oldVa + i) := by
  have hplace : r.offset + (va + i - (va + (r.va - oldVa))) = r.offset + (oldVa + i - r.va) := by
    have := h.1
    omega
  simp only [Region.page, Region.moveTo, hplace]

lemma Taken.moved (h : Taken rs oldVa (oldVa + len) offset outside total)
    (hlinked : Linked outside oldVa va total rs') :
    Moved oldVa va len (pageMap rs) (pageMap rs') := by
  have hinside : ∀ x ∈ total, ∀ a, (x.moveTo oldVa va).Contains a → va ≤ a ∧ a < va + len := by
    intro x hx a ha
    obtain ⟨hlow, hhigh, -⟩ := h.consecutive.forall_mem x hx
    simp only [Region.Contains, Region.moveTo, Region.endVa] at ha hhigh
    omega
  -- outside of the new range there is what the other regions map
  have hothers : ∀ a, ¬ (va ≤ a ∧ a < va + len) → pageMap rs' a = pageMap outside a := by
    intro a ha
    refine Option.ext fun p => ?_
    rw [hlinked.sorted.pageMap_eq_some_iff, h.sorted.pageMap_eq_some_iff]
    refine exists_congr fun x => and_congr_left fun hx => ?_
    rw [hlinked.mem]
    refine or_iff_left fun hmem => ha ?_
    obtain ⟨y, hy, rfl⟩ := List.mem_map.mp hmem
    exact hinside y hy a hx.1
  refine ⟨fun i hi => ?_, fun a hlow hhigh hnew => ?_, fun a hlow hhigh hold => ?_,
    fun a hold hnew => ?_⟩
  · obtain ⟨x, hx, hcontains, hpage⟩ := h.exists_total (Nat.le_add_right oldVa i) (by omega)
    have hxlow := (h.consecutive.forall_mem x hx).1
    rw [hpage, hlinked.sorted.pageMap_eq_some_iff]
    exact ⟨x.moveTo oldVa va, (hlinked.mem _).mpr (.inr (List.mem_map_of_mem hx)),
      (contains_moveTo va hxlow).mpr hcontains, page_moveTo hxlow hcontains⟩
  · rw [hothers a hnew]
    refine pageMap_eq_none_iff.mpr fun y hy hcontains => ?_
    have := h.apart y hy
    simp only [Region.Contains] at hcontains
    omega
  · rw [h.pageMap_outside hold]
    refine pageMap_eq_none_iff.mpr fun y hy hcontains => ?_
    obtain ⟨i, rfl⟩ := Nat.exists_eq_add_of_le hlow
    obtain ⟨x, hx, hxcontains, -⟩ := h.exists_total (Nat.le_add_right oldVa i) (by omega)
    have hmoved := (contains_moveTo va (h.consecutive.forall_mem x hx).1).mpr hxcontains
    have hapart := hlinked.apart y hy x hx
    simp only [Region.Contains, Region.Apart] at hcontains hmoved hapart
    omega
  · rw [hothers a hnew, h.pageMap_outside hold]

/-- A region that is left at the new place shows: it belongs elsewhere in its object. -/
lemma Taken.pageMap_of_failed (h : Taken rs oldVa endVa offset outside total)
    (hfailed : Failed outside total oldVa va rs') : pageMap rs' = pageMap rs ↔ va = oldVa := by
  refine ⟨fun heq => ?_, fun heq => h.pageMap_eq hfailed.sorted (hfailed.back heq)⟩
  by_contra hne
  obtain ⟨x, hx, hmem, hapart⟩ := hfailed.stranded hne
  obtain ⟨hlow, hhigh, hpos, hoffset⟩ := h.consecutive.forall_mem x hx
  have hcontains : (x.moveTo oldVa va).Contains (va + (x.va - oldVa)) := by
    simp only [Region.Contains, Region.moveTo, Region.endVa]
    omega
  have hpage := hfailed.sorted.pageMap_eq_some_iff.mpr ⟨_, hmem, hcontains, rfl⟩
  rw [heq, h.mapped] at hpage
  obtain ⟨y, hy, hycontains, hypage⟩ := hpage
  rcases hy with hy | hy
  · have hyapart := hapart y hy
    simp only [Region.Apart, Region.Contains] at hyapart hcontains hycontains
    omega
  · obtain ⟨hylow, -, -, hyoffset⟩ := h.consecutive.forall_mem y hy
    have hplace : y.offset + (va + (x.va - oldVa) - y.va)
        = x.offset + (va + (x.va - oldVa) - (va + (x.va - oldVa))) :=
      congrArg Page.offset hypage
    have := hycontains.1
    omega

end

/-! ## All or nothing -/

/-- Where `vm_remap` links the first region in, if it gets so far. -/
def firstPlace (env : VmEnv) (newVa oldVa len padBegin padEnd : ℕ) (s : Vm) : Option ℕ :=
  if len = 0 ∨ ¬ (PageAligned len ∧ PageAligned oldVa) then none
  else
    match splitVmRange env oldVa len cmpRegionForRemap s with
    | .ok (pre, r :: rest) _ =>
      (nextPlace env newVa len padBegin padEnd [] r
        (pre ++ (r :: rest).dropWhile fun r => r.endVa ≤ oldVa + len)).toOption.map Prod.fst
    | _ => none

section

variable {env : VmEnv} {newVa oldVa len padBegin padEnd : ℕ} {s : Vm}

lemma returns_relocate {rs outside regs : List Region} {r : Region} {offset : ℕ} (paged : Bool)
    (h : Taken rs oldVa (oldVa + len) offset outside (r :: regs)) :
    Returns (fun s => s.regions = outside)
      (do
        let added ← remapRegions env paged newVa oldVa len padBegin padEnd [] (r :: regs)
        return (added.head?.map Region.va).getD 0)
      (fun va t => Moved oldVa va len (pageMap rs) (pageMap t.regions))
      (fun t => pageMap t.regions = pageMap rs
        ↔ ∀ va, (nextPlace env newVa len padBegin padEnd [] r outside).toOption.map Prod.fst
          = some va → va = oldVa) := by
  cases hplace : nextPlace env newVa len padBegin padEnd [] r outside with
  | error e =>
    -- without a place for the first region the range goes back as a whole
    refine .bind (Q := fun _ _ => False) ?_ fun _ s hs => hs.elim
    rw [remapRegions_cons]
    refine .get_bind fun s hs => ?_
    rw [hs, hplace]
    refine returns_backOut h.sorted h.old_ne ?_
    rintro rs' hrestored t rfl
    exact iff_of_true (h.pageMap_of_restored hrestored) (fun va hva => nomatch hva)
  | ok p =>
    obtain ⟨va, rs'⟩ := p
    have hva : va ≠ 0 := (adds_of_umapAddRegion hplace h.sorted).va_ne
    have hfirst : ∀ r' rest, r :: regs = r' :: rest → ([] : List Region) = [] →
        ∃ rs', nextPlace env newVa len padBegin padEnd [] r' outside = .ok (va, rs') := by
      rintro r' rest heq -
      obtain ⟨rfl, rfl⟩ := List.cons.inj heq
      exact ⟨rs', hplace⟩
    have hlinked : ∀ s : Vm, s.regions = outside →
        Linked outside oldVa va [] s.regions ∧ (([] : List Region) = [] → s.regions = outside) :=
      fun s hs => ⟨⟨hs ▸ h.sorted, by simp [hs], by simp⟩, fun _ => hs⟩
    refine .bind ((returns_remapRegions paged h.consecutive h.old_ne hva (List.nil_append _).symm
      hfirst).conseq hlinked (fun _ _ => id) fun t hfailed => ?_)
      fun added => .of_triple (Triple.pure ?_)
    · rw [h.pageMap_of_failed hfailed]
      exact ⟨fun heq va' hva' => (Option.some.inj hva').symm.trans heq, fun hall => hall va rfl⟩
    · rintro t ⟨rfl, ht⟩
      have hmoved := h.moved ht
      have hr : r.va = oldVa := h.consecutive.1.1
      have hhead : (((r :: regs).map (Region.moveTo oldVa va)).head?.map Region.va).getD 0 = va := by
        show va + (r.va - oldVa) = va
        omega
      rwa [hhead]

/-- Let the address space be well-formed, and let the allocators and the pager answer what they
like.  If `vm_remap` succeeds, the range has moved.  If it returns an error, the map of pages is
as before exactly if no region had been linked in, or if this was at the old address. -/
theorem vmRemap_allOrNothing_iff {range : VaRange} (outcome : ℕ → Option VmError)
    (h : WellFormed range s.regions) :
    (∀ va t, vmRemap (range.env outcome) newVa oldVa len padBegin padEnd s = .ok va t →
        Moved oldVa va len (pageMap s.regions) (pageMap t.regions))
      ∧ ∀ e t, vmRemap (range.env outcome) newVa oldVa len padBegin padEnd s
          = .error (.error e) t →
        (pageMap t.regions = pageMap s.regions
          ↔ ∀ va, firstPlace (range.env outcome) newVa oldVa len padBegin padEnd s = some va →
            va = oldVa) := by
  rw [vmRemap, firstPlace]
  by_cases hcheck : len = 0 ∨ ¬ (PageAligned len ∧ PageAligned oldVa)
  · rw [bind_of_error (failIf_of_pos hcheck), if_pos hcheck]
    refine ⟨fun va t ht => (by cases ht), fun e t ht => ?_⟩
    obtain ⟨-, rfl⟩ := EStateM.Result.error.inj ht
    exact iff_of_true rfl fun va hva => by cases hva
  rw [if_neg hcheck, failIf_of_neg hcheck, pure_bind]
  have hlen : 0 < len := by omega
  cases hsplit : splitVmRange (range.env outcome) oldVa len cmpRegionForRemap s with
  | error e t =>
    rw [bind_of_error hsplit]
    refine ⟨fun va t ht => (by cases ht), fun e t ht => ?_⟩
    obtain ⟨-, rfl⟩ := EStateM.Result.error.inj ht
    have hmap := (splitVmRange_pageMap (range.env outcome) h oldVa len cmpRegionForRemap s rfl).2
      _ _ hsplit
    exact iff_of_true hmap fun va hva => by cases hva
  | ok p t =>
    obtain ⟨pre, rest⟩ := p
    rw [bind_of_ok hsplit]
    obtain ⟨offset, htaken⟩ := taken_of_splitVmRange h hlen hsplit
    -- the range is not empty, so that there is a first region to move
    obtain ⟨r, rest, rfl, hr⟩ : ∃ r rest', rest = r :: rest' ∧ r.endVa ≤ oldVa + len := by
      obtain ⟨x, hx, -⟩ := htaken.exists_total le_rfl (by omega)
      cases rest with
      | nil => cases hx
      | cons r rest =>
        refine ⟨r, rest, rfl, ?_⟩
        by_contra hlt
        rw [List.takeWhile_cons, if_neg (by simpa using hlt)] at hx
        cases hx
    have hregs : ((r :: rest).takeWhile fun r => r.endVa ≤ oldVa + len)
        = r :: rest.takeWhile fun r => r.endVa ≤ oldVa + len := by
      rw [List.takeWhile_cons, if_pos (decide_eq_true hr)]
    simp only [hregs] at htaken ⊢
    exact (Returns.setRegions_bind (returns_relocate _ htaken) : Returns (fun _ => True) _ _ _) t
      trivial

/-- The two pages of `samplePages` are moved, and they stay where they are if the new address is
not that of a page. -/
theorem vmRemap_allOrNothing_iff_sample :
    (∃ t, vmRemap (sampleRange.env fun _ => none) 0x50000000 0x40000000 8192 0 0
        ⟨[samplePages], 0⟩ = .ok 0x50000000 t
      ∧ Moved 0x40000000 0x50000000 8192 (pageMap [samplePages]) (pageMap t.regions))
    ∧ ∃ e t, vmRemap (sampleRange.env fun _ => none) 0x50000001 0x40000000 8192 0 0
        ⟨[samplePages], 0⟩ = .error (.error e) t
      ∧ pageMap t.regions = pageMap [samplePages] := by
  constructor
  · have hrun : ((result? (vmRemap (sampleRange.env fun _ => none) 0x50000000 0x40000000 8192 0 0
        ⟨[samplePages], 0⟩)).any fun p => p.1 = 0x50000000) = true := by decide +kernel
    obtain ⟨va, t, ht, hva⟩ := exists_ok_of_any hrun
    obtain rfl : va = 0x50000000 := of_decide_eq_true hva
    exact ⟨t, ht, (vmRemap_allOrNothing_iff (s := ⟨[samplePages], 0⟩) (fun _ => none)
      samplePages_wellFormed).1 _ t ht⟩
  · have hrun : ∃ e t, vmRemap (sampleRange.env fun _ => none) 0x50000001 0x40000000 8192 0 0
        ⟨[samplePages], 0⟩ = .error (.error e) t := ⟨_, _, rfl⟩
    have hplace : firstPlace (sampleRange.env fun _ => none) 0x50000001 0x40000000 8192 0 0
        ⟨[samplePages], 0⟩ = none := by decide +kernel
    obtain ⟨e, t, ht⟩ := hrun
    refine ⟨e, t, ht, ((vmRemap_allOrNothing_iff (s := ⟨[samplePages], 0⟩) (fun _ => none)
      samplePages_wellFormed).2 e t ht).mpr fun va hva => ?_⟩
    rw [hplace] at hva
    cases hva

/-- There is no memory for the page tables of the new place: an error is returned, and the pages
are at the new place and gone from the old one. -/
theorem vmRemap_strands_region :
    WellFormed sampleRange [samplePages]
      ∧ ∃ t, vmRemap (sampleRange.env fun _ => some .outOfMemory) 0x50000000 0x40000000 8192 0 0
          ⟨[samplePages], 0⟩ = .error (.error .outOfMemory) t
        ∧ pageMap [samplePages] 0x40000000 = some (samplePages.page 0x40000000)
        ∧ pageMap t.regions 0x40000000 = none
        ∧ pageMap t.regions 0x50000000 = some (samplePages.page 0x40000000) :=
  ⟨samplePages_wellFormed, _, rfl, by decide, by decide, by decide⟩

end

end Watz.OpTee
