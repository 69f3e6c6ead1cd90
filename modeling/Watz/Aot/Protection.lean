import Watz.Aot.Mappings

/-!
# The protection of a loaded module

The pages of the text are mapped readable, writable and executable, those of the data sections
readable and writable.  Relocations are written into them, and only then, at the end of
`load_relocation_section`, the text and the sections of constants are made read-only.  This file
runs the loader with a protection for every page.  What it maps is what the loader without
protections maps.
-/

namespace Watz.Aot.Paged

/-! ## Pages -/

structure Protection where
  read : Bool
  write : Bool
  exec : Bool
deriving DecidableEq, Repr

/-- The page is one of those with a byte of the range. -/
def Touches (a n p : ℕ) : Prop := 0 < n ∧ a / 4096 ≤ p ∧ p ≤ (a + n - 1) / 4096

instance (a n p : ℕ) : Decidable (Touches a n p) := inferInstanceAs (Decidable (_ ∧ _ ∧ _))

/-- The mappings, and the protection of every page. -/
structure Pages where
  maps : Mappings
  prot : ℕ → Protection

/-- The pages of a range get a protection. -/
def Pages.set (a n : ℕ) (prot : Protection) (s : Pages) : Pages :=
  { s with prot := fun p => if Touches a n p then prot else s.prot p }

/-- `os_mprotect`. -/
def osMprotect (addr size : ℕ) (prot : Protection) (ok : Bool) (s : Pages) : Pages :=
  if ok then s.set addr size prot else s

/-! ## The loader -/

/-- A file with the names of its data sections, and how the calls of `os_mprotect` end that
`load_relocation_section` makes. -/
structure Load where
  file : AotFile
  name : ℕ → String
  mprotectText : Bool
  mprotectData : ℕ → Bool

/-- The protection that the text is mapped with. -/
def Pages.mapText (section' : AotSection) (s : Pages) : Pages :=
  match section'.sectionBody with
  | some addr => s.set addr (alignedSize section'.sectionBodySize) ⟨true, true, true⟩
  | none => s

/-- One section of `create_sections`. -/
def createSection (plt : ℕ) (b : SectionBytes) (s : Pages) : Option AotSection × Pages :=
  match Aot.createSection plt b s.maps with
  | (none, m) => (none, { s with maps := m })
  | (some sec, m) => (some sec, Pages.mapText sec { s with maps := m })

/-- The loop of `create_sections`. -/
def createSectionList (plt : ℕ) :
    List SectionBytes → List AotSection → Pages → Bool × List AotSection × Pages
  | [], sections, s => (true, sections, s)
  | b :: bs, sections, s =>
    match createSection plt b s with
    | (none, s) => (false, sections, s)
    | (some sec, s) => createSectionList plt bs (sections ++ [sec]) s

/-- `create_sections`. -/
def createSections (plt : ℕ) (f : AotFile) (s : Pages) : Option (List AotSection) × Pages :=
  match createSectionList plt f.sections [] s with
  | (ok, sections, s) =>
    if ok = true ∧ f.complete = true then
      if sections.isEmpty then (none, s) else (some sections, s)
    else (none, { s with maps := destroySections true sections s.maps })

/-- The protection that a data section is mapped with. -/
def Pages.mapData (d : ObjectDataSection) (s : Pages) : Pages :=
  match d.data with
  | some addr => s.set addr (alignedSize d.size) ⟨true, true, false⟩
  | none => s

/-- One data section of `load_object_data_sections`. -/
def loadObjectDataSection (b : DataSectionBytes) (s : Pages) : Bool × ObjectDataSection × Pages :=
  match Aot.loadObjectDataSection b s.maps with
  | (ok, d, m) => (ok, d, Pages.mapData d { s with maps := m })

/-- `load_object_data_sections`. -/
def loadObjectDataSections :
    List DataSectionBytes → List ObjectDataSection → Pages → Bool × List ObjectDataSection × Pages
  | [], sections, s => (true, sections, s)
  | b :: bs, sections, s =>
    match loadObjectDataSection b s with
    | (true, d, s) => loadObjectDataSections bs (sections ++ [d]) s
    | (false, d, s) => (false, sections ++ [d], s)

/-- `load_init_data_section`. -/
def loadInitDataSection (b : SectionBytes) (module : AotModule) (s : Pages) :
    Bool × AotModule × Pages :=
  if b.loads = false then (false, module, s)
  else if b.dataSections.isEmpty then (b.complete, module, s)
  else if b.dataSectionsMalloc = false then (false, module, s)
  else
    match loadObjectDataSections b.dataSections [] s with
    | (ok, sections, s) => (ok && b.complete, { module with dataSections := sections }, s)

/-- The names of the sections that are made read-only. -/
def readOnlyName (name : String) : Bool :=
  name = ".rdata" || name = ".rodata" || ".rodata.cst".toList.isPrefixOf name.toList

/-- The loop over the data sections at the end of `load_relocation_section`, from an index on. -/
def protectDataSections (l : Load) : ℕ → List ObjectDataSection → Pages → Pages
  | _, [], s => s
  | i, d :: ds, s =>
    protectDataSections l (i + 1) ds
      (if readOnlyName (l.name i) then
        osMprotect (d.data.getD 0) d.size ⟨true, false, false⟩ (l.mprotectData i) s
      else s)

/-- The text at the end of `load_relocation_section`. -/
def protectText (l : Load) (module : AotModule) (s : Pages) : Pages :=
  if module.code.isSome then
    osMprotect (module.literal - 4) ((4 + module.literalSize + module.codeSize) % 2 ^ 32)
      ⟨true, false, true⟩ l.mprotectText s
  else s

/-- The end of `load_relocation_section`. -/
def protect (l : Load) (module : AotModule) (s : Pages) : Pages :=
  protectDataSections l 0 module.dataSections (protectText l module s)

/-- `load_relocation_section`. -/
def loadRelocationSection (l : Load) (b : SectionBytes) (module : AotModule) (s : Pages) :
    Bool × AotModule × Pages :=
  if b.loads then (true, module, protect l module s) else (false, module, s)

/-- The reader of a section, by its type. -/
def loadSection (l : Load) (sec : AotSection) (module : AotModule) (s : Pages) :
    Bool × AotModule × Pages :=
  match sec.sectionType with
  | .initData => loadInitDataSection sec.content module s
  | .text =>
    match sec.sectionBody with
    | none => (false, module, s)
    | some addr =>
      (true, loadTextSection addr sec.sectionBodySize sec.content.literalSize.toNat module, s)
  | .relocation => loadRelocationSection l sec.content module s
  | _ => (sec.content.loads, module, s)

/-- `load_from_sections`, with `last_section_type`. -/
def loadFromSections (l : Load) :
    List AotSection → Option SectionType → AotModule → Pages → Bool × AotModule × Pages
  | [], last, module, s => (last = some .relocation, module, s)
  | sec :: sections, last, module, s =>
    if sec.sectionType.code = nextType last then
      match loadSection l sec module s with
      | (true, module, s) => loadFromSections l sections (some sec.sectionType) module s
      | (false, module, s) => (false, module, s)
    else (false, module, s)

/-- `load`. -/
def load (plt : ℕ) (l : Load) (module : AotModule) (s : Pages) : Bool × AotModule × Pages :=
  if l.file.header = false then (false, module, s)
  else
    match createSections plt l.file s with
    | (none, s) => (false, module, s)
    | (some sections, s) =>
      match loadFromSections l sections none module s with
      | (true, module, s) =>
        (true, module, { s with maps := destroySections false sections s.maps })
      | (false, module, s) =>
        (false, { module with code := none },
          { s with maps := destroySections true sections s.maps })

/-- `aot_load_from_aot_file`. -/
def aotLoadFromAotFile (plt : ℕ) (l : Load) (s : Pages) : Option AotModule × Pages :=
  if l.file.createModule = false then (none, s)
  else
    match load plt l AotModule.zero s with
    | (true, module, s) => (some module, s)
    | (false, module, s) => (none, { s with maps := aotUnload module s.maps })

/-! ## What is mapped

Without the protections this is the loader of the mappings. -/

section Maps

variable {s : Pages} (plt : ℕ)

@[simp] lemma maps_osMprotect (a n : ℕ) (prot : Protection) (ok : Bool) :
    (osMprotect a n prot ok s).maps = s.maps := by
  cases ok <;> rfl

@[simp] lemma maps_mapText (sec : AotSection) : (s.mapText sec).maps = s.maps := by
  rw [Pages.mapText]
  split <;> rfl

@[simp] lemma maps_mapData (d : ObjectDataSection) : (s.mapData d).maps = s.maps := by
  rw [Pages.mapData]
  split <;> rfl

lemma maps_protectDataSections (l : Load) (i : ℕ) (ds : List ObjectDataSection) :
    (protectDataSections l i ds s).maps = s.maps := by
  induction ds generalizing i s with
  | nil => rfl
  | cons d ds ih =>
    rw [protectDataSections, ih]
    split_ifs
    · exact maps_osMprotect _ _ _ _
    · rfl

lemma maps_protect (l : Load) (module : AotModule) : (protect l module s).maps = s.maps := by
  rw [protect, maps_protectDataSections, protectText]
  split_ifs
  · exact maps_osMprotect _ _ _ _
  · rfl

/-- A result without the protections. -/
def forget {α : Type} (r : α × Pages) : α × Mappings := (r.1, r.2.maps)

/-- A result with a status, without the protections. -/
def forgetOk {α : Type} (r : Bool × α × Pages) : Bool × α × Mappings := (r.1, r.2.1, r.2.2.maps)

lemma forget_createSection (b : SectionBytes) :
    forget (createSection plt b s) = Aot.createSection plt b s.maps := by
  rw [createSection]
  rcases Aot.createSection plt b s.maps with ⟨_ | sec, m⟩
  · rfl
  · rw [forget, maps_mapText]

lemma forget_createSectionList (bs : List SectionBytes) (sections : List AotSection) :
    forgetOk (createSectionList plt bs sections s)
      = Aot.createSectionList plt bs sections s.maps := by
  induction bs generalizing sections s with
  | nil => rfl
  | cons b bs ih =>
    have hone := forget_createSection (s := s) plt b
    rw [createSectionList, Aot.createSectionList, ← hone]
    rcases createSection plt b s with ⟨_ | sec, s'⟩
    · rfl
    · exact ih _

lemma forget_createSections (f : AotFile) :
    forget (createSections plt f s) = Aot.createSections plt f s.maps := by
  have hlist := forget_createSectionList (s := s) plt f.sections []
  rw [createSections, Aot.createSections, ← hlist]
  rcases createSectionList plt f.sections [] s with ⟨ok, sections, s'⟩
  dsimp only [forgetOk]
  split_ifs <;> rfl

lemma forget_loadObjectDataSection (b : DataSectionBytes) :
    forgetOk (loadObjectDataSection b s) = Aot.loadObjectDataSection b s.maps := by
  rw [loadObjectDataSection]
  rcases Aot.loadObjectDataSection b s.maps with ⟨ok, d, m⟩
  rw [forgetOk, maps_mapData]

lemma forget_loadObjectDataSections (bs : List DataSectionBytes)
    (sections : List ObjectDataSection) :
    forgetOk (loadObjectDataSections bs sections s)
      = Aot.loadObjectDataSections bs sections s.maps := by
  induction bs generalizing sections s with
  | nil => rfl
  | cons b bs ih =>
    have hone := forget_loadObjectDataSection (s := s) b
    rw [loadObjectDataSections, Aot.loadObjectDataSections, ← hone]
    rcases loadObjectDataSection b s with ⟨_ | _, d, s'⟩
    · rfl
    · exact ih _

lemma forget_loadInitDataSection (b : SectionBytes) (module : AotModule) :
    forgetOk (loadInitDataSection b module s) = Aot.loadInitDataSection b module s.maps := by
  have hlist := forget_loadObjectDataSections (s := s) b.dataSections []
  rw [loadInitDataSection, Aot.loadInitDataSection, ← hlist]
  split_ifs
  · rfl
  · rfl
  · rfl
  · rcases loadObjectDataSections b.dataSections [] s with ⟨ok, sections, s'⟩
    rfl

lemma forget_loadSection (l : Load) (sec : AotSection) (module : AotModule) :
    forgetOk (loadSection l sec module s) = Aot.loadSection sec module s.maps := by
  rw [loadSection, Aot.loadSection]
  cases sec.sectionType with
  | initData => exact forget_loadInitDataSection _ _
  | text => cases sec.sectionBody <;> rfl
  | relocation =>
    show forgetOk (loadRelocationSection l sec.content module s) = (sec.content.loads, module, s.maps)
    rw [loadRelocationSection]
    cases sec.content.loads with
    | false => rfl
    | true =>
      show (true, module, (protect l module s).maps) = _
      rw [maps_protect]
  | targetInfo => rfl
  | function => rfl
  | «export» => rfl

lemma forget_loadFromSections (l : Load) (sections : List AotSection) (last : Option SectionType)
    (module : AotModule) :
    forgetOk (loadFromSections l sections last module s)
      = Aot.loadFromSections sections last module s.maps := by
  induction sections generalizing last module s with
  | nil => rfl
  | cons sec sections ih =>
    have hone := forget_loadSection (s := s) l sec module
    rw [loadFromSections, Aot.loadFromSections, ← hone]
    split_ifs
    · rcases loadSection l sec module s with ⟨_ | _, module', s'⟩
      · rfl
      · exact ih _ _
    · rfl

lemma forget_load (l : Load) (module : AotModule) :
    forgetOk (load plt l module s) = Aot.load plt l.file module s.maps := by
  have hsections := forget_createSections (s := s) plt l.file
  rw [load, Aot.load, ← hsections]
  split_ifs
  · rfl
  rcases createSections plt l.file s with ⟨_ | sections, s'⟩
  · rfl
  have hload := forget_loadFromSections (s := s') l sections none module
  dsimp only [forget]
  rw [← hload]
  rcases loadFromSections l sections none module s' with ⟨_ | _, module', s''⟩ <;> rfl

/-- The loader maps what the loader without protections maps. -/
lemma forget_aotLoadFromAotFile (l : Load) :
    forget (aotLoadFromAotFile plt l s) = Aot.aotLoadFromAotFile plt l.file s.maps := by
  have hload := forget_load (s := s) plt l AotModule.zero
  rw [aotLoadFromAotFile, Aot.aotLoadFromAotFile, ← hload]
  split_ifs
  · rfl
  rcases load plt l AotModule.zero s with ⟨_ | _, module', s'⟩ <;> rfl

end Maps

/-! ## What is writable before the last step -/

/-- The mapping has pages, and all of them are writable. -/
def Pages.Writable (s : Pages) (mp : Mapping) : Prop :=
  0 < mp.size ∧ ∀ p, Touches mp.addr mp.size p → (s.prot p).write = true

/-- Everything that was writable is so still. -/
def Pages.Widens (s s' : Pages) : Prop := ∀ p, (s.prot p).write = true → (s'.prot p).write = true

variable {d : ObjectDataSection} {m : Mappings} {i : ℕ}

section Writable

variable {s s' : Pages} {plt : ℕ} {l : Load}

lemma Pages.Widens.trans {s'' : Pages} (h : s.Widens s') (h' : s'.Widens s'') : s.Widens s'' :=
  fun p hp => h' p (h p hp)

lemma Pages.Widens.writable {ms : Multiset Mapping} (h : s.Widens s')
    (hms : ∀ mp ∈ ms, s.Writable mp) : ∀ mp ∈ ms, s'.Writable mp :=
  fun mp hmp => ⟨(hms mp hmp).1, fun p hp => h p ((hms mp hmp).2 p hp)⟩

lemma widens_set (a n : ℕ) (prot : Protection) (h : prot.write = true) :
    s.Widens (s.set a n prot) := by
  intro p hp
  show (if Touches a n p then prot else s.prot p).write = true
  split_ifs
  · exact h
  · exact hp

lemma writable_set {addr size : ℕ} (prot : Protection) (hsize : 0 < size)
    (h : prot.write = true) :
    (s.set addr (alignedSize size) prot).Writable ⟨addr, alignedSize size⟩ := by
  refine ⟨?_, fun p hp => ?_⟩
  · show 0 < (size + 4095) / 4096 * 4096
    omega
  show (if Touches addr (alignedSize size) p then prot else s.prot p).write = true
  rw [if_pos hp]
  exact h

lemma widens_mapText (sec : AotSection) : s.Widens (s.mapText sec) := by
  rw [Pages.mapText]
  split
  · exact widens_set _ _ _ rfl
  · exact fun _ => id

variable {sec : AotSection} {sections : List AotSection} {module' : AotModule}
  {last : Option SectionType} {read : List DataSectionBytes}

lemma writable_mapText (hsize : ∀ addr, sec.sectionBody = some addr → 0 < sec.sectionBodySize) :
    ∀ mp ∈ textMappings [sec], (s.mapText sec).Writable mp := by
  intro mp hmp
  rw [textMappings] at hmp
  split_ifs at hmp
  · cases hbody : sec.sectionBody with
    | none =>
      rw [hbody] at hmp
      exact absurd hmp (Multiset.notMem_zero _)
    | some addr =>
      rw [hbody] at hmp
      obtain rfl : mp = ⟨addr, alignedSize sec.sectionBodySize⟩ := by
        simpa [textMappings] using hmp
      rw [Pages.mapText, hbody]
      exact writable_set _ (hsize addr hbody) rfl
  · exact absurd hmp (Multiset.notMem_zero _)

lemma widens_mapData (d : ObjectDataSection) : s.Widens (s.mapData d) := by
  rw [Pages.mapData]
  split
  · exact widens_set _ _ _ rfl
  · exact fun _ => id

lemma writable_mapData (hsize : ∀ addr, d.data = some addr → 0 < d.size) :
    ∀ mp ∈ dataMappings [d], (s.mapData d).Writable mp := by
  intro mp hmp
  rw [dataMappings] at hmp
  cases hdata : d.data with
  | none =>
    rw [hdata] at hmp
    exact absurd hmp (Multiset.notMem_zero _)
  | some addr =>
    rw [hdata] at hmp
    obtain rfl : mp = ⟨addr, alignedSize d.size⟩ := by simpa [dataMappings] using hmp
    rw [Pages.mapData, hdata]
    exact writable_set _ (hsize addr hdata) rfl

/-! ### The sections -/

/-- The data sections of the section, if it has them. -/
def dataBytes (sec : AotSection) : List DataSectionBytes :=
  if sec.sectionType = .initData then sec.content.dataSections else []

/-- The data sections of the object in the file. -/
def fileDataSections (f : AotFile) : List DataSectionBytes :=
  f.sections.flatMap fun b => if b.sectionType = some .initData then b.dataSections else []

lemma content_createSection {b : SectionBytes} {m' : Mappings}
    (h : Aot.createSection plt b m = (some sec, m')) :
    sec.content = b ∧ b.sectionType = some sec.sectionType
      ∧ ∀ addr, sec.sectionBody = some addr → 0 < sec.sectionBodySize := by
  unfold Aot.createSection at h
  cases htype : b.sectionType with
  | none =>
    rw [htype] at h
    cases h
  | some type =>
    rw [htype] at h
    dsimp only at h
    split_ifs at h with hmalloc htext hsize
    · cases h
    · cases h
    · split at h
      · cases h
      · cases h
        refine ⟨rfl, rfl, fun _ _ => ?_⟩
        show 0 < (b.size + plt + 3) / 4 * 4
        omega
    · cases h
      exact ⟨rfl, rfl, by simp⟩

/-- The sections that are made: the text is writable, and the data sections are those of the
file. -/
lemma createSectionList_spec {bs : List SectionBytes} {sections' : List AotSection}
    (hw : ∀ mp ∈ textMappings sections, s.Writable mp)
    (h : createSectionList plt bs sections s = (true, sections', s')) :
    (∀ mp ∈ textMappings sections', s'.Writable mp) ∧
      sections'.flatMap dataBytes = sections.flatMap dataBytes ++ bs.flatMap fun b =>
        if b.sectionType = some .initData then b.dataSections else [] := by
  induction bs generalizing sections s with
  | nil =>
    cases h
    exact ⟨hw, by simp⟩
  | cons b bs ih =>
    rw [createSectionList] at h
    cases hone : Aot.createSection plt b s.maps with
    | mk r m =>
      cases r with
      | none =>
        rw [createSection, hone] at h
        cases h
      | some sec =>
        rw [createSection, hone] at h
        obtain ⟨hcontent, htype, hbody⟩ := content_createSection hone
        have hold : ∀ mp ∈ textMappings sections, Pages.Writable { s with maps := m } mp := hw
        have hw' : ∀ mp ∈ textMappings (sections ++ [sec]),
            (Pages.mapText sec { s with maps := m }).Writable mp := by
          intro mp hmp
          rw [textMappings_append, Multiset.mem_add] at hmp
          rcases hmp with hmp | hmp
          · exact (widens_mapText sec).writable hold mp hmp
          · exact writable_mapText hbody mp hmp
        obtain ⟨hall, hdata⟩ := ih hw' h
        refine ⟨hall, ?_⟩
        have hbytes : dataBytes sec
            = if b.sectionType = some .initData then b.dataSections else [] := by
          rw [dataBytes, hcontent, htype]
          simp
        rw [hdata, List.flatMap_append, List.flatMap_singleton, List.flatMap_cons, hbytes,
          List.append_assoc]

lemma createSections_spec {f : AotFile} (h : createSections plt f s = (some sections, s')) :
    (∀ mp ∈ textMappings sections, s'.Writable mp) ∧
      sections.flatMap dataBytes = fileDataSections f := by
  rw [createSections] at h
  cases hlist : createSectionList plt f.sections [] s with
  | mk ok r =>
    obtain ⟨sections', s₁⟩ := r
    rw [hlist] at h
    dsimp only at h
    split_ifs at h with hok hempty
    · cases h
    · obtain ⟨rfl, -⟩ := hok
      cases h
      have hnone : ∀ mp ∈ textMappings [], s.Writable mp :=
        fun mp hmp => absurd hmp (Multiset.notMem_zero _)
      exact createSectionList_spec hnone hlist
    · cases h

/-! ### The data sections -/

/-- A data section of the module and the one of the file that it was made from. -/
structure Loaded (b : DataSectionBytes) (d : ObjectDataSection) : Prop where
  size_eq : d.size = b.size
  mapped : 0 < b.size → ∃ addr, d.data = some addr
  nonempty : ∀ addr, d.data = some addr → 0 < d.size

lemma loaded_loadObjectDataSection {b : DataSectionBytes} {m' : Mappings}
    (h : Aot.loadObjectDataSection b m = (true, d, m')) : Loaded b d := by
  unfold Aot.loadObjectDataSection at h
  split_ifs at h with hheader hsize
  · cases h
  · split at h
    · cases h
    · obtain ⟨-, rfl, -⟩ := by simpa only [Prod.mk.injEq] using h
      exact ⟨rfl, fun _ => ⟨_, rfl⟩, fun _ _ => hsize⟩
  · obtain ⟨-, rfl, -⟩ := by simpa only [Prod.mk.injEq] using h
    exact ⟨rfl, fun hpos => absurd hpos hsize, nofun⟩

lemma loadObjectDataSections_spec {bs : List DataSectionBytes}
    {sections sections' : List ObjectDataSection}
    (hw : ∀ mp ∈ dataMappings sections, s.Writable mp)
    (h : loadObjectDataSections bs sections s = (true, sections', s')) :
    s.Widens s' ∧ (∀ mp ∈ dataMappings sections', s'.Writable mp) ∧
      ∃ ds, sections' = sections ++ ds ∧ List.Forall₂ Loaded bs ds := by
  induction bs generalizing sections s with
  | nil =>
    cases h
    exact ⟨fun _ => id, hw, [], (List.append_nil _).symm, .nil⟩
  | cons b bs ih =>
    rw [loadObjectDataSections] at h
    cases hone : Aot.loadObjectDataSection b s.maps with
    | mk ok r =>
      obtain ⟨d, m⟩ := r
      rw [loadObjectDataSection, hone] at h
      cases ok with
      | false => cases h
      | true =>
        have hloaded := loaded_loadObjectDataSection hone
        have hold : ∀ mp ∈ dataMappings sections, Pages.Writable { s with maps := m } mp := hw
        have hw' : ∀ mp ∈ dataMappings (sections ++ [d]),
            (Pages.mapData d { s with maps := m }).Writable mp := by
          intro mp hmp
          rw [dataMappings_append, Multiset.mem_add] at hmp
          rcases hmp with hmp | hmp
          · exact (widens_mapData d).writable hold mp hmp
          · exact writable_mapData hloaded.nonempty mp hmp
        obtain ⟨hwidens, hall, ds, rfl, hrest⟩ := ih hw' h
        have hmap : s.Widens (Pages.mapData d { s with maps := m }) :=
          widens_mapData (s := { s with maps := m }) d
        refine ⟨hmap.trans hwidens, hall, d :: ds, ?_, .cons hloaded hrest⟩
        rw [List.append_assoc]
        rfl

lemma loadInitDataSection_spec {b : SectionBytes} {module : AotModule}
    (hfresh : module.dataSections = []) (h : loadInitDataSection b module s = (true, module', s')) :
    s.Widens s' ∧ (∀ mp ∈ dataMappings module'.dataSections, s'.Writable mp) ∧
      List.Forall₂ Loaded b.dataSections module'.dataSections ∧
      ∃ ds, module' = { module with dataSections := ds } := by
  rw [loadInitDataSection] at h
  split_ifs at h with hloads hempty hmalloc
  · cases h
  · obtain ⟨-, rfl, rfl⟩ := by simpa only [Prod.mk.injEq] using h
    rw [hfresh, List.isEmpty_iff.mp hempty]
    refine ⟨fun _ => id, fun mp hmp => absurd hmp (Multiset.notMem_zero _), .nil, [], ?_⟩
    rw [← hfresh]
  · cases h
  · cases hlist : loadObjectDataSections b.dataSections [] s with
    | mk ok r =>
      obtain ⟨sections, s₁⟩ := r
      rw [hlist] at h
      cases ok with
      | false => cases h
      | true =>
        have hnone : ∀ mp ∈ dataMappings [], s.Writable mp :=
          fun mp hmp => absurd hmp (Multiset.notMem_zero _)
        obtain ⟨hwidens, hall, ds, rfl, hloaded⟩ := loadObjectDataSections_spec hnone hlist
        obtain ⟨-, rfl, rfl⟩ := by simpa only [Prod.mk.injEq] using h
        exact ⟨hwidens, hall, hloaded, _, rfl⟩

/-! ### All sections -/

/-- The loader between two sections, before the last one.  The pages of the module and of the text
that is still to come are writable, and the data sections are those that were read. -/
structure Ready (read : List DataSectionBytes) (sections : List AotSection)
    (last : Option SectionType) (module : AotModule) (s : Pages) : Prop where
  fresh : module.Fresh (nextType last)
  code : 3 ≤ nextType last → module.code.isSome
  text : ∀ mp ∈ module.text + textMappings sections, s.Writable mp
  data : ∀ mp ∈ dataMappings module.dataSections, s.Writable mp
  loaded : List.Forall₂ Loaded read module.dataSections

lemma Ready.writable {module : AotModule} (h : Ready read [] last module s) :
    ∀ mp ∈ module.mappings, s.Writable mp := by
  intro mp hmp
  rcases Multiset.mem_add.mp hmp with hmp | hmp
  · exact h.text mp (Multiset.mem_add.mpr (Or.inl hmp))
  · exact h.data mp hmp

lemma Ready.step {module : AotModule} (h : Ready read (sec :: sections) last module s)
    (horder : sec.sectionType.code = nextType last) (hne : sec.sectionType ≠ .relocation)
    (hload : loadSection l sec module s = (true, module', s')) :
    Ready (read ++ dataBytes sec) sections (some sec.sectionType) module' s' := by
  obtain ⟨hfresh, hcode, htext, hdata, hloaded⟩ := h
  have hcons : textMappings (sec :: sections) = textMappings [sec] + textMappings sections :=
    textMappings_append [sec] sections
  -- a section that has neither text nor data
  have hplain : sec.sectionType ≠ .text → sec.sectionType ≠ .initData →
      (true, module', s') = (sec.content.loads, module, s) →
      Ready (read ++ dataBytes sec) sections (some sec.sectionType) module' s' := by
    intro hnt hni heq
    obtain ⟨-, rfl, rfl⟩ := by simpa only [Prod.mk.injEq] using heq
    have hnone : textMappings [sec] = 0 := if_neg hnt
    have hcode3 : sec.sectionType.code + 1 ≤ 1 ∨ 4 ≤ sec.sectionType.code + 1 := by
      cases htype : sec.sectionType <;> simp_all [SectionType.code]
    rw [hcons, hnone, zero_add] at htext
    refine ⟨⟨fun hle => hfresh.dataSections_eq ?_, fun hle => hfresh.code_eq ?_⟩, fun hle => hcode ?_,
      htext, hdata, ?_⟩
    · exact horder ▸ Nat.le_of_succ_le hle
    · exact horder ▸ Nat.le_of_succ_le hle
    · have hthree : 3 ≤ sec.sectionType.code + 1 := hle
      omega
    · rw [dataBytes, if_neg hni, List.append_nil]
      exact hloaded
  unfold loadSection at hload
  cases htype : sec.sectionType with
  | initData =>
    rw [htype] at hload horder
    have hnone : textMappings [sec] = 0 := if_neg (by rw [htype]; decide)
    rw [hcons, hnone, zero_add] at htext
    have hempty := hfresh.dataSections_eq (by rw [← horder]; decide)
    obtain ⟨hwidens, hall, hnew, ds, rfl⟩ := loadInitDataSection_spec hempty hload
    refine ⟨⟨fun hle => absurd hle (by decide), fun _ => hfresh.code_eq (by rw [← horder]; decide)⟩,
      fun hle => absurd hle (by decide), hwidens.writable htext, hall, ?_⟩
    rw [hempty] at hloaded
    obtain rfl := List.forall₂_nil_right_iff.mp hloaded
    rw [dataBytes, if_pos htype]
    exact hnew
  | text =>
    rw [htype] at hload horder
    cases hbody : sec.sectionBody with
    | none =>
      rw [hbody] at hload
      cases hload
    | some addr =>
      rw [hbody] at hload
      cases hload
      have hmapping : textMappings [sec] = {⟨addr, alignedSize sec.sectionBodySize⟩} := by
        rw [textMappings, if_pos htype, hbody]
        rfl
      refine ⟨⟨fun hle => absurd hle (by decide), fun hle => absurd hle (by decide)⟩,
        fun _ => rfl, ?_, hdata, ?_⟩
      · intro mp hmp
        rw [text_loadTextSection _ _ (sec.size_lt (by rw [hbody]; rfl)), ← hmapping, ← hcons] at hmp
        exact htext mp (Multiset.mem_add.mpr (Or.inr hmp))
      · rw [dataBytes, if_neg (by rw [htype]; decide), List.append_nil]
        exact hloaded
  | relocation => exact absurd htype hne
  | targetInfo =>
    rw [htype] at hload hplain
    exact hplain (by decide) (by decide) hload.symm
  | function =>
    rw [htype] at hload hplain
    exact hplain (by decide) (by decide) hload.symm
  | «export» =>
    rw [htype] at hload hplain
    exact hplain (by decide) (by decide) hload.symm

lemma eq_nil_of_relocation {module : AotModule}
    (h : loadFromSections l sections (some .relocation) module s = (true, module', s')) :
    sections = [] ∧ module' = module ∧ s' = s := by
  cases sections with
  | nil =>
    cases h
    exact ⟨rfl, rfl, rfl⟩
  | cons sec sections =>
    rw [loadFromSections, if_neg ?_] at h
    · cases h
    · cases sec.sectionType <;> decide

lemma loadFromSections_spec {module : AotModule} (hready : Ready read sections last module s)
    (hlast : last ≠ some .relocation)
    (h : loadFromSections l sections last module s = (true, module', s')) :
    ∃ s₁, (∀ mp ∈ module'.mappings, s₁.Writable mp) ∧ module'.code.isSome ∧
      List.Forall₂ Loaded (read ++ sections.flatMap dataBytes) module'.dataSections ∧
      s' = protect l module' s₁ := by
  induction sections generalizing read last module s with
  | nil =>
    rw [loadFromSections] at h
    simp [hlast] at h
  | cons sec sections ih =>
    rw [loadFromSections] at h
    split_ifs at h with horder
    · cases hone : loadSection l sec module s with
      | mk ok r =>
        obtain ⟨module₁, s₁⟩ := r
        rw [hone] at h
        cases ok with
        | false => cases h
        | true =>
          by_cases hrel : sec.sectionType = .relocation
          · rw [hrel] at h horder
            obtain ⟨rfl, rfl, rfl⟩ := eq_nil_of_relocation h
            rw [loadSection, hrel] at hone
            dsimp only [loadRelocationSection] at hone
            split_ifs at hone
            · cases hone
              have hnone : textMappings [sec] = 0 := if_neg (by rw [hrel]; decide)
              have hready' : Ready read [] last module' s :=
                { hready with text := fun mp hmp => hready.text mp (by rwa [hnone]) }
              refine ⟨s, hready'.writable, hready.code (by rw [← horder]; decide), ?_, rfl⟩
              simpa [dataBytes, hrel] using hready.loaded
            · cases hone
          · obtain ⟨s₂, hw, hcode, hloaded, hs⟩ :=
              ih (hready.step horder hrel hone) (by simpa using hrel) h
            refine ⟨s₂, hw, hcode, ?_, hs⟩
            rwa [List.append_assoc] at hloaded
    · cases h

lemma aotLoadFromAotFile_spec {module : AotModule}
    (h : aotLoadFromAotFile plt l s = (some module, s')) :
    ∃ s₁, (∀ mp ∈ module.mappings, s₁.Writable mp) ∧ module.code.isSome ∧
      List.Forall₂ Loaded (fileDataSections l.file) module.dataSections ∧
      s'.prot = (protect l module s₁).prot := by
  rw [aotLoadFromAotFile] at h
  split_ifs at h
  · cases h
  cases hload : load plt l AotModule.zero s with
  | mk ok r =>
    obtain ⟨module₁, s₁⟩ := r
    rw [hload] at h
    cases ok with
    | false => cases h
    | true =>
      cases h
      rw [load] at hload
      split_ifs at hload
      · cases hload
      cases hsections : createSections plt l.file s with
      | mk r s₂ =>
        rw [hsections] at hload
        cases r with
        | none => cases hload
        | some sections =>
          obtain ⟨htext, hdata⟩ := createSections_spec hsections
          have hready : Ready [] sections none AotModule.zero s₂ :=
            { fresh := fresh_zero
              code := fun hle => absurd hle (by decide)
              text := by simpa [AotModule.zero, AotModule.text] using htext
              data := fun mp hmp => absurd hmp (Multiset.notMem_zero _)
              loaded := .nil }
          dsimp only at hload
          cases hfrom : loadFromSections l sections none AotModule.zero s₂ with
          | mk ok r =>
            obtain ⟨module₂, s₃⟩ := r
            rw [hfrom] at hload
            cases ok with
            | false => cases hload
            | true =>
              cases hload
              obtain ⟨s₄, hw, hcode, hloaded, rfl⟩ :=
                loadFromSections_spec hready (by decide) hfrom
              rw [List.nil_append, hdata] at hloaded
              exact ⟨s₄, hw, hcode, hloaded, rfl⟩

end Writable

/-! ## The last step -/

section Protect

variable {s : Pages} {l : Load} {p : ℕ}

variable {prot : Protection} {ds : List ObjectDataSection}

lemma write_osMprotect_of_touches {a n : ℕ} (hw : prot.write = false) (hp : Touches a n p) :
    ((osMprotect a n prot true s).prot p).write = false := by
  show (if Touches a n p then prot else s.prot p).write = false
  rw [if_pos hp]
  exact hw

lemma prot_osMprotect {a n : ℕ} {ok : Bool} (h : ok = true → ¬ Touches a n p) :
    (osMprotect a n prot ok s).prot p = s.prot p := by
  cases ok with
  | false => rfl
  | true => exact if_neg (h rfl)

lemma write_osMprotect {a n : ℕ} {ok : Bool} (hw : prot.write = false)
    (h : (s.prot p).write = false) : ((osMprotect a n prot ok s).prot p).write = false := by
  by_cases hp : ok = true ∧ Touches a n p
  · obtain ⟨rfl, hp⟩ := hp
    exact write_osMprotect_of_touches hw hp
  · rw [prot_osMprotect fun hok hp' => hp ⟨hok, hp'⟩]
    exact h

/-- No page gets writable in the last step. -/
lemma write_protectDataSections (h : (s.prot p).write = false) :
    ((protectDataSections l i ds s).prot p).write = false := by
  induction ds generalizing i s with
  | nil => exact h
  | cons d ds ih =>
    rw [protectDataSections]
    split_ifs
    · exact ih (write_osMprotect rfl h)
    · exact ih h

lemma write_protectDataSections_of_touches {k : ℕ} (hd : ds[k]? = some d)
    (hname : readOnlyName (l.name (i + k)) = true) (hok : l.mprotectData (i + k) = true)
    (hp : Touches (d.data.getD 0) d.size p) :
    ((protectDataSections l i ds s).prot p).write = false := by
  induction ds generalizing i k s with
  | nil => simp at hd
  | cons e ds ih =>
    rw [protectDataSections]
    cases k with
    | zero =>
      obtain rfl : e = d := by simpa using hd
      rw [Nat.add_zero] at hname hok
      rw [if_pos hname, hok]
      exact write_protectDataSections (write_osMprotect_of_touches rfl hp)
    | succ k =>
      rw [← Nat.add_assoc, Nat.add_right_comm] at hname hok
      exact ih (by simpa using hd) hname hok

lemma prot_protectDataSections
    (h : ∀ k d, ds[k]? = some d → readOnlyName (l.name (i + k)) = true →
      l.mprotectData (i + k) = true → ¬ Touches (d.data.getD 0) d.size p) :
    (protectDataSections l i ds s).prot p = s.prot p := by
  induction ds generalizing i s with
  | nil => rfl
  | cons d ds ih =>
    have hrest : ∀ k e, ds[k]? = some e → readOnlyName (l.name (i + 1 + k)) = true →
        l.mprotectData (i + 1 + k) = true → ¬ Touches (e.data.getD 0) e.size p := by
      intro k e he
      rw [Nat.add_right_comm, Nat.add_assoc]
      exact h (k + 1) e (by simpa using he)
    rw [protectDataSections, ih hrest]
    split_ifs with hname
    · exact prot_osMprotect (h 0 d rfl hname)
    · rfl

end Protect

/-! ## Write protection -/

/-- No page of the text and of the sections of constants is writable. -/
structure WriteProtected (l : Load) (module : AotModule) (s : Pages) : Prop where
  text : ∀ mp ∈ module.text, ∀ p, Touches mp.addr mp.size p → (s.prot p).write = false
  data : ∀ i d addr, module.dataSections[i]? = some d → readOnlyName (l.name i) = true →
    d.data = some addr → ∀ p, Touches addr (alignedSize d.size) p → (s.prot p).write = false

/-- The calls of `os_mprotect` succeed for the text and for the sections of constants that are not
empty. -/
def Load.MprotectsSucceed (l : Load) : Prop :=
  l.mprotectText = true ∧ ∀ i d, (fileDataSections l.file)[i]? = some d →
    readOnlyName (l.name i) = true → 0 < d.size → l.mprotectData i = true

/-- No page is in both mappings. -/
def Unshared (a b : Mapping) : Prop := ∀ p, ¬ (Touches a.addr a.size p ∧ Touches b.addr b.size p)

/-- What the kernel promises about the mappings that exist: they begin with a page, and they have
no page in common. -/
structure WellPlaced (m : Mappings) : Prop where
  aligned : ∀ mp ∈ m.mapped - m.unmapped, 4096 ∣ mp.addr
  unshared : (m.mapped - m.unmapped).Pairwise Unshared

section Placed

variable {a n p : ℕ}

/-- A range touches the pages that its mapping consists of. -/
lemma touches_alignedSize (h : 4096 ∣ a) : Touches a (alignedSize n) p ↔ Touches a n p := by
  obtain ⟨k, rfl⟩ := h
  simp only [Touches, alignedSize]
  omega

lemma touches_first (h : 0 < n) : Touches a n (a / 4096) :=
  ⟨h, le_rfl, Nat.div_le_div_right (by omega)⟩

/-- The mapping of a data section. -/
def dataMapping? (d : ObjectDataSection) : Option Mapping :=
  d.data.map fun addr => ⟨addr, alignedSize d.size⟩

lemma dataMappings_eq_coe (ds : List ObjectDataSection) :
    dataMappings ds = (ds.filterMap dataMapping? : List Mapping) := by
  induction ds with
  | nil => rfl
  | cons d ds ih =>
    rw [dataMappings, List.filterMap_cons, dataMapping?]
    cases d.data with
    | none => exact ih
    | some addr =>
      show {⟨addr, alignedSize d.size⟩} + dataMappings ds = _
      rw [ih, Multiset.singleton_add]
      rfl

lemma Unshared.symm {a b : Mapping} (h : Unshared a b) : Unshared b a := fun p hp => h p hp.symm

instance : Std.Symm Unshared := ⟨fun _ _ h => h.symm⟩

/-- The mappings of a module whose mappings are well placed. -/
structure Placed (module : AotModule) (text : Mapping) : Prop where
  text_eq : text = ⟨module.literal - 4,
    alignedSize ((4 + module.literalSize + module.codeSize) % 2 ^ 32)⟩
  text_aligned : 4096 ∣ text.addr
  data_aligned : ∀ d ∈ module.dataSections, ∀ addr, d.data = some addr → 4096 ∣ addr
  text_data : ∀ d ∈ module.dataSections, ∀ mp, dataMapping? d = some mp → Unshared text mp
  data_data : ∀ (i j : ℕ) d e mp mq, i ≠ j → module.dataSections[i]? = some d →
    module.dataSections[j]? = some e → dataMapping? d = some mp → dataMapping? e = some mq →
    Unshared mp mq

lemma text_eq_singleton {module : AotModule} (h : module.code.isSome) :
    module.text = {⟨module.literal - 4,
      alignedSize ((4 + module.literalSize + module.codeSize) % 2 ^ 32)⟩} := by
  obtain ⟨code, hcode⟩ := Option.isSome_iff_exists.mp h
  rw [AotModule.text, hcode]

lemma placed_of_wellPlaced {module : AotModule} (hcode : module.code.isSome)
    (howns : m.Owns module.mappings) (h : WellPlaced m) : ∃ text, Placed module text := by
  have hlive : m.mapped - m.unmapped
      = ((⟨module.literal - 4, alignedSize ((4 + module.literalSize + module.codeSize) % 2 ^ 32)⟩
        :: module.dataSections.filterMap dataMapping? : List Mapping) : Multiset Mapping) := by
    rw [← howns, add_tsub_cancel_right, AotModule.mappings, text_eq_singleton hcode,
      dataMappings_eq_coe, Multiset.singleton_add, Multiset.cons_coe]
  obtain ⟨haligned, hunshared⟩ := h
  rw [hlive] at haligned hunshared
  rw [Multiset.pairwise_coe_iff_pairwise, List.pairwise_cons] at hunshared
  obtain ⟨htext, hdata⟩ := hunshared
  have hmem : ∀ d ∈ module.dataSections, ∀ mp, dataMapping? d = some mp →
      mp ∈ module.dataSections.filterMap dataMapping? :=
    fun d hd mp hmp => List.mem_filterMap.mpr ⟨d, hd, hmp⟩
  refine ⟨_, rfl, haligned _ (by simp), fun d hd addr haddr => ?_, fun d hd mp hmp => ?_, ?_⟩
  · have hmp : dataMapping? d = some ⟨addr, alignedSize d.size⟩ := by rw [dataMapping?, haddr]; rfl
    have hin := hmem d hd _ hmp
    exact haligned _ (Multiset.mem_coe.mpr (List.mem_cons_of_mem _ hin))
  · exact htext mp (hmem d hd mp hmp)
  · rw [List.pairwise_filterMap, List.pairwise_iff_getElem] at hdata
    intro i j d e mp mq hij hi hj hmp hmq
    obtain ⟨hilt, rfl⟩ := List.getElem?_eq_some_iff.mp hi
    obtain ⟨hjlt, rfl⟩ := List.getElem?_eq_some_iff.mp hj
    rcases Nat.lt_or_gt_of_ne hij with hlt | hgt
    · exact hdata i j hilt hjlt hlt mp hmp mq hmq
    · exact (hdata j i hjlt hilt hgt mq hmq mp hmp).symm

end Placed

section Result

variable {plt : ℕ} {l : Load} {s s₁ s' : Pages} {module : AotModule} {text : Mapping}

lemma exists_getElem?_of_forall₂ {α β : Type} {R : α → β → Prop} {xs : List α} {ys : List β}
    (h : List.Forall₂ R xs ys) {y : β} (hy : ys[i]? = some y) :
    ∃ x, xs[i]? = some x ∧ R x y := by
  induction h generalizing i with
  | nil => simp at hy
  | cons hhead _ ih =>
    cases i with
    | zero =>
      obtain rfl := Option.some.inj hy
      exact ⟨_, rfl, hhead⟩
    | succ i => exact ih hy

lemma writeProtected_of_succeed (hcode : module.code.isSome) (hplaced : Placed module text)
    (hloaded : List.Forall₂ Loaded (fileDataSections l.file) module.dataSections)
    (h : l.MprotectsSucceed) : WriteProtected l module (protect l module s₁) := by
  constructor
  · intro mp hmp p hp
    rw [text_eq_singleton hcode, Multiset.mem_singleton, ← hplaced.text_eq] at hmp
    rw [hmp] at hp
    have haligned := hplaced.text_aligned
    rw [hplaced.text_eq] at hp haligned
    rw [touches_alignedSize haligned] at hp
    rw [protect, protectText, if_pos hcode, h.1]
    exact write_protectDataSections (write_osMprotect_of_touches rfl hp)
  · intro i d addr hd hname haddr p hp
    obtain ⟨b, hb, hpair⟩ := exists_getElem?_of_forall₂ hloaded hd
    have hok : l.mprotectData i = true :=
      h.2 i b hb hname (hpair.size_eq ▸ hpair.nonempty addr haddr)
    rw [touches_alignedSize (hplaced.data_aligned d (List.mem_of_getElem? hd) addr haddr)] at hp
    rw [protect]
    refine write_protectDataSections_of_touches hd ?_ ?_ ?_
    · rwa [Nat.zero_add]
    · rwa [Nat.zero_add]
    · rwa [haddr, Option.getD_some]

lemma touches_dataMapping (hplaced : Placed module text) {p : ℕ} (hd : d ∈ module.dataSections)
    (hsize : d.data = none → d.size = 0) (hp : Touches (d.data.getD 0) d.size p) :
    ∃ mp, dataMapping? d = some mp ∧ Touches mp.addr mp.size p := by
  cases hdata : d.data with
  | none =>
    rw [hsize hdata] at hp
    exact absurd hp.1 (lt_irrefl 0)
  | some addr =>
    rw [hdata, Option.getD_some] at hp
    refine ⟨⟨addr, alignedSize d.size⟩, by rw [dataMapping?, hdata]; rfl, ?_⟩
    exact (touches_alignedSize (hplaced.data_aligned d hd addr hdata)).mpr hp

lemma succeed_of_writeProtected (hcode : module.code.isSome) (hplaced : Placed module text)
    (hloaded : List.Forall₂ Loaded (fileDataSections l.file) module.dataSections)
    (hw : ∀ mp ∈ module.mappings, s₁.Writable mp)
    (h : WriteProtected l module (protect l module s₁)) : l.MprotectsSucceed := by
  have htouch : ∀ (i : ℕ) d p, module.dataSections[i]? = some d →
      Touches (d.data.getD 0) d.size p →
        ∃ mp, dataMapping? d = some mp ∧ Touches mp.addr mp.size p := by
    intro i d p hd hp
    obtain ⟨b, -, hpair⟩ := exists_getElem?_of_forall₂ hloaded hd
    refine touches_dataMapping hplaced (List.mem_of_getElem? hd) (fun hnone => ?_) hp
    by_contra hne
    obtain ⟨addr, haddr⟩ := hpair.mapped (hpair.size_eq ▸ Nat.pos_of_ne_zero hne)
    rw [hnone] at haddr
    cases haddr
  have htextMem : text ∈ module.text := by
    rw [text_eq_singleton hcode, hplaced.text_eq]
    exact Multiset.mem_singleton_self _
  refine ⟨?_, fun i b hb hname hsize => ?_⟩
  · -- the first page of the text, which no call for a data section touches
    by_contra hfail
    obtain ⟨hpos, hwrite⟩ := hw text (Multiset.mem_add.mpr (Or.inl htextMem))
    have hfirst : Touches text.addr text.size (text.addr / 4096) := touches_first hpos
    have hleft : ((protect l module s₁).prot (text.addr / 4096)).write = true := by
      rw [protect, prot_protectDataSections, protectText, if_pos hcode,
        prot_osMprotect fun hok => absurd hok hfail]
      · exact hwrite _ hfirst
      · intro k d hd _ _ hp
        obtain ⟨mp, hmp, hp⟩ := htouch k d _ hd hp
        exact hplaced.text_data d (List.mem_of_getElem? hd) mp hmp _ ⟨hfirst, hp⟩
    rw [h.text text htextMem _ hfirst] at hleft
    cases hleft
  · -- the first page of the section, which no other call touches
    by_contra hfail
    obtain ⟨d, hd, hpair⟩ := exists_getElem?_of_forall₂ hloaded.flip hb
    obtain ⟨addr, haddr⟩ := hpair.mapped hsize
    have hmp : dataMapping? d = some ⟨addr, alignedSize d.size⟩ := by rw [dataMapping?, haddr]; rfl
    have hmem := List.mem_of_getElem? hd
    have hin : (⟨addr, alignedSize d.size⟩ : Mapping) ∈ dataMappings module.dataSections := by
      rw [dataMappings_eq_coe]
      exact Multiset.mem_coe.mpr (List.mem_filterMap.mpr ⟨d, hmem, hmp⟩)
    obtain ⟨hpos, hwrite⟩ := hw _ (Multiset.mem_add.mpr (Or.inr hin))
    have hfirst : Touches addr (alignedSize d.size) (addr / 4096) := touches_first hpos
    have hleft : ((protect l module s₁).prot (addr / 4096)).write = true := by
      rw [protect, prot_protectDataSections, protectText, if_pos hcode, prot_osMprotect]
      · exact hwrite _ hfirst
      · intro _ hp
        have haligned := hplaced.text_aligned
        have hunshared := hplaced.text_data d hmem _ hmp (addr / 4096)
        rw [hplaced.text_eq] at haligned hunshared
        exact hunshared ⟨(touches_alignedSize haligned).mpr hp, hfirst⟩
      · intro k e he _ hok hp
        obtain ⟨mq, hmq, hp⟩ := htouch k e _ he hp
        have hne : i ≠ k := by
          rintro rfl
          rw [Nat.zero_add] at hok
          exact hfail hok
        exact hplaced.data_data i k d e _ mq hne hd he hmp hmq _ ⟨hfirst, hp⟩
    rw [h.data i d addr hd hname haddr _ hfirst] at hleft
    cases hleft

/-- **Write protection.**  After a load that succeeds, no page of the text and of the constants is
writable exactly if the calls of `os_mprotect` for them succeed: the loader does not look at their
results. -/
theorem writeProtected_iff (howns : s.maps.Owns 0)
    (hload : aotLoadFromAotFile plt l s = (some module, s')) (hplaced : WellPlaced s'.maps) :
    WriteProtected l module s' ↔ l.MprotectsSucceed := by
  obtain ⟨s₁, hw, hcode, hloaded, hprot⟩ := aotLoadFromAotFile_spec hload
  have hmaps : Aot.aotLoadFromAotFile plt l.file s.maps = (some module, s'.maps) := by
    rw [← forget_aotLoadFromAotFile, hload]
    rfl
  have howns' : s'.maps.Owns module.mappings := owns_aotLoadFromAotFile howns hmaps
  obtain ⟨text, hplaced'⟩ := placed_of_wellPlaced hcode howns' hplaced
  have hsame : WriteProtected l module s' ↔ WriteProtected l module (protect l module s₁) := by
    constructor
    · exact fun h => ⟨hprot ▸ h.text, hprot ▸ h.data⟩
    · exact fun h => ⟨hprot ▸ h.text, hprot ▸ h.data⟩
  rw [hsame]
  exact ⟨succeed_of_writeProtected hcode hplaced' hloaded hw,
    writeProtected_of_succeed hcode hplaced' hloaded⟩

end Result

/-! A file with one section of constants. -/

def plainSection (type : SectionType) : SectionBytes where
  sectionType := some type
  size := 100
  malloc := true
  osMmap := .mapped 0x1000
  loads := true
  literalSize := 0
  dataSectionsMalloc := true
  dataSections := [⟨true, 16, .mapped 0x3000, true⟩]
  complete := true

/-- The file, with how the call for its text ends. -/
def sampleLoad (mprotectText : Bool) : Load where
  file :=
    { createModule := true
      header := true
      sections := [.targetInfo, .initData, .text, .function, .export, .relocation].map plainSection
      complete := true }
  name := fun _ => ".rodata"
  mprotectText := mprotectText
  mprotectData := fun _ => true

def samplePages : Pages := ⟨⟨0, 0⟩, fun _ => ⟨false, false, false⟩⟩

lemma sampleLoad_loads (ok : Bool) : ∃ module s,
    aotLoadFromAotFile 64 (sampleLoad ok) samplePages = (some module, s) ∧
      module.text = {⟨0x1000, 4096⟩} ∧
      s.maps = ⟨(([⟨0x1000, 4096⟩, ⟨0x3000, 4096⟩] : List Mapping) : Multiset Mapping), 0⟩ ∧
      (s.prot 1).write = !ok := by
  cases ok
  · exact ⟨_, _, rfl, by decide, by decide, by decide⟩
  · exact ⟨_, _, rfl, by decide, by decide, by decide⟩

/-- A load in which every call of `os_mprotect` succeeds. -/
theorem writeProtected_iff_sample : ∃ module s,
    aotLoadFromAotFile 64 (sampleLoad true) samplePages = (some module, s) ∧
      WriteProtected (sampleLoad true) module s := by
  obtain ⟨module, s, hload, -, hmaps, -⟩ := sampleLoad_loads true
  have howns : samplePages.maps.Owns 0 := rfl
  refine ⟨module, s, hload, (writeProtected_iff howns hload ?_).mpr ⟨rfl, fun _ _ _ _ _ => rfl⟩⟩
  rw [hmaps]
  refine ⟨by decide, ?_⟩
  rw [tsub_zero, Multiset.pairwise_coe_iff_pairwise, List.pairwise_pair]
  rintro p ⟨⟨-, -, hle⟩, -, hge, -⟩
  dsimp only at hle hge
  omega

/-- The call for the text fails, and the module is returned with its text writable. -/
theorem text_left_writable : ∃ module s,
    aotLoadFromAotFile 64 (sampleLoad false) samplePages = (some module, s) ∧
      ¬ WriteProtected (sampleLoad false) module s := by
  obtain ⟨module, s, hload, htext, -, hwrite⟩ := sampleLoad_loads false
  refine ⟨module, s, hload, fun h => ?_⟩
  have hmem : (⟨0x1000, 4096⟩ : Mapping) ∈ module.text := by
    rw [htext]
    exact Multiset.mem_singleton_self _
  rw [h.text _ hmem 1 (by decide)] at hwrite
  cases hwrite

end Watz.Aot.Paged
