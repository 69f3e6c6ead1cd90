import Mathlib

/-!
# The mappings of a loaded module

The loader of AOT files takes memory from the pool of the runtime, and beside it makes mappings: one
for every text section of the file, and one for every data section of the object that is not
empty.  If the file cannot be loaded, the mappings are undone at three different places, and the
text section is owned first by the list of sections and later by the module.  This file has the
parts of the loader that make and undo mappings; everything else that can go wrong in it is left
to the file.
-/

namespace Watz.Aot

/-! ## Mappings -/

/-- A mapping of whole pages. -/
structure Mapping where
  addr : ℕ
  size : ℕ
deriving DecidableEq, Repr

/-- The mappings that have been made and those that have been undone. -/
structure Mappings where
  mapped : Multiset Mapping
  unmapped : Multiset Mapping
deriving DecidableEq

/-- How the calls to the kernel in `os_mmap` end. -/
inductive MmapOutcome where
  | mapped (addr : ℕ)
  | refused
  /-- The pages are mapped, but their protection cannot be set. -/
  | unprotected (addr : ℕ)
deriving DecidableEq, Repr

/-- The size in whole pages. -/
def alignedSize (size : ℕ) : ℕ := (size + 4095) / 4096 * 4096

/-- `os_mmap`. -/
def osMmap (size : ℕ) (o : MmapOutcome) (m : Mappings) : Option ℕ × Mappings :=
  if alignedSize size ≥ 2 ^ 32 - 1 then (none, m)
  else
    match o with
    | .mapped addr => (some addr, { m with mapped := m.mapped + {⟨addr, alignedSize size⟩} })
    | .refused => (none, m)
    | .unprotected addr =>
      (none, ⟨m.mapped + {⟨addr, alignedSize size⟩}, m.unmapped + {⟨addr, alignedSize size⟩}⟩)

/-- `os_munmap`. -/
def osMunmap (addr size : ℕ) (m : Mappings) : Mappings :=
  { m with unmapped := m.unmapped + {⟨addr, alignedSize size⟩} }

/-! ## The file -/

/-- `AOT_SECTION_TYPE_TARGET_INFO` and so on. -/
inductive SectionType where
  | targetInfo
  | initData
  | text
  | function
  | «export»
  | relocation
deriving DecidableEq, Repr

def SectionType.code : SectionType → ℕ
  | targetInfo => 0
  | initData => 1
  | text => 2
  | function => 3
  | «export» => 4
  | relocation => 5

/-- A data section of the object in the file. -/
structure DataSectionBytes where
  /-- Its name and its size can be read. -/
  header : Bool
  size : ℕ
  osMmap : MmapOutcome
  /-- Its bytes can be read. -/
  bytes : Bool

/-- A section of the file that ends before the file does. -/
structure SectionBytes where
  /-- An invalid section id is `none`. -/
  sectionType : Option SectionType
  size : ℕ
  malloc : Bool
  osMmap : MmapOutcome
  /-- The section can be loaded, up to the data sections of the object if it has them. -/
  loads : Bool
  literalSize : UInt32
  dataSectionsMalloc : Bool
  dataSections : List DataSectionBytes
  /-- There is nothing behind the data sections. -/
  complete : Bool

/-- A file, and whether the allocations for it succeed. -/
structure AotFile where
  createModule : Bool
  /-- The magic number and the version are right. -/
  header : Bool
  sections : List SectionBytes
  /-- Behind the last section is the end of the file. -/
  complete : Bool

/-! ## The list of sections -/

/-- `AOTSection`.  The body is given for a text section only, where it is a mapping. -/
structure AotSection where
  content : SectionBytes
  sectionType : SectionType
  sectionBody : Option ℕ
  sectionBodySize : ℕ
  size_lt : sectionBody.isSome → sectionBodySize < 2 ^ 32

/-- `destroy_sections`. -/
def destroySections (destroyAotText : Bool) : List AotSection → Mappings → Mappings
  | [], m => m
  | s :: sections, m =>
    if destroyAotText = true ∧ s.sectionType = .text then
      match s.sectionBody with
      | some addr => destroySections destroyAotText sections (osMunmap addr s.sectionBodySize m)
      | none => destroySections destroyAotText sections m
    else destroySections destroyAotText sections m

/-- One section of `create_sections`. -/
def createSection (pltTableSize : ℕ) (b : SectionBytes) (m : Mappings) :
    Option AotSection × Mappings :=
  match b.sectionType with
  | none => (none, m)
  | some type =>
    if b.malloc = false then (none, m)
    else if type = .text ∧ 0 < b.size then
      let totalSize := (b.size + pltTableSize + 3) / 4 * 4
      if h : totalSize ≥ 2 ^ 32 - 1 then (none, m)
      else
        match osMmap totalSize b.osMmap m with
        | (none, m) => (none, m)
        | (some addr, m) => (some ⟨b, type, some addr, totalSize, fun _ => by omega⟩, m)
    else (some ⟨b, type, none, b.size, nofun⟩, m)

/-- The loop of `create_sections`: whether it gets to the end, and the list it has made. -/
def createSectionList (pltTableSize : ℕ) :
    List SectionBytes → List AotSection → Mappings → Bool × List AotSection × Mappings
  | [], sections, m => (true, sections, m)
  | b :: bs, sections, m =>
    match createSection pltTableSize b m with
    | (none, m) => (false, sections, m)
    | (some s, m) => createSectionList pltTableSize bs (sections ++ [s]) m

/-- `create_sections`. -/
def createSections (pltTableSize : ℕ) (f : AotFile) (m : Mappings) :
    Option (List AotSection) × Mappings :=
  match createSectionList pltTableSize f.sections [] m with
  | (ok, sections, m) =>
    if ok = true ∧ f.complete = true then
      if sections.isEmpty then (none, m) else (some sections, m)
    else (none, destroySections true sections m)

/-! ## The module -/

/-- `AOTObjectDataSection`. -/
structure ObjectDataSection where
  data : Option ℕ
  size : ℕ
deriving DecidableEq, Repr

/-- The fields of `AOTModule` that mappings belong to. -/
structure AotModule where
  literal : ℕ
  literalSize : ℕ
  code : Option ℕ
  codeSize : ℕ
  dataSections : List ObjectDataSection
deriving DecidableEq, Repr

/-- A module is created with zeros. -/
def AotModule.zero : AotModule := ⟨0, 0, none, 0, []⟩

/-- One data section of `load_object_data_sections`. -/
def loadObjectDataSection (b : DataSectionBytes) (m : Mappings) :
    Bool × ObjectDataSection × Mappings :=
  if b.header = false then (false, ⟨none, 0⟩, m)
  else if 0 < b.size then
    match osMmap b.size b.osMmap m with
    | (none, m) => (false, ⟨none, b.size⟩, m)
    | (some addr, m) => (b.bytes, ⟨some addr, b.size⟩, m)
  else (b.bytes, ⟨none, b.size⟩, m)

/-- `load_object_data_sections`. -/
def loadObjectDataSections :
    List DataSectionBytes → List ObjectDataSection → Mappings →
      Bool × List ObjectDataSection × Mappings
  | [], sections, m => (true, sections, m)
  | b :: bs, sections, m =>
    match loadObjectDataSection b m with
    | (true, s, m) => loadObjectDataSections bs (sections ++ [s]) m
    | (false, s, m) => (false, sections ++ [s], m)

/-- `load_init_data_section`. -/
def loadInitDataSection (b : SectionBytes) (module : AotModule) (m : Mappings) :
    Bool × AotModule × Mappings :=
  if b.loads = false then (false, module, m)
  else if b.dataSections.isEmpty then (b.complete, module, m)
  else if b.dataSectionsMalloc = false then (false, module, m)
  else
    match loadObjectDataSections b.dataSections [] m with
    | (ok, sections, m) => (ok && b.complete, { module with dataSections := sections }, m)

/-- `load_text_section`, of a section whose body is mapped. -/
def loadTextSection (addr bodySize literalSize : ℕ) (module : AotModule) : AotModule :=
  -- the layout is: size of the literals, literals, code
  let buf := addr + 4
  { module with
    literal := buf
    literalSize := literalSize
    code := some (buf + literalSize)
    codeSize := ((((addr + bodySize : ℕ) : ℤ) - (buf + literalSize : ℕ)) % 2 ^ 32).toNat }

/-- The reader of a section, by its type. -/
def loadSection (s : AotSection) (module : AotModule) (m : Mappings) : Bool × AotModule × Mappings :=
  match s.sectionType with
  | .initData => loadInitDataSection s.content module m
  | .text =>
    match s.sectionBody with
    | none => (false, module, m)
    | some addr =>
      (true, loadTextSection addr s.sectionBodySize s.content.literalSize.toNat module, m)
  | _ => (s.content.loads, module, m)

/-- The type a section has to have behind one of the given type. -/
def nextType (last : Option SectionType) : ℕ := last.elim 0 fun t => t.code + 1

/-- `load_from_sections`, with `last_section_type`. -/
def loadFromSections :
    List AotSection → Option SectionType → AotModule → Mappings → Bool × AotModule × Mappings
  | [], last, module, m => (last = some .relocation, module, m)
  | s :: sections, last, module, m =>
    if s.sectionType.code = nextType last then
      match loadSection s module m with
      | (true, module, m) => loadFromSections sections (some s.sectionType) module m
      | (false, module, m) => (false, module, m)
    else (false, module, m)

/-- `destroy_object_data_sections`. -/
def destroyObjectDataSections : List ObjectDataSection → Mappings → Mappings
  | [], m => m
  | s :: sections, m =>
    match s.data with
    | some addr => destroyObjectDataSections sections (osMunmap addr s.size m)
    | none => destroyObjectDataSections sections m

/-- `aot_unload`. -/
def aotUnload (module : AotModule) (m : Mappings) : Mappings :=
  match module.code with
  | some _ =>
    destroyObjectDataSections module.dataSections
      (osMunmap (module.literal - 4) ((4 + module.literalSize + module.codeSize) % 2 ^ 32) m)
  | none => destroyObjectDataSections module.dataSections m

/-- `load`: whether it succeeds, and the module as it leaves it. -/
def load (pltTableSize : ℕ) (f : AotFile) (module : AotModule) (m : Mappings) :
    Bool × AotModule × Mappings :=
  if f.header = false then (false, module, m)
  else
    match createSections pltTableSize f m with
    | (none, m) => (false, module, m)
    | (some sections, m) =>
      match loadFromSections sections none module m with
      | (true, module, m) => (true, module, destroySections false sections m)
      -- the text is destroyed with the sections, and not again by `aot_unload`
      | (false, module, m) => (false, { module with code := none }, destroySections true sections m)

/-- `aot_load_from_aot_file`. -/
def aotLoadFromAotFile (pltTableSize : ℕ) (f : AotFile) (m : Mappings) :
    Option AotModule × Mappings :=
  if f.createModule = false then (none, m)
  else
    match load pltTableSize f AotModule.zero m with
    | (true, module, m) => (some module, m)
    | (false, module, m) => (none, aotUnload module m)

/-! ## What the module and the sections own -/

/-- The mapping that `aot_unload` undoes for the code. -/
def AotModule.text (module : AotModule) : Multiset Mapping :=
  match module.code with
  | some _ => {⟨module.literal - 4,
      alignedSize ((4 + module.literalSize + module.codeSize) % 2 ^ 32)⟩}
  | none => 0

/-- The mappings of data sections. -/
def dataMappings : List ObjectDataSection → Multiset Mapping
  | [] => 0
  | s :: sections =>
    match s.data with
    | some addr => {⟨addr, alignedSize s.size⟩} + dataMappings sections
    | none => dataMappings sections

/-- The mappings of text sections. -/
def textMappings : List AotSection → Multiset Mapping
  | [] => 0
  | s :: sections =>
    if s.sectionType = .text then
      match s.sectionBody with
      | some addr => {⟨addr, alignedSize s.sectionBodySize⟩} + textMappings sections
      | none => textMappings sections
    else textMappings sections

/-- Besides the mappings that are owned, every mapping has been undone exactly once. -/
def Mappings.Owns (owned : Multiset Mapping) (m : Mappings) : Prop := owned + m.unmapped = m.mapped

/-- Some mappings are undone. -/
def Mappings.undo (l : Multiset Mapping) (m : Mappings) : Mappings :=
  { m with unmapped := m.unmapped + l }

section

variable {owned : Multiset Mapping} {m : Mappings} {plt : ℕ}

lemma owns_undo {l : Multiset Mapping} (h : m.Owns (l + owned)) : (m.undo l).Owns owned := by
  change owned + (m.unmapped + l) = m.mapped
  rw [← h]
  abel

lemma undo_zero : m.undo 0 = m := by rw [Mappings.undo, add_zero]

lemma undo_undo (l k : Multiset Mapping) : (m.undo l).undo k = m.undo (l + k) := by
  rw [Mappings.undo, Mappings.undo, Mappings.undo, add_assoc]

lemma destroyObjectDataSections_eq (sections : List ObjectDataSection) :
    destroyObjectDataSections sections m = m.undo (dataMappings sections) := by
  induction sections generalizing m with
  | nil => exact undo_zero.symm
  | cons s sections ih =>
    rw [destroyObjectDataSections, dataMappings]
    cases s.data with
    | none => exact ih
    | some addr => exact ih.trans (undo_undo _ _)

lemma destroySections_eq (sections : List AotSection) :
    destroySections true sections m = m.undo (textMappings sections) := by
  induction sections generalizing m with
  | nil => exact undo_zero.symm
  | cons s sections ih =>
    rw [destroySections, textMappings]
    by_cases htext : s.sectionType = .text
    · rw [if_pos ⟨rfl, htext⟩, if_pos htext]
      cases s.sectionBody with
      | none => exact ih
      | some addr => exact ih.trans (undo_undo _ _)
    · rw [if_neg (fun h => htext h.2), if_neg htext]
      exact ih

lemma destroySections_false (sections : List AotSection) : destroySections false sections m = m := by
  induction sections with
  | nil => rfl
  | cons s sections ih =>
    rw [destroySections, if_neg (by simp)]
    exact ih

lemma aotUnload_eq (module : AotModule) :
    aotUnload module m = m.undo (module.text + dataMappings module.dataSections) := by
  rw [aotUnload, AotModule.text]
  cases module.code with
  | none =>
    rw [zero_add]
    exact destroyObjectDataSections_eq _
  | some code => exact (destroyObjectDataSections_eq _).trans (undo_undo _ _)

variable {m' : Mappings} {ok : Bool} {f : AotFile} {module module' : AotModule}

/-- A mapping that could be made is owned from then on. -/
lemma owns_osMmap {size : ℕ} {o : MmapOutcome} {r : Option ℕ} (h : m.Owns owned)
    (hm : osMmap size o m = (r, m')) :
    m'.Owns ((match r with
      | some addr => {⟨addr, alignedSize size⟩}
      | none => 0) + owned) := by
  unfold osMmap at hm
  split at hm
  · cases hm
    rw [zero_add]
    exact h
  cases o with
  | mapped addr =>
    cases hm
    change {⟨addr, alignedSize size⟩} + owned + m.unmapped = m.mapped + {⟨addr, alignedSize size⟩}
    rw [← h]
    abel
  | refused =>
    cases hm
    rw [zero_add]
    exact h
  | unprotected addr =>
    cases hm
    change 0 + owned + (m.unmapped + {⟨addr, alignedSize size⟩})
      = m.mapped + {⟨addr, alignedSize size⟩}
    rw [← h]
    abel

/-! ## The sections -/

lemma textMappings_append (k l : List AotSection) :
    textMappings (k ++ l) = textMappings k + textMappings l := by
  induction k with
  | nil => exact (zero_add _).symm
  | cons s k ih =>
    rw [List.cons_append, textMappings, textMappings, ih]
    by_cases htext : s.sectionType = .text
    · rw [if_pos htext, if_pos htext]
      cases s.sectionBody with
      | none => rfl
      | some addr => exact (add_assoc _ _ _).symm
    · rw [if_neg htext, if_neg htext]

/-- A section that could be created owns its mapping. -/
lemma owns_createSection {b : SectionBytes} {r : Option AotSection} (h : m.Owns owned)
    (hm : createSection plt b m = (r, m')) :
    m'.Owns (textMappings r.toList + owned) := by
  have hsame : m.Owns (0 + owned) := by rwa [zero_add]
  unfold createSection at hm
  cases htype : b.sectionType with
  | none =>
    rw [htype] at hm
    cases hm
    exact hsame
  | some type =>
    rw [htype] at hm
    dsimp only at hm
    split at hm
    · cases hm
      exact hsame
    split at hm
    · rename_i htext
      split at hm
      · cases hm
        exact hsame
      · cases hmap : osMmap ((b.size + plt + 3) / 4 * 4) b.osMmap m with
        | mk addr m₁ =>
          have howns := owns_osMmap h hmap
          rw [hmap] at hm
          cases addr with
          | none =>
            cases hm
            exact howns
          | some addr =>
            cases hm
            rw [Option.toList, textMappings, if_pos htext.1]
            exact howns
    · rename_i htext
      cases hm
      rw [Option.toList, textMappings]
      split <;> exact hsame

/-- The sections that have been created own their mappings, whether or not all could be. -/
lemma owns_createSectionList {bs : List SectionBytes} {sections sections' : List AotSection}
    (h : m.Owns (textMappings sections + owned))
    (hm : createSectionList plt bs sections m = (ok, sections', m')) :
    m'.Owns (textMappings sections' + owned) := by
  induction bs generalizing sections m with
  | nil =>
    cases hm
    exact h
  | cons b bs ih =>
    rw [createSectionList] at hm
    cases hsection : createSection plt b m with
    | mk r m₁ =>
      have howns := owns_createSection h hsection
      rw [hsection] at hm
      cases r with
      | none =>
        cases hm
        rwa [Option.toList, textMappings, zero_add] at howns
      | some s =>
        refine ih ?_ hm
        rwa [textMappings_append, add_comm (textMappings sections), add_assoc]

/-- Either all sections are there, with their mappings, or the mappings have been undone. -/
lemma owns_createSections {r : Option (List AotSection)} (h : m.Owns 0)
    (hm : createSections plt f m = (r, m')) :
    m'.Owns (textMappings (r.getD [])) := by
  unfold createSections at hm
  cases hlist : createSectionList plt f.sections [] m with
  | mk ok p =>
    obtain ⟨sections, m₁⟩ := p
    have hnone : m.Owns (textMappings [] + 0) := by rwa [textMappings, zero_add]
    have howns : m₁.Owns (textMappings sections + 0) := owns_createSectionList hnone hlist
    rw [hlist] at hm
    dsimp only at hm
    split at hm
    · split at hm
      · rename_i hempty
        cases hm
        rwa [List.isEmpty_iff.mp hempty, textMappings, zero_add] at howns
      · cases hm
        rwa [add_zero] at howns
    · cases hm
      rw [destroySections_eq]
      exact owns_undo howns

/-! ## The data sections -/

lemma dataMappings_append (k l : List ObjectDataSection) :
    dataMappings (k ++ l) = dataMappings k + dataMappings l := by
  induction k with
  | nil => exact (zero_add _).symm
  | cons s k ih =>
    rw [List.cons_append, dataMappings, dataMappings, ih]
    cases s.data with
    | none => rfl
    | some addr => exact (add_assoc _ _ _).symm

lemma owns_loadObjectDataSection {b : DataSectionBytes} {s : ObjectDataSection} (h : m.Owns owned)
    (hm : loadObjectDataSection b m = (ok, s, m')) :
    m'.Owns (dataMappings [s] + owned) := by
  have hsame : m.Owns (0 + owned) := by rwa [zero_add]
  unfold loadObjectDataSection at hm
  split at hm
  · cases hm
    exact hsame
  split at hm
  · cases hmap : osMmap b.size b.osMmap m with
    | mk addr m₁ =>
      have howns := owns_osMmap h hmap
      rw [hmap] at hm
      cases addr with
      | none =>
        cases hm
        exact howns
      | some addr =>
        cases hm
        exact howns
  · cases hm
    exact hsame

lemma owns_loadObjectDataSections {bs : List DataSectionBytes}
    {sections sections' : List ObjectDataSection} (h : m.Owns (dataMappings sections + owned))
    (hm : loadObjectDataSections bs sections m = (ok, sections', m')) :
    m'.Owns (dataMappings sections' + owned) := by
  induction bs generalizing sections m with
  | nil =>
    cases hm
    exact h
  | cons b bs ih =>
    rw [loadObjectDataSections] at hm
    cases hsection : loadObjectDataSection b m with
    | mk ok₁ p =>
      obtain ⟨s, m₁⟩ := p
      have howns : m₁.Owns (dataMappings (sections ++ [s]) + owned) := by
        rw [dataMappings_append, add_comm (dataMappings sections), add_assoc]
        exact owns_loadObjectDataSection h hsection
      rw [hsection] at hm
      cases ok₁ with
      | true => exact ih howns hm
      | false =>
        cases hm
        exact howns

/-- Reading the initial data leaves the text alone. -/
lemma owns_loadInitDataSection {b : SectionBytes} (hdata : module.dataSections = [])
    (h : m.Owns owned) (hm : loadInitDataSection b module m = (ok, module', m')) :
    m'.Owns (dataMappings module'.dataSections + owned)
      ∧ ∃ sections, module' = { module with dataSections := sections } := by
  have hsame : m.Owns (dataMappings module.dataSections + owned) := by
    rwa [hdata, dataMappings, zero_add]
  unfold loadInitDataSection at hm
  split at hm
  · cases hm
    exact ⟨hsame, _, rfl⟩
  split at hm
  · cases hm
    exact ⟨hsame, _, rfl⟩
  split at hm
  · cases hm
    exact ⟨hsame, _, rfl⟩
  cases hsections : loadObjectDataSections b.dataSections [] m with
  | mk ok₁ p =>
    obtain ⟨sections, m₁⟩ := p
    rw [hsections] at hm
    cases hm
    rw [hdata] at hsame
    exact ⟨owns_loadObjectDataSections hsame hsections, _, rfl⟩

/-! ## The text section -/

lemma text_loadTextSection {addr bodySize : ℕ} (literalSize : UInt32) (module : AotModule)
    (h : bodySize < 2 ^ 32) :
    (loadTextSection addr bodySize literalSize.toNat module).text
      = {⟨addr, alignedSize bodySize⟩} := by
  have hsize : (4 + literalSize.toNat + ((((addr + bodySize : ℕ) : ℤ)
      - (addr + 4 + literalSize.toNat : ℕ)) % 2 ^ 32).toNat) % 2 ^ 32 = bodySize := by
    have := literalSize.toNat_lt
    omega
  simp only [loadTextSection, AotModule.text]
  rw [hsize, Nat.add_sub_cancel]

/-! ## Loading -/

/-- What has not been read yet is as it was made, if the next section has the given type. -/
structure AotModule.Fresh (next : ℕ) (module : AotModule) : Prop where
  dataSections_eq : next ≤ 1 → module.dataSections = []
  code_eq : next ≤ 2 → module.code = none

/-- One section: the module owns what it has mapped, and the text it has read. -/
lemma owns_loadSection {s : AotSection} (hfresh : module.Fresh s.sectionType.code)
    (h : m.Owns (dataMappings module.dataSections + owned))
    (hm : loadSection s module m = (ok, module', m')) :
    m'.Owns (dataMappings module'.dataSections + owned)
      ∧ (ok = true → module'.Fresh (s.sectionType.code + 1)
        ∧ module'.text = module.text + textMappings [s]) := by
  have hnext : module.Fresh (s.sectionType.code + 1) :=
    ⟨fun hle => hfresh.dataSections_eq (by omega), fun hle => hfresh.code_eq (by omega)⟩
  have hother : s.sectionType ≠ .text → textMappings [s] = 0 := fun hne => if_neg hne
  -- the sections without mappings
  have hplain : s.sectionType ≠ .text → (s.content.loads, module, m) = (ok, module', m') →
      m'.Owns (dataMappings module'.dataSections + owned)
        ∧ (ok = true → module'.Fresh (s.sectionType.code + 1)
          ∧ module'.text = module.text + textMappings [s]) := by
    rintro hne ⟨⟩
    exact ⟨h, fun _ => ⟨hnext, by rw [hother hne, add_zero]⟩⟩
  unfold loadSection at hm
  cases htype : s.sectionType with
  | initData =>
    rw [htype] at hm hfresh hother
    rw [hfresh.dataSections_eq (by decide), dataMappings, zero_add] at h
    obtain ⟨howns, sections, rfl⟩ :=
      owns_loadInitDataSection (hfresh.dataSections_eq (by decide)) h hm
    refine ⟨howns, fun _ => ⟨⟨fun hle => absurd hle (by decide), fun _ => ?_⟩, ?_⟩⟩
    · exact hfresh.code_eq (by decide)
    · rw [hother (by decide), add_zero]
      rfl
  | text =>
    rw [htype] at hm hfresh
    cases hbody : s.sectionBody with
    | none =>
      rw [hbody] at hm
      cases hm
      exact ⟨h, nofun⟩
    | some addr =>
      rw [hbody] at hm
      cases hm
      have hdone : AotModule.Fresh (SectionType.text.code + 1)
          (loadTextSection addr s.sectionBodySize s.content.literalSize.toNat module) :=
        ⟨fun hle => absurd hle (by decide), fun hle => absurd hle (by decide)⟩
      refine ⟨h, fun _ => ⟨hdone, ?_⟩⟩
      have hnone : module.text = 0 := by rw [AotModule.text, hfresh.code_eq (by decide)]
      rw [text_loadTextSection _ _ (s.size_lt (by rw [hbody]; rfl)), hnone, zero_add, textMappings,
        if_pos htype, hbody]
      exact (add_zero _).symm
  | targetInfo =>
    rw [htype] at hm hplain
    exact hplain (by decide) hm
  | function =>
    rw [htype] at hm hplain
    exact hplain (by decide) hm
  | «export» =>
    rw [htype] at hm hplain
    exact hplain (by decide) hm
  | relocation =>
    rw [htype] at hm hplain
    exact hplain (by decide) hm

/-- All sections: they come in the order of their types, so there is one text section, and its
mapping is the one the module undoes. -/
lemma owns_loadFromSections {sections : List AotSection} {last : Option SectionType}
    (hfresh : module.Fresh (nextType last))
    (h : m.Owns (dataMappings module.dataSections + owned))
    (hm : loadFromSections sections last module m = (ok, module', m')) :
    m'.Owns (dataMappings module'.dataSections + owned)
      ∧ (ok = true → module'.text = module.text + textMappings sections) := by
  induction sections generalizing last module m with
  | nil =>
    cases hm
    exact ⟨h, fun _ => (add_zero _).symm⟩
  | cons s sections ih =>
    rw [loadFromSections] at hm
    by_cases horder : s.sectionType.code = nextType last
    · rw [if_pos horder] at hm
      rw [← horder] at hfresh
      cases hsection : loadSection s module m with
      | mk ok₁ p =>
        obtain ⟨module₁, m₁⟩ := p
        obtain ⟨howns, hread⟩ := owns_loadSection hfresh h hsection
        rw [hsection] at hm
        cases ok₁ with
        | false =>
          cases hm
          exact ⟨howns, nofun⟩
        | true =>
          obtain ⟨hfresh1, htext⟩ := hread rfl
          change module₁.Fresh (nextType (some s.sectionType)) at hfresh1
          obtain ⟨howns', htext'⟩ := ih hfresh1 howns hm
          refine ⟨howns', fun hok => ?_⟩
          rw [htext' hok, htext, add_assoc, ← textMappings_append]
          rfl
    · rw [if_neg horder] at hm
      cases hm
      exact ⟨h, nofun⟩

/-- The mappings of a module. -/
def AotModule.mappings (module : AotModule) : Multiset Mapping :=
  module.text + dataMappings module.dataSections

lemma fresh_zero : AotModule.zero.Fresh (nextType none) := ⟨fun _ => rfl, fun _ => rfl⟩

lemma owns_load (h : m.Owns 0) (hm : load plt f AotModule.zero m = (ok, module', m')) :
    m'.Owns module'.mappings := by
  have hzero : AotModule.zero.mappings = 0 := zero_add 0
  unfold load at hm
  split at hm
  · cases hm
    rwa [hzero]
  cases hsections : createSections plt f m with
  | mk r m₁ =>
    have howns := owns_createSections h hsections
    rw [hsections] at hm
    cases r with
    | none =>
      cases hm
      rwa [hzero]
    | some sections =>
      have hstart : m₁.Owns (dataMappings AotModule.zero.dataSections + textMappings sections) := by
        rwa [AotModule.zero, dataMappings, zero_add]
      dsimp only at hm
      cases hload : loadFromSections sections none AotModule.zero m₁ with
      | mk ok₁ p =>
        obtain ⟨module₁, m₂⟩ := p
        obtain ⟨howns1, htext⟩ := owns_loadFromSections fresh_zero hstart hload
        rw [hload] at hm
        cases ok₁ with
        | true =>
          have htext1 : module₁.text = textMappings sections := by
            rw [htext rfl]
            exact zero_add _
          cases hm
          rw [destroySections_false, AotModule.mappings, htext1, add_comm]
          exact howns1
        | false =>
          cases hm
          have hdata : AotModule.mappings { module₁ with code := none }
              = dataMappings module₁.dataSections := zero_add _
          rw [destroySections_eq, hdata]
          rw [add_comm] at howns1
          exact owns_undo howns1

/-- Unloading a module undoes its mappings. -/
theorem owns_aotUnload (h : m.Owns module.mappings) :
    (aotUnload module m).Owns 0 := by
  rw [aotUnload_eq]
  exact owns_undo (by rwa [add_zero])

/-- Loading a file: a module owns its mappings, and without one nothing is left. -/
theorem owns_aotLoadFromAotFile {r : Option AotModule} (h : m.Owns 0)
    (hm : aotLoadFromAotFile plt f m = (r, m')) :
    m'.Owns ((r.map AotModule.mappings).getD 0) := by
  unfold aotLoadFromAotFile at hm
  split at hm
  · cases hm
    exact h
  cases hload : load plt f AotModule.zero m with
  | mk ok p =>
    obtain ⟨module, m₁⟩ := p
    have howns := owns_load h hload
    rw [hload] at hm
    cases ok with
    | true =>
      cases hm
      exact howns
    | false =>
      cases hm
      exact owns_aotUnload howns

end

end Watz.Aot
