import Watz.Lib.Segments
import Watz.Wamr.Native

/-!
# Tables of native symbols

A table of native functions is sorted by name when it is registered (`register_natives`), with a
quicksort that exchanges elements from both ends.  An import of a module is resolved by a binary
search in the tables of its module name (`wasm_native_resolve_symbol`).

The source computes indices as `int`.  The number of symbols is an unsigned 32-bit number, so the
conversions and sums that can overflow are written as such here.  An array is a function from
indices, with whatever is around it in memory.
-/

namespace Watz.Wamr

open Lib

/-! ## Strings -/

/-- A string in C: the bytes before the terminating zero. -/
structure CString where
  bytes : List UInt8
  nonzero : 0 ∉ bytes
deriving DecidableEq

/-- The loop of `strcmp`: the difference of the first bytes that differ, the last one being the
terminating zero. -/
def strcmpBytes : List UInt8 → List UInt8 → ℤ
  | [], [] => 0
  | [], d :: _ => -d.toNat
  | c :: _, [] => c.toNat
  | c :: x, d :: y => if c = d then strcmpBytes x y else c.toNat - d.toNat

def strcmp (s t : CString) : ℤ := strcmpBytes s.bytes t.bytes

/-- What `strcmp` orders strings by. -/
def CString.key (s : CString) : List ℕ := s.bytes.map UInt8.toNat

lemma CString.key_injective : Function.Injective CString.key := by
  rintro ⟨x, hx⟩ ⟨y, hy⟩ heq
  have hinj : Function.Injective UInt8.toNat := fun a b => UInt8.toNat.inj
  obtain rfl : x = y := List.map_injective_iff.mpr hinj heq
  rfl

lemma strcmpBytes_neg_iff {x y : List UInt8} (hy : 0 ∉ y) :
    strcmpBytes x y < 0 ↔ x.map UInt8.toNat < y.map UInt8.toNat := by
  induction x generalizing y with
  | nil =>
    cases y with
    | nil => simp [strcmpBytes]
    | cons d y =>
      have hd : d ≠ 0 := fun h0 => hy (by simp [h0])
      have hpos : d.toNat ≠ 0 := fun h0 => hd (UInt8.toNat.inj h0)
      simp only [strcmpBytes, List.map_nil, List.map_cons, List.nil_lt_cons, iff_true]
      omega
  | cons c x ih =>
    cases y with
    | nil => simp [strcmpBytes]
    | cons d y =>
      rw [strcmpBytes, List.map_cons, List.map_cons, List.cons_lt_cons_iff]
      split
      · rename_i heq
        rw [ih fun h0 => hy (List.mem_cons_of_mem d h0), heq]
        simp
      · rename_i hne
        have hne' : c.toNat ≠ d.toNat := fun heq => hne (UInt8.toNat.inj heq)
        constructor
        · intro hlt
          exact .inl (by omega)
        · rintro (hlt | ⟨heq, -⟩)
          · omega
          · exact absurd heq hne'

lemma strcmpBytes_antisymm (x y : List UInt8) : strcmpBytes y x = -strcmpBytes x y := by
  induction x generalizing y with
  | nil => cases y <;> simp [strcmpBytes]
  | cons c x ih =>
    cases y with
    | nil => simp [strcmpBytes]
    | cons d y =>
      rw [strcmpBytes, strcmpBytes]
      by_cases heq : c = d
      · rw [if_pos heq, if_pos heq.symm, ih]
      · rw [if_neg heq, if_neg (Ne.symm heq)]
        omega

lemma strcmp_neg_iff {s t : CString} : strcmp s t < 0 ↔ s.key < t.key :=
  strcmpBytes_neg_iff t.nonzero

lemma strcmp_pos_iff {s t : CString} : 0 < strcmp s t ↔ t.key < s.key := by
  rw [← strcmp_neg_iff, strcmp, strcmp, strcmpBytes_antisymm]
  omega

lemma strcmp_eq_zero_iff {s t : CString} : strcmp s t = 0 ↔ s = t := by
  have hneg := strcmp_neg_iff (s := s) (t := t)
  have hpos := strcmp_pos_iff (s := s) (t := t)
  constructor
  · intro h0
    refine CString.key_injective (le_antisymm (not_lt.mp fun hlt => ?_) (not_lt.mp fun hlt => ?_))
    · have := hpos.mpr hlt
      omega
    · have := hneg.mpr hlt
      omega
  · rintro rfl
    have h1 : ¬ strcmp s s < 0 := fun hlt => lt_irrefl _ (hneg.mp hlt)
    have h2 : ¬ 0 < strcmp s s := fun hlt => lt_irrefl _ (hpos.mp hlt)
    omega

/-! ## Sorting a table -/

/-- A number as an `int`. -/
def int32 (x : ℤ) : ℤ := Int.bmod x (2 ^ 32)

lemma int32_spec (x : ℤ) : -2 ^ 31 ≤ int32 x ∧ int32 x < 2 ^ 31
    ∧ ∃ k : ℤ, int32 x = x + 2 ^ 32 * k := by
  have hemod := Int.emod_add_mul_ediv x (2 ^ 32)
  rw [int32, Int.bmod]
  refine ⟨by split <;> omega, by split <;> omega, ?_⟩
  split
  · exact ⟨-(x / 2 ^ 32), by push_cast; omega⟩
  · exact ⟨-(x / 2 ^ 32) - 1, by push_cast; omega⟩

lemma int32_eq {x : ℤ} (hlo : -2 ^ 31 ≤ x) (hhi : x < 2 ^ 31) : int32 x = x := by
  rw [int32, Int.bmod]
  split <;> omega

/-- `NativeSymbol`; the signature may be null. -/
structure NativeSymbol where
  symbol : CString
  funcPtr : ℕ
  signature : Option (List Char)
  attachment : ℕ

/-- The names order the symbols. -/
def NativeSymbol.key (s : NativeSymbol) : List ℕ := s.symbol.key

/-- `swap_symbol`. -/
def swapSymbol (a : ℤ → NativeSymbol) (left right : ℤ) : ℤ → NativeSymbol :=
  a ∘ Equiv.swap left right

/-- The first inner loop of `quick_sort_symbols`, from the right down to `left`, with the number of
elements between them: where it stops. -/
def scanRight (a : ℤ → NativeSymbol) (base : NativeSymbol) (left : ℤ) : ℕ → ℤ
  | 0 => left
  | k + 1 =>
    if 0 < strcmp (a (left + (k + 1 : ℕ))).symbol base.symbol then scanRight a base left k
    else left + (k + 1 : ℕ)

/-- The second inner loop, from the left up to `right`. -/
def scanLeft (a : ℤ → NativeSymbol) (base : NativeSymbol) (right : ℤ) : ℕ → ℤ
  | 0 => right
  | k + 1 =>
    if strcmp (a (right - (k + 1 : ℕ))).symbol base.symbol < 0 then scanLeft a base right k
    else right - (k + 1 : ℕ)

variable {a : ℤ → NativeSymbol} {base : NativeSymbol}

lemma scanRight_spec (a : ℤ → NativeSymbol) (base : NativeSymbol) (left : ℤ) (k : ℕ) :
    left ≤ scanRight a base left k ∧ scanRight a base left k ≤ left + k
      ∧ (left < scanRight a base left k → (a (scanRight a base left k)).key ≤ base.key)
      ∧ ∀ j, scanRight a base left k < j → j ≤ left + k → base.key < (a j).key := by
  induction k with
  | zero =>
    refine ⟨le_rfl, by simp [scanRight], fun h => absurd h (lt_irrefl _), fun j h1 h2 => ?_⟩
    rw [scanRight] at h1
    omega
  | succ k ih =>
    rw [scanRight]
    split
    · rename_i hpos
      obtain ⟨h1, h2, h3, h4⟩ := ih
      refine ⟨h1, by omega, h3, fun j hj hle => ?_⟩
      rcases eq_or_ne j (left + (k + 1 : ℕ)) with rfl | hne
      · exact strcmp_pos_iff.mp hpos
      · exact h4 j hj (by omega)
    · rename_i hpos
      refine ⟨by omega, le_rfl, fun _ => ?_, fun j h1 h2 => by omega⟩
      exact not_lt.mp fun hlt => hpos (strcmp_pos_iff.mpr hlt)

lemma scanLeft_spec (a : ℤ → NativeSymbol) (base : NativeSymbol) (right : ℤ) (k : ℕ) :
    right - k ≤ scanLeft a base right k ∧ scanLeft a base right k ≤ right
      ∧ (scanLeft a base right k < right → base.key ≤ (a (scanLeft a base right k)).key)
      ∧ ∀ j, right - k ≤ j → j < scanLeft a base right k → (a j).key < base.key := by
  induction k with
  | zero =>
    refine ⟨by simp [scanLeft], le_rfl, fun h => absurd h (lt_irrefl _), fun j h1 h2 => ?_⟩
    rw [scanLeft] at h2
    omega
  | succ k ih =>
    rw [scanLeft]
    split
    · rename_i hneg
      obtain ⟨h1, h2, h3, h4⟩ := ih
      refine ⟨by omega, h2, h3, fun j hj hlt => ?_⟩
      rcases eq_or_ne j (right - (k + 1 : ℕ)) with rfl | hne
      · exact strcmp_neg_iff.mp hneg
      · exact h4 j (by omega) hlt
    · rename_i hneg
      refine ⟨le_rfl, by omega, fun _ => ?_, fun j h1 h2 => by omega⟩
      exact not_lt.mp fun hlt => hneg (strcmp_neg_iff.mpr hlt)

/-- The outer loop of `quick_sort_symbols`: the array and the place of the base symbol.  Each round
moves one of the ends, so the loop stops. -/
def partitionLoop (base : NativeSymbol) (a : ℤ → NativeSymbol) (left right : ℤ) :
    (ℤ → NativeSymbol) × ℤ :=
  if left < right then
    let right' := scanRight a base left (right - left).toNat
    if left < right' then
      let a' := swapSymbol a left right'
      let left' := scanLeft a' base right' (right' - (left + 1)).toNat
      if left' < right' then partitionLoop base (swapSymbol a' left' right') left' (right' - 1)
      -- the loop condition fails now
      else (a', left')
    else (a, left)
  else (a, left)
termination_by (right - left).toNat
decreasing_by
  have h1 := (scanRight_spec a base left (right - left).toNat).2.1
  have h2 := (scanLeft_spec (swapSymbol a left (scanRight a base left (right - left).toNat)) base
    (scanRight a base left (right - left).toNat)
    (scanRight a base left (right - left).toNat - (left + 1)).toNat).1
  omega

/-- `quick_sort_symbols`.  Running out of rounds is an endless recursion. -/
def quickSortSymbols : ℕ → (ℤ → NativeSymbol) → ℤ → ℤ → Option (ℤ → NativeSymbol)
  | 0, _, _, _ => none
  | fuel + 1, a, left, right =>
    if left ≥ right then some a
    else
      let base := a left
      let (a, pin) := partitionLoop base a left right
      let a := Function.update a pin base
      (quickSortSymbols fuel a left (pin - 1)).bind fun a =>
        quickSortSymbols fuel a (int32 (pin + 1)) right

/-- The outer loop puts the base symbol between smaller and larger ones. -/
lemma partitionLoop_spec (left right : ℤ) (hle : left ≤ right) (hbase : a left = base) :
    let res := partitionLoop base a left right
    (left ≤ res.2 ∧ res.2 ≤ right) ∧ PermOn left right a res.1 ∧ res.1 res.2 = base
      ∧ (∀ i, left ≤ i → i < res.2 → (res.1 i).key ≤ base.key)
      ∧ ∀ j, res.2 < j → j ≤ right → base.key ≤ (res.1 j).key := by
  -- by induction on the distance between the two ends
  induction hk : (right - left).toNat using Nat.strong_induction_on generalizing a left right with
  | _ k ih =>
  rw [partitionLoop]
  by_cases hlt : left < right
  swap
  · obtain rfl : left = right := by omega
    rw [if_neg hlt]
    exact ⟨⟨le_rfl, le_rfl⟩, .refl _ _ _, hbase, fun i h1 h2 => by omega, fun j h1 h2 => by omega⟩
  rw [if_pos hlt]
  obtain ⟨hr1, hr2, hr3, hr4⟩ := scanRight_spec a base left (right - left).toNat
  dsimp only
  generalize scanRight a base left (right - left).toNat = r at *
  have hright : left + ((right - left).toNat : ℤ) = right := by omega
  rw [hright] at hr2 hr4
  by_cases hlr : left < r
  swap
  · -- everything on the right is larger
    obtain rfl : left = r := by omega
    rw [if_neg hlr]
    exact ⟨⟨le_rfl, hle⟩, .refl _ _ _, hbase, fun i h1 h2 => by omega, fun j h1 h2 => (hr4 j h1 h2).le⟩
  rw [if_pos hlr]
  have hswap : PermOn left right a (swapSymbol a left r) := PermOn.swap ⟨le_rfl, hle⟩ ⟨hr1, hr2⟩
  have hatR : swapSymbol a left r r = base := by
    rw [swapSymbol, Function.comp_apply, Equiv.swap_apply_right, hbase]
  have hatL : (swapSymbol a left r left).key ≤ base.key := by
    rw [swapSymbol, Function.comp_apply, Equiv.swap_apply_left]
    exact hr3 hlr
  have hout : ∀ j, j ≠ left → j ≠ r → swapSymbol a left r j = a j := fun j h1 h2 => by
    rw [swapSymbol, Function.comp_apply, Equiv.swap_apply_of_ne_of_ne h1 h2]
  obtain ⟨hl1, hl2, hl3, hl4⟩ := scanLeft_spec (swapSymbol a left r) base r (r - (left + 1)).toNat
  generalize scanLeft (swapSymbol a left r) base r (r - (left + 1)).toNat = l at *
  have hleft : r - ((r - (left + 1)).toNat : ℤ) = left + 1 := by omega
  rw [hleft] at hl1 hl4
  have hsmall : ∀ i, left ≤ i → i < l → (swapSymbol a left r i).key ≤ base.key := by
    intro i h1 h2
    rcases h1.eq_or_lt with rfl | h1
    · exact hatL
    · exact (hl4 i (by omega) h2).le
  have hlarge : ∀ j, r < j → j ≤ right → base.key ≤ (swapSymbol a left r j).key := by
    intro j h1 h2
    rw [hout j (by omega) (by omega)]
    exact (hr4 j h1 h2).le
  generalize swapSymbol a left r = a' at *
  by_cases hll : l < r
  · -- the base symbol goes back to the left end, and the loop continues between the two
    rw [if_pos hll]
    have hswap' : PermOn left right a' (swapSymbol a' l r) :=
      PermOn.swap ⟨by omega, by omega⟩ ⟨hr1, hr2⟩
    have hbase' : swapSymbol a' l r l = base := by
      rw [swapSymbol, Function.comp_apply, Equiv.swap_apply_left, hatR]
    have hatR' : base.key ≤ (swapSymbol a' l r r).key := by
      rw [swapSymbol, Function.comp_apply, Equiv.swap_apply_right]
      exact hl3 hll
    have hout' : ∀ j, j ≠ l → j ≠ r → swapSymbol a' l r j = a' j := fun j h1 h2 => by
      rw [swapSymbol, Function.comp_apply, Equiv.swap_apply_of_ne_of_ne h1 h2]
    generalize swapSymbol a' l r = a'' at *
    obtain ⟨⟨hp1, hp2⟩, hperm, hat, hle', hge'⟩ :=
      ih _ (by omega) l (r - 1) (by omega) hbase' rfl
    refine ⟨⟨by omega, by omega⟩, (hswap.trans hswap').trans (hperm.mono (by omega) (by omega)),
      hat, fun i h1 h2 => ?_, fun j h1 h2 => ?_⟩
    · by_cases hil : l ≤ i
      · exact hle' i hil h2
      · rw [hperm.eq_of_outside (by omega), hout' i (by omega) (by omega)]
        exact hsmall i h1 (by omega)
    · by_cases hjr : j ≤ r - 1
      · exact hge' j h1 hjr
      · rw [hperm.eq_of_outside (by omega)]
        rcases eq_or_ne j r with rfl | hne
        · exact hatR'
        · rw [hout' j (by omega) hne]
          exact hlarge j (by omega) h2
  · obtain rfl : l = r := by omega
    rw [if_neg hll]
    exact ⟨⟨hr1, hr2⟩, hswap, hatR, hsmall, hlarge⟩

lemma quickSortSymbols_spec (fuel : ℕ) (left right : ℤ) (hleft : 0 ≤ left)
    (hright : right < 2 ^ 31 - 1) (hfuel : (right + 1 - left).toNat < fuel) :
    ∃ a', quickSortSymbols fuel a left right = some a' ∧ PermOn left right a a'
      ∧ SortedOn NativeSymbol.key left right a' := by
  induction fuel generalizing a left right with
  | zero => exact absurd hfuel (Nat.not_lt_zero _)
  | succ fuel ih =>
    rw [quickSortSymbols]
    by_cases hge : left ≥ right
    · rw [if_pos hge]
      exact ⟨a, rfl, .refl _ _ _, .of_le hge⟩
    rw [if_neg hge]
    obtain ⟨⟨hp1, hp2⟩, hperm, hat, hle, hge'⟩ :=
      partitionLoop_spec (a := a) left right (by omega) rfl
    dsimp only
    generalize partitionLoop (a left) a left right = res at *
    obtain ⟨a₁, pin⟩ := res
    dsimp only at *
    -- the base symbol is already in its place
    rw [← hat, Function.update_eq_self]
    rw [← hat] at hle hge'
    obtain ⟨a₂, hrun2, hperm2, hsorted2⟩ := ih (a := a₁) left (pin - 1) hleft (by omega) (by omega)
    obtain ⟨a₃, hrun3, hperm3, hsorted3⟩ := ih (a := a₂) (pin + 1) right (by omega) hright (by omega)
    rw [hrun2, Option.bind_some, int32_eq (by omega) (by omega), hrun3]
    have hat2 : a₂ pin = a₁ pin := hperm2.eq_of_outside (by omega)
    have hat3 : a₃ pin = a₂ pin := hperm3.eq_of_outside (by omega)
    refine ⟨a₃, rfl, (hperm.trans (hperm2.mono le_rfl (by omega))).trans
      (hperm3.mono (by omega) le_rfl), SortedOn.join (p := pin) ?_ hsorted3 ?_ ?_⟩
    · exact hsorted2.congr fun k h1 h2 => hperm3.eq_of_outside (by omega)
    · intro i h1 h2
      rw [hat3, hat2, hperm3.eq_of_outside (by omega)]
      obtain ⟨k, hk, heq⟩ := hperm2.exists_of_inside (k := i) ⟨h1, by omega⟩
      rw [heq]
      exact hle k hk.1 (by omega)
    · intro j h1 h2
      rw [hat3, hat2]
      obtain ⟨k, hk, heq⟩ := hperm3.exists_of_inside (k := j) ⟨by omega, h2⟩
      rw [heq, hperm2.eq_of_outside (by omega)]
      exact hge' k (by omega) hk.2

/-! ## Registering and resolving -/

/-- `NativeSymbolsNode`: a registered table.  The elements of the array are those from `0`. -/
structure NativeSymbolsNode where
  moduleName : CString
  nativeSymbols : ℤ → NativeSymbol
  nNativeSymbols : ℕ
  /-- The number is an `uint32`. -/
  count_lt : nNativeSymbols < 2 ^ 32
  callConvRaw : Bool

/-- The loop of `lookup_symbol`.  Running out of rounds is an endless loop. -/
def lookupLoop (a : ℤ → NativeSymbol) (symbol : CString) :
    ℕ → ℤ → ℤ → Option (Option NativeSymbol)
  | 0, _, _ => none
  | fuel + 1, low, high =>
    if low ≤ high then
      let mid := (int32 (low + high)).tdiv 2
      let ret := strcmp symbol (a mid).symbol
      if ret = 0 then some (some (a mid))
      else if ret < 0 then lookupLoop a symbol fuel low (mid - 1)
      else lookupLoop a symbol fuel (mid + 1) high
    else some none

namespace NativeSymbolsNode

/-- `lookup_symbol`. -/
def lookupSymbol (node : NativeSymbolsNode) (symbol : CString) : Option (Option NativeSymbol) :=
  lookupLoop node.nativeSymbols symbol (node.nNativeSymbols + 1) 0
    (int32 (int32 node.nNativeSymbols - 1))

end NativeSymbolsNode

/-- The name after a leading underscore. -/
def CString.dropUnderscore (s : CString) : Option CString :=
  if s.bytes.head? = some 95 then
    some ⟨s.bytes.tail, fun h0 => s.nonzero (List.mem_of_mem_tail h0)⟩
  else none

/-- The two lookups of `wasm_native_resolve_symbol` in a table: a symbol without a function counts
as not found. -/
def NativeSymbolsNode.lookupField (node : NativeSymbolsNode) (fieldName : CString) :
    Option (Option NativeSymbol) :=
  (node.lookupSymbol fieldName).bind fun found =>
    match found.filter (·.funcPtr ≠ 0), fieldName.dropUnderscore with
    | some s, _ => some (some s)
    | none, none => some none
    | none, some name => (node.lookupSymbol name).map (·.filter (·.funcPtr ≠ 0))

/-- The loop of `wasm_native_resolve_symbol` over the tables. -/
def findSymbol (moduleName fieldName : CString) :
    List NativeSymbolsNode → Option (Option (NativeSymbolsNode × NativeSymbol))
  | [] => some none
  | node :: rest =>
    if strcmp node.moduleName moduleName = 0 then
      (node.lookupField fieldName).bind fun
        | some s => some (some (node, s))
        | none => findSymbol moduleName fieldName rest
    else findSymbol moduleName fieldName rest

/-- What `wasm_native_resolve_symbol` returns and stores. -/
structure ResolvedSymbol where
  funcPtr : ℕ
  signature : Option (List Char)
  attachment : ℕ
  callConvRaw : Bool

/-- `wasm_native_resolve_symbol`, over `g_native_symbols_list`. -/
def wasmNativeResolveSymbol (nodes : List NativeSymbolsNode) (moduleName fieldName : CString)
    (type : FuncType) : Option (Option ResolvedSymbol) :=
  (findSymbol moduleName fieldName nodes).map fun
    | none => none
    | some (node, s) =>
      match s.signature with
      | none => some ⟨s.funcPtr, none, s.attachment, node.callConvRaw⟩
      | some [] => some ⟨s.funcPtr, none, s.attachment, node.callConvRaw⟩
      | some signature =>
        if checkSymbolSignature type signature then
          some ⟨s.funcPtr, some signature, s.attachment, node.callConvRaw⟩
        else none

/-- `register_natives`, when there is memory for the node. -/
def registerNatives (nodes : List NativeSymbolsNode) (node : NativeSymbolsNode) :
    Option (List NativeSymbolsNode) :=
  (quickSortSymbols (node.nNativeSymbols + 1) node.nativeSymbols 0
    (int32 (node.nNativeSymbols - 1))).map fun a => { node with nativeSymbols := a } :: nodes

/-- Tables registered one after the other. -/
def registerAll (tables : List NativeSymbolsNode) : Option (List NativeSymbolsNode) :=
  tables.foldlM registerNatives []

/-! ## What resolving a name means -/

namespace NativeSymbolsNode

variable {node table : NativeSymbolsNode} {name fieldName : CString} {s : NativeSymbol}

/-- The table has the symbol. -/
def Contains (node : NativeSymbolsNode) (s : NativeSymbol) : Prop :=
  ∃ i : ℤ, 0 ≤ i ∧ i < node.nNativeSymbols ∧ node.nativeSymbols i = s

/-- A symbol of the table has the name. -/
def HasName (node : NativeSymbolsNode) (name : CString) : Prop :=
  ∃ s, node.Contains s ∧ s.symbol = name

/-- The table has the name of a field, or that name without a leading underscore. -/
def HasField (node : NativeSymbolsNode) (fieldName : CString) : Prop :=
  node.HasName fieldName ∨ ∃ name, fieldName.dropUnderscore = some name ∧ node.HasName name

/-- The symbol is one the name of a field stands for in the table. -/
def Names (node : NativeSymbolsNode) (fieldName : CString) (s : NativeSymbol) : Prop :=
  node.Contains s ∧ (s.symbol = fieldName
    ∨ ¬ node.HasName fieldName ∧ fieldName.dropUnderscore = some s.symbol)

/-- Every symbol of the table has a function. -/
def Callable (node : NativeSymbolsNode) : Prop := ∀ s, node.Contains s → s.funcPtr ≠ 0

/-- The table has been sorted by `strcmp`. -/
def Sorted (node : NativeSymbolsNode) : Prop :=
  ∀ i j : ℤ, 0 ≤ i → i ≤ j → j < node.nNativeSymbols →
    strcmp (node.nativeSymbols i).symbol (node.nativeSymbols j).symbol ≤ 0

/-- A table as it is registered: its symbols in another order. -/
def Reordered (table node : NativeSymbolsNode) : Prop :=
  node = { table with nativeSymbols := node.nativeSymbols }
    ∧ PermOn 0 (table.nNativeSymbols - 1) table.nativeSymbols node.nativeSymbols

end NativeSymbolsNode

/-- The signature of a symbol is empty, or it is accepted for the type of the import. -/
def NativeSymbol.Accepts (s : NativeSymbol) (type : FuncType) : Prop :=
  s.signature.getD [] = [] ∨ checkSymbolSignature type (s.signature.getD []) = true

/-- The first table in the list that is for the module and has the field. -/
def FirstWith (nodes : List NativeSymbolsNode) (moduleName fieldName : CString)
    (node : NativeSymbolsNode) : Prop :=
  ∃ before after, nodes = before ++ node :: after
    ∧ (node.moduleName = moduleName ∧ node.HasField fieldName)
    ∧ ∀ x ∈ before, x.moduleName = moduleName → ¬ x.HasField fieldName

/-- Registering the tables sorts them; every table then finds a symbol for each field it has, and
names are resolved by the first table that has them. -/
def Resolves (tables : List NativeSymbolsNode) : Prop :=
  ∃ nodes, registerAll tables = some nodes
    ∧ List.Forall₂ (fun table node => table.Reordered node ∧ node.Sorted) tables.reverse nodes
    ∧ (∀ node ∈ nodes, ∀ fieldName, node.HasField fieldName →
      ∃ s, node.lookupField fieldName = some (some s) ∧ node.Names fieldName s)
    ∧ ∀ moduleName fieldName type,
      ∃ result, wasmNativeResolveSymbol nodes moduleName fieldName type = some result
        ∧ ((∃ r, result = some r ∧ r.funcPtr ≠ 0) ↔
          ∃ node s, FirstWith nodes moduleName fieldName node
            ∧ (node.lookupField fieldName = some (some s) ∧ node.Names fieldName s)
            ∧ s.Accepts type)

/-! ## Binary search -/

lemma lookupLoop_spec (symbol : CString) {n : ℤ} (hn : n ≤ 2 ^ 30)
    (hsorted : SortedOn NativeSymbol.key 0 (n - 1) a) (fuel : ℕ) (low high : ℤ) (hlow : 0 ≤ low)
    (hhigh : high < n) (hbelow : ∀ i, 0 ≤ i → i < low → (a i).key < symbol.key)
    (habove : ∀ i, high < i → i < n → symbol.key < (a i).key)
    (hfuel : (high + 1 - low).toNat < fuel) :
    ∃ found, lookupLoop a symbol fuel low high = some found
      ∧ (∀ s, found = some s → (∃ i, 0 ≤ i ∧ i < n ∧ a i = s) ∧ s.symbol = symbol)
      ∧ (found = none → ∀ i, 0 ≤ i → i < n → (a i).symbol ≠ symbol) := by
  induction fuel generalizing low high with
  | zero => exact absurd hfuel (Nat.not_lt_zero _)
  | succ fuel ih =>
    rw [lookupLoop]
    by_cases hle : low ≤ high
    swap
    · -- every symbol is below or above
      rw [if_neg hle]
      refine ⟨none, rfl, by simp, fun _ i h1 h2 heq => ?_⟩
      by_cases hi : i < low
      · exact (hbelow i h1 hi).ne (congrArg CString.key heq)
      · exact (habove i (by omega) h2).ne' (congrArg CString.key heq)
    rw [if_pos hle, int32_eq (by omega) (by omega), Int.tdiv_eq_ediv_of_nonneg (by omega)]
    have hmid : low ≤ (low + high) / 2 ∧ (low + high) / 2 ≤ high := by omega
    dsimp only
    generalize (low + high) / 2 = mid at hmid
    obtain ⟨hmid1, hmid2⟩ := hmid
    by_cases heq : strcmp symbol (a mid).symbol = 0
    · rw [if_pos heq]
      refine ⟨some (a mid), rfl, ?_, by simp⟩
      rintro s ⟨⟩
      exact ⟨⟨mid, by omega, by omega, rfl⟩, (strcmp_eq_zero_iff.mp heq).symm⟩
    rw [if_neg heq]
    by_cases hneg : strcmp symbol (a mid).symbol < 0
    · rw [if_pos hneg]
      have hlt : symbol.key < (a mid).key := strcmp_neg_iff.mp hneg
      refine ih low (mid - 1) hlow (by omega) hbelow (fun i h1 h2 => ?_) (by omega)
      exact hlt.trans_le (hsorted mid i (by omega) (by omega) (by omega))
    · rw [if_neg hneg]
      have hlt : (a mid).key < symbol.key := strcmp_pos_iff.mp (by omega)
      refine ih (mid + 1) high (by omega) hhigh (fun i h1 h2 => ?_) habove (by omega)
      exact (hsorted i mid h1 (by omega) (by omega)).trans_lt hlt

namespace NativeSymbolsNode

variable {node table : NativeSymbolsNode} {fieldName : CString}

lemma sorted_iff : node.Sorted
    ↔ SortedOn NativeSymbol.key 0 (node.nNativeSymbols - 1) node.nativeSymbols := by
  have hiff : ∀ i j, strcmp (node.nativeSymbols i).symbol (node.nativeSymbols j).symbol ≤ 0
      ↔ (node.nativeSymbols i).key ≤ (node.nativeSymbols j).key := fun i j => by
    rw [← not_lt, strcmp_pos_iff, not_lt]
    rfl
  constructor
  · intro h i j hi hij hj
    exact (hiff i j).mp (h i j hi hij (by omega))
  · intro h i j hi hij hj
    exact (hiff i j).mpr (h i j hi hij (by omega))

lemma lookupSymbol_spec (hn : node.nNativeSymbols ≤ 2 ^ 30) (hsorted : node.Sorted)
    (name : CString) :
    ∃ found, node.lookupSymbol name = some found
      ∧ (∀ s, found = some s → node.Contains s ∧ s.symbol = name)
      ∧ (found = none → ¬ node.HasName name) := by
  obtain ⟨found, hrun, hsome, hnone⟩ := lookupLoop_spec name (n := node.nNativeSymbols)
    (by exact_mod_cast hn) (sorted_iff.mp hsorted) (node.nNativeSymbols + 1) 0
    (node.nNativeSymbols - 1) le_rfl (by omega) (fun i h1 h2 => by omega)
    (fun i h1 h2 => by omega) (by omega)
  refine ⟨found, ?_, hsome, ?_⟩
  · rw [lookupSymbol, int32_eq (x := node.nNativeSymbols) (by omega) (by omega),
      int32_eq (by omega) (by omega), hrun]
  · rintro h0 ⟨s, ⟨i, h1, h2, rfl⟩, heq⟩
    exact hnone h0 i h1 h2 heq

lemma lookupField_spec (hn : node.nNativeSymbols ≤ 2 ^ 30) (hsorted : node.Sorted)
    (hcall : node.Callable) (fieldName : CString) :
    ∃ found, node.lookupField fieldName = some found
      ∧ (∀ s, found = some s → node.Names fieldName s)
      ∧ (found = none ↔ ¬ node.HasField fieldName) := by
  have hkeep : ∀ {name : CString} {found : Option NativeSymbol},
      (∀ s, found = some s → node.Contains s ∧ s.symbol = name) →
        found.filter (·.funcPtr ≠ 0) = found := by
    rintro name (_ | s) h
    · rfl
    · simp [hcall s (h s rfl).1]
  obtain ⟨found, hrun, hsome, hnone⟩ := lookupSymbol_spec hn hsorted fieldName
  rw [lookupField, hrun, Option.bind_some, hkeep hsome]
  rcases found with _ | s
  swap
  · obtain ⟨hmem, hname⟩ := hsome s rfl
    refine ⟨some s, rfl, ?_, by simp [HasField, show node.HasName fieldName from ⟨s, hmem, hname⟩]⟩
    rintro s ⟨⟩
    exact ⟨hmem, .inl hname⟩
  rcases hdrop : fieldName.dropUnderscore with _ | name
  · exact ⟨none, rfl, by simp, by simp [HasField, hnone rfl, hdrop]⟩
  · obtain ⟨found', hrun', hsome', hnone'⟩ := lookupSymbol_spec hn hsorted name
    refine ⟨found', ?_, ?_, ?_⟩
    · show (node.lookupSymbol name).map (·.filter (·.funcPtr ≠ 0)) = some found'
      rw [hrun', Option.map_some, hkeep hsome']
    · intro s hs
      obtain ⟨hmem, rfl⟩ := hsome' s hs
      exact ⟨hmem, .inr ⟨hnone rfl, hdrop⟩⟩
    · have hfield : node.HasField fieldName ↔ node.HasName name := by
        simp [HasField, hnone rfl, hdrop]
      rw [hfield]
      refine ⟨hnone', fun hno => ?_⟩
      rcases found' with _ | s
      · rfl
      · exact absurd ⟨s, hsome' s rfl⟩ hno

end NativeSymbolsNode

section Resolve

variable {nodes : List NativeSymbolsNode} {moduleName fieldName : CString}
  {node x : NativeSymbolsNode}

lemma firstWith_cons : FirstWith (x :: nodes) moduleName fieldName node ↔
    x = node ∧ (x.moduleName = moduleName ∧ x.HasField fieldName)
      ∨ ¬ (x.moduleName = moduleName ∧ x.HasField fieldName)
        ∧ FirstWith nodes moduleName fieldName node := by
  constructor
  · rintro ⟨before, after, heq, hnode, hbefore⟩
    cases before with
    | nil =>
      obtain ⟨rfl, -⟩ : x = node ∧ nodes = after := by simpa using heq
      exact .inl ⟨rfl, hnode⟩
    | cons y before =>
      obtain ⟨rfl, rfl⟩ : x = y ∧ nodes = before ++ node :: after := by simpa using heq
      refine .inr ⟨fun hx => hbefore x (by simp) hx.1 hx.2, before, after, rfl, hnode, ?_⟩
      exact fun z hz => hbefore z (by simp [hz])
  · rintro (⟨rfl, hx⟩ | ⟨hx, before, after, rfl, hnode, hbefore⟩)
    · exact ⟨[], nodes, rfl, hx, by simp⟩
    · refine ⟨x :: before, after, rfl, hnode, fun z hz => ?_⟩
      rcases List.mem_cons.mp hz with rfl | hz
      · exact fun hm hf => hx ⟨hm, hf⟩
      · exact hbefore z hz

lemma findSymbol_spec (moduleName fieldName : CString)
    (hnodes : ∀ x ∈ nodes, x.nNativeSymbols ≤ 2 ^ 30 ∧ x.Sorted ∧ x.Callable) :
    ∃ found, findSymbol moduleName fieldName nodes = some found
      ∧ ∀ node s, found = some (node, s) ↔ FirstWith nodes moduleName fieldName node
        ∧ node.lookupField fieldName = some (some s) := by
  induction nodes with
  | nil => exact ⟨none, rfl, by simp [FirstWith]⟩
  | cons x nodes ih =>
    obtain ⟨found, hrun, hiff⟩ := ih fun y hy => hnodes y (by simp [hy])
    obtain ⟨hn, hsorted, hcall⟩ := hnodes x (by simp)
    obtain ⟨hit, hlook, -, hnone⟩ := x.lookupField_spec hn hsorted hcall fieldName
    simp only [findSymbol, strcmp_eq_zero_iff, firstWith_cons, hlook, Option.bind_some, hrun]
    by_cases hmod : x.moduleName = moduleName
    swap
    · exact ⟨found, by rw [if_neg hmod], by simpa [hmod] using hiff⟩
    rw [if_pos hmod]
    rcases hit with _ | s
    · exact ⟨found, rfl, by simpa [hnone.mp rfl] using hiff⟩
    · have hfield : x.HasField fieldName := by simpa using hnone
      refine ⟨some (x, s), rfl, fun node s' => ?_⟩
      simp only [Option.some.injEq, Prod.mk.injEq, hmod, hfield, and_self, and_true, not_true_eq_false,
        false_and, or_false]
      constructor
      · rintro ⟨rfl, rfl⟩
        exact ⟨rfl, hlook⟩
      · rintro ⟨rfl, heq⟩
        rw [hlook] at heq
        exact ⟨rfl, by simpa using heq⟩

lemma wasmNativeResolveSymbol_spec
    (hnodes : ∀ x ∈ nodes, x.nNativeSymbols ≤ 2 ^ 30 ∧ x.Sorted ∧ x.Callable) (type : FuncType) :
    ∃ result, wasmNativeResolveSymbol nodes moduleName fieldName type = some result
      ∧ ((∃ r, result = some r ∧ r.funcPtr ≠ 0) ↔
        ∃ node s, FirstWith nodes moduleName fieldName node
          ∧ (node.lookupField fieldName = some (some s) ∧ node.Names fieldName s)
          ∧ s.Accepts type) := by
  obtain ⟨found, hrun, hiff⟩ := findSymbol_spec moduleName fieldName hnodes
  rw [wasmNativeResolveSymbol, hrun, Option.map_some]
  refine ⟨_, rfl, ?_⟩
  rcases found with _ | ⟨node, s⟩
  · simp only [reduceCtorEq, false_and, exists_false, false_iff, not_exists, not_and]
    intro node s hfirst hlook
    exact absurd ((hiff node s).mpr ⟨hfirst, hlook.1⟩) (by simp)
  obtain ⟨hfirst, hlook⟩ := (hiff node s).mp rfl
  have hmem : node ∈ nodes := by
    obtain ⟨before, after, rfl, -⟩ := hfirst
    simp
  obtain ⟨hn, hsorted, hcall⟩ := hnodes node hmem
  have hnames : node.Names fieldName s := by
    obtain ⟨hit, hlook', hsome, -⟩ := node.lookupField_spec hn hsorted hcall fieldName
    rw [hlook] at hlook'
    exact hsome s (by simpa using hlook'.symm)
  have hptr : s.funcPtr ≠ 0 := hcall s hnames.1
  -- the right-hand side is about this symbol only
  have hright : (∃ node' s', FirstWith nodes moduleName fieldName node'
      ∧ (node'.lookupField fieldName = some (some s') ∧ node'.Names fieldName s')
      ∧ s'.Accepts type) ↔ s.Accepts type := by
    constructor
    · rintro ⟨node', s', hfirst', hlook', hacc⟩
      obtain ⟨-, rfl⟩ : node = node' ∧ s = s' := by
        simpa using (hiff node' s').mpr ⟨hfirst', hlook'.1⟩
      exact hacc
    · exact fun hacc => ⟨node, s, hfirst, ⟨hlook, hnames⟩, hacc⟩
  rw [hright, NativeSymbol.Accepts]
  rcases hsig : s.signature with _ | _ | ⟨c, sig⟩
  · simp [hsig, hptr]
  · simp [hsig, hptr]
  · by_cases hcheck : checkSymbolSignature type (c :: sig) = true <;> simp [hsig, hcheck, hptr]

end Resolve

/-! ## Registering tables -/

namespace NativeSymbolsNode

variable {node table : NativeSymbolsNode}

lemma Reordered.callable (h : table.Reordered node) (hcall : table.Callable) : node.Callable := by
  obtain ⟨heq, hperm⟩ := h
  have hn : node.nNativeSymbols = table.nNativeSymbols := by rw [heq]
  rintro s ⟨i, h1, h2, rfl⟩
  obtain ⟨k, hk, hki⟩ := hperm.exists_of_inside (k := i) ⟨h1, by omega⟩
  exact hcall _ ⟨k, hk.1, by omega, hki.symm⟩

end NativeSymbolsNode

lemma registerNatives_spec (nodes : List NativeSymbolsNode) {table : NativeSymbolsNode}
    (hn : table.nNativeSymbols < 2 ^ 31) :
    ∃ node, registerNatives nodes table = some (node :: nodes) ∧ table.Reordered node
      ∧ node.Sorted := by
  obtain ⟨a, hrun, hperm, hsorted⟩ := quickSortSymbols_spec (a := table.nativeSymbols)
    (table.nNativeSymbols + 1) 0 (table.nNativeSymbols - 1) le_rfl (by omega) (by omega)
  refine ⟨{ table with nativeSymbols := a }, ?_, ⟨rfl, hperm⟩,
    NativeSymbolsNode.sorted_iff.mpr hsorted⟩
  rw [registerNatives, int32_eq (by omega) (by omega), hrun]
  rfl

lemma foldlM_registerNatives_spec (tables nodes : List NativeSymbolsNode)
    (hn : ∀ t ∈ tables, t.nNativeSymbols < 2 ^ 31) :
    ∃ added, tables.foldlM registerNatives nodes = some (added ++ nodes)
      ∧ List.Forall₂ (fun table node => table.Reordered node ∧ node.Sorted)
        tables.reverse added := by
  induction tables generalizing nodes with
  | nil => exact ⟨[], rfl, .nil⟩
  | cons table tables ih =>
    obtain ⟨node, hrun, hnode⟩ := registerNatives_spec nodes (hn table (by simp))
    obtain ⟨added, hrest, hadded⟩ := ih (node :: nodes) fun t ht => hn t (by simp [ht])
    refine ⟨added ++ [node], ?_, ?_⟩
    · rw [List.foldlM_cons, hrun, Option.bind_eq_bind, Option.bind_some, hrest, List.append_assoc]
      rfl
    · rw [List.reverse_cons]
      exact List.rel_append hadded (.cons hnode .nil)

lemma resolves_of_small (tables : List NativeSymbolsNode)
    (htables : ∀ t ∈ tables, t.nNativeSymbols ≤ 2 ^ 30 ∧ t.Callable) : Resolves tables := by
  obtain ⟨nodes, hrun, hnodes⟩ := foldlM_registerNatives_spec tables [] fun t ht => by
    have := (htables t ht).1
    omega
  rw [List.append_nil] at hrun
  have hgood : ∀ x ∈ nodes, x.nNativeSymbols ≤ 2 ^ 30 ∧ x.Sorted ∧ x.Callable := by
    intro x hx
    obtain ⟨i, hi, rfl⟩ := List.mem_iff_getElem.mp hx
    obtain ⟨hlen, hrel⟩ := List.forall₂_iff_get.mp hnodes
    obtain ⟨hre, hsorted⟩ := hrel i (hlen ▸ hi) hi
    obtain ⟨hsize, hcall⟩ := htables _ (List.mem_reverse.mp (List.get_mem _ ⟨i, hlen ▸ hi⟩))
    refine ⟨?_, hsorted, hre.callable hcall⟩
    have hn := congrArg NativeSymbolsNode.nNativeSymbols hre.1
    exact hn.le.trans hsize
  refine ⟨nodes, hrun, hnodes, fun node hnode fieldName hfield => ?_,
    fun moduleName fieldName type => wasmNativeResolveSymbol_spec hgood type⟩
  obtain ⟨hn, hsorted, hcall⟩ := hgood node hnode
  obtain ⟨found, hlook, hsome, hnone⟩ := node.lookupField_spec hn hsorted hcall fieldName
  rcases found with _ | s
  · exact absurd hfield (hnone.mp rfl)
  · exact ⟨s, hlook, hsome s rfl⟩

/-! ## Larger tables -/

/-- There is a name above all names of an array, as far as an `int` reaches. -/
lemma exists_above (a : ℤ → NativeSymbol) : ∃ n, ∀ m, n ≤ m → ∀ i, -2 ^ 31 ≤ i → i < 2 ^ 31 →
    (a i).key < List.replicate m 255 := by
  obtain ⟨n, hn⟩ := ((Set.finite_Ico (-2 ^ 31 : ℤ) (2 ^ 31)).image
    fun i => (a i).key.length).bddAbove
  refine ⟨n + 1, fun m hm i hlo hhi => ?_⟩
  have hlen : (a i).key.length < m := by
    have hle : (a i).key.length ≤ n := hn ⟨i, ⟨hlo, hhi⟩, rfl⟩
    omega
  -- bytes are at most 255, and the name is longer
  have hbyte : ∀ x ∈ (a i).key, x ≤ 255 := by
    intro x hx
    obtain ⟨c, -, rfl⟩ := List.mem_map.mp hx
    exact Nat.le_of_lt_succ c.toNat_lt
  generalize (a i).key = k at hlen hbyte
  clear hn hm
  induction k generalizing m with
  | nil =>
    obtain ⟨j, rfl⟩ := Nat.exists_eq_add_of_lt hlen
    exact List.nil_lt_cons _ _
  | cons x k ih =>
    obtain ⟨j, rfl⟩ : ∃ j, m = j + 1 := ⟨m - 1, by simp at hlen; omega⟩
    rw [List.replicate_succ, List.cons_lt_cons_iff]
    rcases (hbyte x (by simp)).lt_or_eq with hlt | heq
    · exact .inl hlt
    · exact .inr ⟨heq, ih j (by simpa using hlen) fun y hy => hbyte y (by simp [hy])⟩

/-- A search for a name above all others finds nothing, and with an upper bound from `2 ^ 30` on it
does not end: the sum of the bounds overflows before the lower one gets there. -/
lemma lookupLoop_of_above {symbol : CString}
    (habove : ∀ i, -2 ^ 31 ≤ i → i < 2 ^ 31 → (a i).key < symbol.key) (fuel : ℕ) (low high : ℤ) :
    (lookupLoop a symbol fuel low high = none ∨ lookupLoop a symbol fuel low high = some none)
      ∧ (low ≤ high → 2 ^ 30 ≤ high → lookupLoop a symbol fuel low high = none) := by
  induction fuel generalizing low with
  | zero => exact ⟨.inl rfl, fun _ _ => rfl⟩
  | succ fuel ih =>
    rw [lookupLoop]
    by_cases hle : low ≤ high
    swap
    · rw [if_neg hle]
      exact ⟨.inr rfl, fun h => absurd h hle⟩
    rw [if_pos hle]
    obtain ⟨hlo, hhi, -⟩ := int32_spec (low + high)
    have hmid : -2 ^ 30 ≤ (int32 (low + high)).tdiv 2 ∧ (int32 (low + high)).tdiv 2 < 2 ^ 30 := by
      rcases le_or_gt 0 (int32 (low + high)) with h | h
      · rw [Int.tdiv_eq_ediv_of_nonneg h]
        omega
      · rw [← neg_neg (int32 _), Int.neg_tdiv, Int.tdiv_eq_ediv_of_nonneg (by omega)]
        omega
    dsimp only
    generalize (int32 (low + high)).tdiv 2 = mid at hmid
    have hpos : 0 < strcmp symbol (a mid).symbol :=
      strcmp_pos_iff.mpr (habove mid (by omega) (by omega))
    rw [if_neg hpos.ne', if_neg hpos.not_gt]
    obtain ⟨hany, hlarge⟩ := ih (mid + 1)
    exact ⟨hany, fun _ hhigh => hlarge (by omega) hhigh⟩

section Large

variable {nodes : List NativeSymbolsNode} {node : NativeSymbolsNode} {symbol : CString}

lemma NativeSymbolsNode.lookupField_of_above (hdrop : symbol.dropUnderscore = none)
    (habove : ∀ i, -2 ^ 31 ≤ i → i < 2 ^ 31 → (node.nativeSymbols i).key < symbol.key) :
    (node.lookupField symbol = none ∨ node.lookupField symbol = some none)
      ∧ (2 ^ 30 < node.nNativeSymbols → node.nNativeSymbols ≤ 2 ^ 31 →
        node.lookupField symbol = none) := by
  obtain ⟨hany, hlarge⟩ := lookupLoop_of_above habove (node.nNativeSymbols + 1) 0
    (int32 (int32 node.nNativeSymbols - 1))
  rw [lookupField, lookupSymbol, hdrop]
  refine ⟨?_, fun hlo hhi => ?_⟩
  · rcases hany with h | h <;> rw [h]
    · exact .inl rfl
    · exact .inr rfl
  · have hhigh : int32 (int32 node.nNativeSymbols - 1) = node.nNativeSymbols - 1 := by
      obtain ⟨-, -, k, hk⟩ := int32_spec node.nNativeSymbols
      obtain ⟨h1, h2, k', hk'⟩ := int32_spec (int32 node.nNativeSymbols - 1)
      omega
    rw [hlarge (by omega) (by omega), Option.bind_none]

/-- A search that does not end is an import that is not resolved. -/
lemma findSymbol_eq_none (hnode : node ∈ nodes) (hnone : node.lookupField symbol = none)
    (hall : ∀ x ∈ nodes, x.lookupField symbol = none ∨ x.lookupField symbol = some none) :
    findSymbol node.moduleName symbol nodes = none := by
  induction nodes with
  | nil => exact absurd hnode List.not_mem_nil
  | cons x nodes ih =>
    rw [findSymbol]
    split
    · rcases hall x (by simp) with h | h
      · rw [h, Option.bind_none]
      · rcases List.mem_cons.mp hnode with rfl | hmem
        · exact absurd (hnone.symm.trans h) (by simp)
        · rw [h, Option.bind_some]
          exact ih hmem fun y hy => hall y (by simp [hy])
    · rename_i hne
      rcases List.mem_cons.mp hnode with rfl | hmem
      · exact absurd (strcmp_eq_zero_iff.mpr rfl) hne
      · exact ih hmem fun y hy => hall y (by simp [hy])

/-- Beyond `2 ^ 31` symbols the upper bound of the search is negative, and nothing is found. -/
lemma NativeSymbolsNode.lookupField_of_negative (hn : 2 ^ 31 < node.nNativeSymbols)
    (symbol : CString) : node.lookupField symbol = some none := by
  have hlt := node.count_lt
  have hhigh : int32 (int32 node.nNativeSymbols - 1) < 0 := by
    obtain ⟨-, -, k, hk⟩ := int32_spec node.nNativeSymbols
    obtain ⟨h1, h2, k', hk'⟩ := int32_spec (int32 node.nNativeSymbols - 1)
    omega
  have hlook : ∀ name, node.lookupSymbol name = some none := by
    intro name
    rw [lookupSymbol, lookupLoop, if_neg (not_le.mpr hhigh)]
  rw [lookupField, hlook, Option.bind_some]
  cases symbol.dropUnderscore with
  | none => rfl
  | some name =>
    change (node.lookupSymbol name).map _ = _
    rw [hlook, Option.map_some]
    rfl

/-- A name above those of several arrays. -/
lemma exists_above_all (nodes : List NativeSymbolsNode) : ∃ symbol : CString,
    symbol.dropUnderscore = none ∧ ∀ x ∈ nodes, ∀ i, -2 ^ 31 ≤ i → i < 2 ^ 31 →
      (x.nativeSymbols i).key < symbol.key := by
  have hlong : ∃ n, ∀ m, n ≤ m → ∀ x ∈ nodes, ∀ i, -2 ^ 31 ≤ i → i < 2 ^ 31 →
      (x.nativeSymbols i).key < List.replicate m 255 := by
    induction nodes with
    | nil => exact ⟨0, by simp⟩
    | cons x nodes ih =>
      obtain ⟨n, hn⟩ := ih
      obtain ⟨n', hn'⟩ := exists_above x.nativeSymbols
      refine ⟨max n n', fun m hm y hy => ?_⟩
      rcases List.mem_cons.mp hy with rfl | hy
      · exact hn' m (le_of_max_le_right hm)
      · exact hn m (le_of_max_le_left hm) y hy
  obtain ⟨n, hn⟩ := hlong
  refine ⟨⟨List.replicate (n + 1) 255, by simp [List.mem_replicate]⟩, rfl, fun x hx i h1 h2 => ?_⟩
  have hkey := hn (n + 1) (Nat.le_succ n) x hx i h1 h2
  rwa [CString.key, List.map_replicate]

lemma le_of_resolves {tables : List NativeSymbolsNode} (h : Resolves tables)
    {table : NativeSymbolsNode} (htable : table ∈ tables) : table.nNativeSymbols ≤ 2 ^ 30 := by
  obtain ⟨nodes, -, hnodes, hfinds, hresolve⟩ := h
  obtain ⟨⟨i, hi⟩, rfl⟩ := List.get_of_mem (List.mem_reverse.mpr htable)
  obtain ⟨hlen, hrel⟩ := List.forall₂_iff_get.mp hnodes
  have hcount : (nodes.get ⟨i, hlen ▸ hi⟩).nNativeSymbols
      = (tables.reverse.get ⟨i, hi⟩).nNativeSymbols := by
    rw [(hrel i hi (hlen ▸ hi)).1.1]
  have hnode : nodes.get ⟨i, hlen ▸ hi⟩ ∈ nodes := List.get_mem _ _
  generalize nodes.get ⟨i, hlen ▸ hi⟩ = node at hcount hnode
  generalize tables.reverse.get ⟨i, hi⟩ = table at hcount
  by_contra hlarge
  by_cases hn : 2 ^ 31 < node.nNativeSymbols
  · -- the first symbol is not found
    obtain ⟨s, hlook, -⟩ := hfinds node hnode _
      (.inl ⟨node.nativeSymbols 0, ⟨0, le_rfl, by omega, rfl⟩, rfl⟩)
    rw [node.lookupField_of_negative hn] at hlook
    exact absurd hlook (by simp)
  · -- the search for a name above all others does not end
    obtain ⟨symbol, hdrop, habove⟩ := exists_above_all nodes
    obtain ⟨result, hrun, -⟩ := hresolve node.moduleName symbol ⟨[], []⟩
    have hall : ∀ x ∈ nodes, x.lookupField symbol = none ∨ x.lookupField symbol = some none :=
      fun x hx => (x.lookupField_of_above hdrop (habove x hx)).1
    have hnone := (node.lookupField_of_above hdrop (habove node hnode)).2 (by omega) (by omega)
    rw [wasmNativeResolveSymbol, findSymbol_eq_none hnode hnone hall] at hrun
    exact absurd hrun (by simp)

end Large

/-- **Native symbols are resolved as long as no table has more than `2 ^ 30` symbols.**  For every
list of tables whose functions are not null: registering them ends with the tables sorted by name,
and then every name is resolved exactly when a table of the module has it, with or without a leading
underscore, and the symbol found in the first such table has no signature or one accepted for the
import's type, if and only if each table has at most `2 ^ 30` symbols.  In a larger table there is
always a name that is looked up wrongly or without end. -/
theorem resolves_iff (tables : List NativeSymbolsNode) (hcall : ∀ t ∈ tables, t.Callable) :
    Resolves tables ↔ ∀ t ∈ tables, t.nNativeSymbols ≤ 2 ^ 30 :=
  ⟨fun h _ ht => le_of_resolves h ht,
    fun h => resolves_of_small tables fun t ht => ⟨h t ht, hcall t ht⟩⟩

/-- The name of one letter. -/
def letter (c : UInt8) (hc : 0 ≠ c) : CString := ⟨[c], by simpa using hc⟩

/-- Three symbols, not in order and one of them twice, for a module `m`. -/
def smallTable : NativeSymbolsNode where
  moduleName := letter 109 (by decide)
  nativeSymbols i := ⟨letter (if i = 1 then 97 else 98) (by split <;> decide), 4096, none, 0⟩
  nNativeSymbols := 3
  count_lt := by decide
  callConvRaw := false

/-- Two tables for one module, in which a name occurs twice. -/
theorem resolves_iff_sample : Resolves [smallTable, smallTable] := by
  refine (resolves_iff [smallTable, smallTable] ?_).mpr ?_
  · intro t ht s hs
    obtain rfl : t = smallTable := by simpa using ht
    obtain ⟨i, -, -, rfl⟩ := hs
    exact Nat.succ_ne_zero _
  · intro t ht
    obtain rfl : t = smallTable := by simpa using ht
    decide

/-- `2 ^ 30` times the name `a`, and `b` behind it, for a module `m`. -/
def largeTable : NativeSymbolsNode where
  moduleName := letter 109 (by decide)
  nativeSymbols i := ⟨letter (if i = 2 ^ 30 then 98 else 97) (by split <;> decide), 4096, none, 0⟩
  nNativeSymbols := 2 ^ 30 + 1
  count_lt := by decide
  callConvRaw := false

/-- For a name such as `c` the lower bound of the search comes to the last symbol, and the sum of the
bounds overflows from there on: the search does not end. -/
theorem largeTable_not_resolved : ¬ Resolves [largeTable] := fun h =>
  absurd (le_of_resolves h (List.mem_singleton.mpr rfl)) (by decide)

end Watz.Wamr
