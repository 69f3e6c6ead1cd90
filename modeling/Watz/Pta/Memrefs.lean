import Watz.Lib.Memory
import Watz.Pta

/-!
# The memory references of a command for a quote

A command passes the claim, the anchor and the room for the quote as memory references, each an
address and a size.  The service works directly in the memory of its caller, so the three ranges
may overlap.  This file has `generate_quote` on memory, with a record of what it writes, and asks
for which references it stays inside the room for the quote, and for which its result depends on
nothing but the claim and the anchor.
-/

namespace Watz.Pta

open Lib

/-- A memory reference. -/
structure Memref where
  buffer : ℕ
  size : ℕ

/-- The addresses of a reference. -/
def Memref.range (r : Memref) : Set ℕ := Mem.range r.buffer r.size

/-- The parameters of a command. -/
structure Params where
  types : UInt32
  claim : Memref
  anchor : Memref
  quote : Memref

/-- The memory of the caller, and what has been written to it: addresses with lengths. -/
structure Machine where
  mem : Mem
  writes : List (ℕ × ℕ)

/-- Write bytes to an address. -/
def Machine.store (s : Machine) (a : ℕ) (l : List UInt8) : Machine :=
  ⟨s.mem.write a l, s.writes ++ [(a, l.length)]⟩

/-- `TEE_PARAM_TYPES`. -/
def teeParamTypes (t₀ t₁ t₂ t₃ : UInt32) : UInt32 := t₀ ||| (t₁ <<< 4) ||| (t₂ <<< 8) ||| (t₃ <<< 12)

/-- The types of a command for a quote: two references for input, one for input and output. -/
def genQuoteParamTypes : UInt32 := teeParamTypes 5 5 7 0

section

variable (C : Crypto) (env : Env Fn) (key : AttestationKey)

/-- `memset`, `memcpy` from outside of the memory, and the assignment of a field. -/
def store (a : ℕ) (l : List UInt8) : EStateM Stop Machine Unit := modify (·.store a l)

/-- `memcpy` within the memory. -/
def copy (dst src n : ℕ) : EStateM Stop Machine Unit := do
  let s ← get
  store dst (s.mem.read src n)

/-- The beginning of `generate_quote`: all fields but the claim hash and the signature. -/
def initializeQuote (anchor : Memref) (quote : ℕ) : EStateM Stop Machine Unit := do
  store quote (List.replicate 200 0)
  store (quote + 32) (le32 raCurrentVersion)
  copy quote anchor.buffer 32
  store (quote + 68) key.exportedPublicKey.toList

/-- The choice of `generate_quote` between taking over the claim and hashing it. -/
def storeClaimHash (claim : Memref) (dst : ℕ) : EStateM Stop Machine Unit := do
  let s ← get
  let hash ← hashClaim C env (s.mem.read claim.buffer claim.size)
  store dst hash.toList

/-- The end of `generate_quote`: the digest of the quote is signed. -/
def signQuote (quote : ℕ) : EStateM Stop Machine (Bytes 32) := do
  let s ← get
  let quoteHash ← hashQuote C env (Quote.layout.dec (s.mem.read quote 200))
  tee env .generateQuote .cryptoAcipherEccSign 0
  store (quote + 133) (C.sign key.keypair env.nonce quoteHash).toList
  pure quoteHash

/-- `generate_quote`.  It returns the digest that it has signed. -/
def generateQuoteAt (claim anchor : Memref) (quote : ℕ) : EStateM Stop Machine (Bytes 32) := do
  failIf (32 < anchor.size) (.error .shortBuffer)
  initializeQuote key anchor quote
  storeClaimHash C env claim (quote + 36)
  signQuote C env key quote

/-- `invoke_command` for `ATTESTATION_CMD_GEN_QUOTE`. -/
def invokeGenQuote (p : Params) : EStateM Stop Machine (Bytes 32) := do
  failIf (p.types ≠ genQuoteParamTypes) (.error .badParameters)
  generateQuoteAt C env key p.claim p.anchor p.quote.buffer

end

/-! ## What is asked of the service -/

section

variable (C : Crypto) (key : AttestationKey) (p : Params)

/-- The command either returns an error and writes nothing, or it writes only inside the room for
the quote. -/
def WritesInside (env : Env Fn) (m : Mem) : Prop :=
  ((∃ stop t, invokeGenQuote C env key p ⟨m, []⟩ = .error stop t)
      ∧ (final (invokeGenQuote C env key p ⟨m, []⟩)).writes = [])
    ∨ ∀ w ∈ (final (invokeGenQuote C env key p ⟨m, []⟩)).writes,
      p.quote.buffer ≤ w.1 ∧ w.1 + w.2 ≤ p.quote.buffer + p.quote.size

/-- The quote that a command leaves in the memory. -/
def quoteIn (t : Machine) : Quote := Quote.layout.dec (t.mem.read p.quote.buffer 200)

/-- Two commands that find the same claim and the same anchor produce the same anchor, the same
claim hash and the same signed digest. -/
def DependsOnInputs (env env' : Env Fn) (m m' : Mem) : Prop :=
  Mem.SameOn (p.claim.range ∪ p.anchor.range) m m' →
    ∀ h h' t t', invokeGenQuote C env key p ⟨m, []⟩ = .ok h t →
      invokeGenQuote C env' key p ⟨m', []⟩ = .ok h' t' →
        (quoteIn p t).anchor = (quoteIn p t').anchor
          ∧ (quoteIn p t).claimHash = (quoteIn p t').claimHash ∧ h = h'

/-- The command respects its memory references. -/
def RespectsMemrefs : Prop :=
  (∀ env m, WritesInside C key p env m) ∧ ∀ env env' m m', DependsOnInputs C key p env env' m m'

end

/-! ## What a command does to the memory -/

section

variable {C : Crypto} {env : Env Fn} {key : AttestationKey} {claim anchor : Memref} {quote : ℕ}
  {p : Params} {m m' : Mem} {s s' : Machine}

/-- The memory when the anchor is copied. -/
def clearedMem (quote : ℕ) (m : Mem) : Mem :=
  (m.write quote (List.replicate 200 0)).write (quote + 32) (le32 raCurrentVersion)

/-- The memory when the claim is read. -/
def anchoredMem (key : AttestationKey) (anchor : Memref) (quote : ℕ) (m : Mem) : Mem :=
  ((clearedMem quote m).write quote ((clearedMem quote m).read anchor.buffer 32)).write
    (quote + 68) key.exportedPublicKey.toList

/-- The memory when the quote is hashed. -/
def unsignedMem (C : Crypto) (key : AttestationKey) (claim anchor : Memref) (quote : ℕ) (m : Mem) :
    Mem :=
  (anchoredMem key anchor quote m).write (quote + 36)
    (claimHashOf C ((anchoredMem key anchor quote m).read claim.buffer claim.size)).toList

/-- The digest that is signed. -/
def digestOf (C : Crypto) (key : AttestationKey) (claim anchor : Memref) (quote : ℕ) (m : Mem) :
    Bytes 32 :=
  C.sha256 (hashQuoteInput
    (Quote.layout.dec ((unsignedMem C key claim anchor quote m).read quote 200)))

lemma initializeQuote_run (s : Machine) :
    initializeQuote key anchor quote s = .ok () ⟨anchoredMem key anchor quote s.mem,
      s.writes ++ [(quote, 200), (quote + 32, 4), (quote, 32), (quote + 68, 65)]⟩ := by
  show EStateM.Result.ok () ((((s.store _ _).store _ _).store _ _).store _ _) = _
  simp only [Machine.store, List.length_replicate, le32_length, Mem.read_length, Bytes.length_eq,
    List.append_assoc, List.cons_append, List.nil_append]
  rfl

lemma storeClaimHash_eq_ok {dst : ℕ} {u : Unit} :
    storeClaimHash C env claim dst s = .ok u s' ↔
      (claim.size ≠ 32 → env.Ok .hashByteArray Fn.hashByteArray.sites)
        ∧ s.store dst (claimHashOf C (s.mem.read claim.buffer claim.size)).toList = s' := by
  rw [storeClaimHash, get_bind_eq_ok]
  simp only [store, bind_eq_ok, hashClaim_eq_ok, modify_eq_ok, Mem.read_length]
  constructor
  · rintro ⟨_, _, ⟨hcalls, rfl, rfl⟩, rfl⟩
    exact ⟨hcalls, rfl⟩
  · rintro ⟨hcalls, rfl⟩
    exact ⟨_, _, ⟨hcalls, rfl, rfl⟩, rfl⟩

lemma signQuote_eq_ok {h : Bytes 32} :
    signQuote C env key quote s = .ok h s' ↔
      env.Ok .hashQuote Fn.hashQuote.sites ∧ env.Ok .generateQuote Fn.generateQuote.sites
        ∧ C.sha256 (hashQuoteInput (Quote.layout.dec (s.mem.read quote 200))) = h
        ∧ s.store (quote + 133) (C.sign key.keypair env.nonce h).toList = s' := by
  rw [signQuote, get_bind_eq_ok]
  simp only [store, bind_eq_ok, hashQuote_eq_ok, tee_eq_ok, modify_eq_ok, pure_eq_ok, Fn.sites,
    Env.ok_cons, Env.ok_nil]
  constructor
  · rintro ⟨_, _, ⟨h1, rfl, rfl⟩, _, _, ⟨h2, rfl⟩, _, _, rfl, rfl, rfl⟩
    exact ⟨h1, ⟨h2, trivial⟩, rfl, rfl⟩
  · rintro ⟨h1, ⟨h2, -⟩, rfl, rfl⟩
    exact ⟨_, _, ⟨h1, rfl, rfl⟩, (), _, ⟨h2, rfl⟩, (), _, rfl, rfl, rfl⟩

/-- A command succeeds exactly if its references are accepted and no call fails, and it has then
gone through these memories. -/
lemma invokeGenQuote_eq_ok {h : Bytes 32} :
    invokeGenQuote C env key p s = .ok h s' ↔
      p.types = genQuoteParamTypes ∧ p.anchor.size ≤ 32
        ∧ (p.claim.size ≠ 32 → env.Ok .hashByteArray Fn.hashByteArray.sites)
        ∧ env.Ok .hashQuote Fn.hashQuote.sites ∧ env.Ok .generateQuote Fn.generateQuote.sites
        ∧ digestOf C key p.claim p.anchor p.quote.buffer s.mem = h
        ∧ (⟨(unsignedMem C key p.claim p.anchor p.quote.buffer s.mem).write (p.quote.buffer + 133)
              (C.sign key.keypair env.nonce h).toList,
            s.writes ++ [(p.quote.buffer, 200), (p.quote.buffer + 32, 4), (p.quote.buffer, 32),
              (p.quote.buffer + 68, 65), (p.quote.buffer + 36, 32),
              (p.quote.buffer + 133, 64)]⟩ : Machine) = s' := by
  rw [invokeGenQuote, failIf_bind_eq_ok, not_not, generateQuoteAt, failIf_bind_eq_ok, not_lt,
    bind_of_ok (initializeQuote_run s)]
  simp only [bind_eq_ok, storeClaimHash_eq_ok, signQuote_eq_ok]
  constructor
  · rintro ⟨htypes, hsize, _, _, ⟨h1, rfl⟩, h2, h3, rfl, rfl⟩
    refine ⟨htypes, hsize, h1, h2, h3, rfl, ?_⟩
    simp [Machine.store, unsignedMem]
  · rintro ⟨htypes, hsize, h1, h2, h3, rfl, rfl⟩
    refine ⟨htypes, hsize, (), _, ⟨h1, rfl⟩, h2, h3, rfl, ?_⟩
    simp [Machine.store, unsignedMem, digestOf]

/-! ## What is written -/

lemma keeps_hashClaim {σ : Type} {I : σ → Prop} {c : List UInt8} :
    Keeps I (hashClaim C env c) := by
  unfold hashClaim hashByteArray
  refine Keeps.ite (Keeps.pure _) ?_
  exact keeps_tee.bind fun _ => keeps_tee.bind fun _ => keeps_tee.bind fun _ =>
    keeps_tee.bind fun _ => Keeps.pure _

lemma keeps_hashQuote {σ : Type} {I : σ → Prop} {q : Quote} : Keeps I (hashQuote C env q) := by
  unfold hashQuote
  exact keeps_tee.bind fun _ => keeps_tee.bind fun _ => keeps_tee.bind fun _ =>
    keeps_tee.bind fun _ => keeps_tee.bind fun _ => keeps_tee.bind fun _ =>
      keeps_tee.bind fun _ => Keeps.pure _

lemma keeps_storeClaimHash_signQuote (good : ℕ × ℕ → Prop) (first : List (ℕ × ℕ))
    (hhash : good (quote + 36, 32)) (hsign : good (quote + 133, 64)) :
    Keeps (fun s => first <+: s.writes ∧ ∀ w ∈ s.writes, good w)
      (storeClaimHash C env claim (quote + 36) >>= fun _ => signQuote C env key quote) := by
  have hstore : ∀ {n : ℕ} {a : ℕ} (b : Bytes n), good (a, n) →
      Keeps (fun s => first <+: s.writes ∧ ∀ w ∈ s.writes, good w) (store a b.toList) := by
    intro n a b hgood
    refine Keeps.modify fun s hs => ⟨hs.1.trans (List.prefix_append _ _), ?_⟩
    intro w hw
    rcases List.mem_append.mp hw with hw | hw
    · exact hs.2 w hw
    · rw [List.mem_singleton.mp hw, b.length_eq]
      exact hgood
  unfold storeClaimHash signQuote
  refine Keeps.bind ?_ fun _ => ?_
  · exact Keeps.get.bind fun _ => keeps_hashClaim.bind fun _ => hstore _ hhash
  · refine Keeps.get.bind fun _ => keeps_hashQuote.bind fun _ => keeps_tee.bind fun _ => ?_
    exact (hstore _ hsign).bind fun _ => Keeps.pure _

/-- Once the references are accepted, the whole of the quote is cleared and nothing is written
outside of it, however the command ends. -/
lemma writes_of_accepted (htypes : p.types = genQuoteParamTypes) (hsize : p.anchor.size ≤ 32) :
    (p.quote.buffer, 200) ∈ (final (invokeGenQuote C env key p ⟨m, []⟩)).writes
      ∧ ∀ w ∈ (final (invokeGenQuote C env key p ⟨m, []⟩)).writes,
        p.quote.buffer ≤ w.1 ∧ w.1 + w.2 ≤ p.quote.buffer + 200 := by
  have htypes' : failIf (p.types ≠ genQuoteParamTypes) (Stop.error .badParameters) (⟨m, []⟩ : Machine)
      = .ok () ⟨m, []⟩ := failIf_eq_ok.mpr ⟨not_not.mpr htypes, rfl⟩
  have hsize' : failIf (32 < p.anchor.size) (Stop.error .shortBuffer) (⟨m, []⟩ : Machine)
      = .ok () ⟨m, []⟩ := failIf_eq_ok.mpr ⟨not_lt.mpr hsize, rfl⟩
  rw [invokeGenQuote, bind_of_ok htypes', generateQuoteAt, bind_of_ok hsize',
    bind_of_ok (initializeQuote_run _)]
  set first : List (ℕ × ℕ) := [] ++ [(p.quote.buffer, 200), (p.quote.buffer + 32, 4),
    (p.quote.buffer, 32), (p.quote.buffer + 68, 65)] with hfirst
  have hinside : ∀ w ∈ first, p.quote.buffer ≤ w.1 ∧ w.1 + w.2 ≤ p.quote.buffer + 200 := by
    intro w hw
    simp only [hfirst, List.nil_append, List.mem_cons, List.not_mem_nil, or_false] at hw
    rcases hw with rfl | rfl | rfl | rfl <;> simp
  have hkeeps : Keeps (fun s : Machine => first <+: s.writes
      ∧ ∀ w ∈ s.writes, p.quote.buffer ≤ w.1 ∧ w.1 + w.2 ≤ p.quote.buffer + 200)
      (storeClaimHash C env p.claim (p.quote.buffer + 36) >>= fun _ =>
        signQuote C env key p.quote.buffer) :=
    keeps_storeClaimHash_signQuote (fun w => _ ≤ w.1 ∧ w.1 + w.2 ≤ _) first (by simp) (by simp)
  obtain ⟨hbegin, hall⟩ := hkeeps.final_of (s := ⟨anchoredMem key p.anchor p.quote.buffer m, first⟩)
    ⟨List.prefix_rfl, hinside⟩
  exact ⟨hbegin.subset (by simp [hfirst]), hall⟩

lemma writesInside_of_rejected (h : p.types ≠ genQuoteParamTypes ∨ 32 < p.anchor.size) :
    WritesInside C key p env m := by
  refine .inl ?_
  by_cases htypes : p.types ≠ genQuoteParamTypes
  · rw [invokeGenQuote, bind_of_error (failIf_of_pos htypes)]
    exact ⟨⟨_, _, rfl⟩, rfl⟩
  · have hsize : 32 < p.anchor.size := h.resolve_left htypes
    have hpass : failIf (p.types ≠ genQuoteParamTypes) (Stop.error .badParameters)
        (⟨m, []⟩ : Machine) = .ok () ⟨m, []⟩ := failIf_eq_ok.mpr ⟨htypes, rfl⟩
    rw [invokeGenQuote, bind_of_ok hpass, generateQuoteAt, bind_of_error (failIf_of_pos hsize)]
    exact ⟨⟨_, _, rfl⟩, rfl⟩

lemma writesInside_iff :
    WritesInside C key p env m ↔
      p.types ≠ genQuoteParamTypes ∨ 32 < p.anchor.size ∨ 200 ≤ p.quote.size := by
  by_cases hrejected : p.types ≠ genQuoteParamTypes ∨ 32 < p.anchor.size
  · exact iff_of_true (writesInside_of_rejected hrejected) (or_assoc.mp (.inl hrejected))
  · rw [← or_assoc, or_iff_right hrejected]
    rw [not_or, not_not, not_lt] at hrejected
    obtain ⟨hclear, hinside⟩ : (p.quote.buffer, 200)
          ∈ (final (invokeGenQuote C env key p ⟨m, []⟩)).writes
        ∧ ∀ w ∈ (final (invokeGenQuote C env key p ⟨m, []⟩)).writes,
          p.quote.buffer ≤ w.1 ∧ w.1 + w.2 ≤ p.quote.buffer + 200 :=
      writes_of_accepted hrejected.1 hrejected.2
    constructor
    · rintro (⟨-, hnone⟩ | hall)
      · rw [hnone] at hclear
        exact absurd hclear List.not_mem_nil
      · simpa using (hall _ hclear).2
    · intro hroom
      refine .inr fun w hw => ⟨(hinside w hw).1, ?_⟩
      have hend := (hinside w hw).2
      omega

/-! ## What the quote depends on -/

lemma anchor_of_read (m : Mem) (quote : ℕ) :
    (Quote.layout.dec (m.read quote 200)).anchor.toList = m.read quote 32 := by
  show (Bytes.slice 32 (m.read quote 200)).toList = _
  rw [Bytes.slice_toList (by simp), Mem.read_take (by norm_num)]

lemma claimHash_of_read (m : Mem) (quote : ℕ) :
    (Quote.layout.dec (m.read quote 200)).claimHash.toList = m.read (quote + 36) 32 := by
  show (Bytes.slice 32 (((m.read quote 200).drop 32).drop 4)).toList = _
  rw [Mem.read_drop, Mem.read_drop, Bytes.slice_toList (by simp), Mem.read_take (by norm_num)]

lemma sameOn_write {R : Set ℕ} (h : Mem.SameOn R m m') (a : ℕ) (l : List UInt8) :
    Mem.SameOn R (m.write a l) (m'.write a l) := (h.write a l).mono Set.subset_union_left

lemma sameOn_unsignedMem {R : Set ℕ} (hanchor : Mem.range anchor.buffer 32 ⊆ R ∪ Mem.range quote 200)
    (hclaim : claim.range ⊆ R) (h : Mem.SameOn R m m') :
    Mem.SameOn (R ∪ Mem.range quote 200) (unsignedMem C key claim anchor quote m)
      (unsignedMem C key claim anchor quote m') := by
  have hcleared : Mem.SameOn (R ∪ Mem.range quote 200) (clearedMem quote m) (clearedMem quote m') := by
    have hzero := h.write quote (List.replicate 200 0)
    rw [List.length_replicate] at hzero
    exact sameOn_write hzero _ _
  have hanchored : Mem.SameOn (R ∪ Mem.range quote 200) (anchoredMem key anchor quote m)
      (anchoredMem key anchor quote m') := by
    rw [anchoredMem, anchoredMem, hcleared.read hanchor]
    exact sameOn_write (sameOn_write hcleared _ _) _ _
  rw [unsignedMem, unsignedMem, hanchored.read (hclaim.trans Set.subset_union_left)]
  exact sameOn_write hanchored _ _

lemma quoteIn_fields {sig : Bytes 64} {writes : List (ℕ × ℕ)} :
    (quoteIn p ⟨m.write (p.quote.buffer + 133) sig.toList, writes⟩).anchor.toList
        = m.read p.quote.buffer 32
      ∧ (quoteIn p ⟨m.write (p.quote.buffer + 133) sig.toList, writes⟩).claimHash.toList
        = m.read (p.quote.buffer + 36) 32 := by
  rw [quoteIn, anchor_of_read, claimHash_of_read]
  exact ⟨Mem.read_write_of_disjoint (.inl (by omega)),
    Mem.read_write_of_disjoint (.inl (by omega))⟩

/-- The bytes behind the anchor that are copied all the same lie in the claim or in the quote,
which has been cleared before. -/
def OverreadKnown (p : Params) : Prop :=
  ∀ j, p.anchor.size ≤ j → j < 32 →
    p.anchor.buffer + j ∈ p.claim.range ∪ Mem.range p.quote.buffer 200

lemma dependsOnInputs_of_overreadKnown {env' : Env Fn} (hknown : OverreadKnown p) :
    DependsOnInputs C key p env env' m m' := by
  intro hsame h h' t t' hrun hrun'
  obtain ⟨-, -, -, -, -, rfl, rfl⟩ := invokeGenQuote_eq_ok.mp hrun
  obtain ⟨-, -, -, -, -, rfl, rfl⟩ := invokeGenQuote_eq_ok.mp hrun'
  have hanchor : Mem.range p.anchor.buffer 32
      ⊆ (p.claim.range ∪ p.anchor.range) ∪ Mem.range p.quote.buffer 200 := by
    rintro i ⟨hle, hlt⟩
    obtain ⟨j, rfl⟩ := Nat.exists_eq_add_of_le hle
    by_cases hj : j < p.anchor.size
    · exact .inl (.inr ⟨hle, by omega⟩)
    · rcases hknown j (by omega) (by omega) with hclaim | hquote
      · exact .inl (.inl hclaim)
      · exact .inr hquote
  have hunsigned : Mem.SameOn _ (unsignedMem C key p.claim p.anchor p.quote.buffer m)
      (unsignedMem C key p.claim p.anchor p.quote.buffer m') :=
    sameOn_unsignedMem hanchor Set.subset_union_left hsame
  have hread : ∀ a n, p.quote.buffer ≤ a → a + n ≤ p.quote.buffer + 200 →
      (unsignedMem C key p.claim p.anchor p.quote.buffer m).read a n
        = (unsignedMem C key p.claim p.anchor p.quote.buffer m').read a n := by
    intro a n hle hend
    exact hunsigned.read fun i hi => .inr ⟨hle.trans hi.1, hi.2.trans_le hend⟩
  refine ⟨?_, ?_, ?_⟩
  · rw [Bytes.ext_iff, quoteIn_fields.1, quoteIn_fields.1]
    exact hread _ _ le_rfl (by omega)
  · rw [Bytes.ext_iff, quoteIn_fields.2, quoteIn_fields.2]
    exact hread _ _ (by omega) (by omega)
  · rw [digestOf, digestOf, hread _ _ le_rfl le_rfl]

/-- The anchor field holds what lay behind the address of the anchor when the quote had just been
cleared. -/
lemma unsignedMem_anchor :
    (unsignedMem C key claim anchor quote m).read quote 32
      = (clearedMem quote m).read anchor.buffer 32 := by
  rw [unsignedMem, Mem.read_write_of_disjoint (.inl (by omega)), anchoredMem,
    Mem.read_write_of_disjoint (.inl (by omega))]
  have hself : ((clearedMem quote m).write quote ((clearedMem quote m).read anchor.buffer 32)).read
      quote ((clearedMem quote m).read anchor.buffer 32).length
        = (clearedMem quote m).read anchor.buffer 32 := Mem.read_write
  rwa [Mem.read_length] at hself

lemma clearedMem_of_notMem {i : ℕ} (h : i ∉ Mem.range quote 200) : clearedMem quote m i = m i := by
  have hi : i < quote ∨ quote + 200 ≤ i := by
    by_contra hmem
    exact h ⟨by omega, by omega⟩
  rw [clearedMem, Mem.write_of_notMem (by rw [le32_length]; omega),
    Mem.write_of_notMem (by rw [List.length_replicate]; exact hi)]

lemma exists_quote (htypes : p.types = genQuoteParamTypes) (hsize : p.anchor.size ≤ 32) (m : Mem) :
    ∃ h t, invokeGenQuote C (Env.calm Fn 0) key p ⟨m, []⟩ = .ok h t
      ∧ (quoteIn p t).anchor.toList = (clearedMem p.quote.buffer m).read p.anchor.buffer 32 := by
  have hcalm := Env.calm_allOk Fn 0
  refine ⟨_, _, invokeGenQuote_eq_ok.mpr ⟨htypes, hsize, fun _ => hcalm.ok _ _, hcalm.ok _ _,
    hcalm.ok _ _, rfl, rfl⟩, ?_⟩
  rw [quoteIn_fields.1, unsignedMem_anchor]

/-- A byte behind the anchor that is neither in the claim nor in the quote goes into the quote. -/
lemma overreadKnown_of_dependsOnInputs (htypes : p.types = genQuoteParamTypes)
    (hsize : p.anchor.size ≤ 32)
    (h : ∀ m m', DependsOnInputs C key p (Env.calm Fn 0) (Env.calm Fn 0) m m') :
    OverreadKnown p := by
  intro j hle hlt
  by_contra hout
  rw [Set.mem_union, not_or] at hout
  -- two memories that differ in this byte only
  let m : Mem := fun _ => 0
  let m' : Mem := Function.update m (p.anchor.buffer + j) 1
  have hsame : Mem.SameOn (p.claim.range ∪ p.anchor.range) m m' := by
    intro i hi
    have hne : i ≠ p.anchor.buffer + j := by
      rintro rfl
      rcases hi with hi | hi
      · exact hout.1 hi
      · exact absurd hi.2 (by omega)
    exact (Function.update_of_ne hne _ _).symm
  obtain ⟨d, t, hrun, hanchor⟩ := exists_quote (C := C) htypes hsize m
  obtain ⟨d', t', hrun', hanchor'⟩ := exists_quote (C := C) htypes hsize m'
  have heq := (h m m' hsame d d' t t' hrun hrun').1
  rw [Bytes.ext_iff, hanchor, hanchor'] at heq
  have hbyte := congrArg (List.getD · j 0) heq
  simp only [Mem.read_getD hlt, clearedMem_of_notMem hout.2] at hbyte
  have hone : m' (p.anchor.buffer + j) = 1 := Function.update_self _ _ _
  rw [hone] at hbyte
  exact absurd hbyte (by decide)

end

/-! ## References that do not overlap -/

section

variable {C : Crypto} {env : Env Fn} {key : AttestationKey} {p : Params} {m : Mem} {s t : Machine}

lemma dec_read (m : Mem) (quote : ℕ) :
    Quote.layout.dec (m.read quote 200)
      = ⟨Bytes.slice 32 (m.read quote 32), ofLe32 (m.read (quote + 32) 4),
        Bytes.slice 32 (m.read (quote + 36) 32), Bytes.slice 65 (m.read (quote + 68) 65),
        Bytes.slice 64 (m.read (quote + 133) 64), Bytes.slice 3 (m.read (quote + 197) 3)⟩ := by
  have hslice : ∀ {n k : ℕ} (a : ℕ), n ≤ k →
      Bytes.slice n (m.read a k) = Bytes.slice n (m.read a n) := by
    intro n k a hle
    rw [Bytes.ext_iff, Bytes.slice_toList (by simpa using hle), Bytes.slice_toList (by simp),
      Mem.read_take hle, Mem.read_take le_rfl]
  have hword : ∀ a k, 4 ≤ k → ofLe32 (m.read a k) = ofLe32 (m.read a 4) := by
    intro a k hle
    rw [← Mem.read_take hle]
    exact (Layout.word32.dec_take (by rw [Mem.read_length]; exact hle)).symm
  show (⟨Bytes.slice 32 (m.read quote 200), ofLe32 ((m.read quote 200).drop 32),
    Bytes.slice 32 (((m.read quote 200).drop 32).drop 4),
    Bytes.slice 65 ((((m.read quote 200).drop 32).drop 4).drop 32),
    Bytes.slice 64 (((((m.read quote 200).drop 32).drop 4).drop 32).drop 65),
    Bytes.slice 3 ((((((m.read quote 200).drop 32).drop 4).drop 32).drop 65).drop 64)⟩ : Quote) = _
  simp only [Mem.read_drop, Nat.add_assoc, Nat.reduceAdd, Nat.reduceSub]
  rw [hslice quote (by norm_num), hword (quote + 32) _ (by norm_num),
    hslice (quote + 36) (by norm_num), hslice (quote + 68) (by norm_num),
    hslice (quote + 133) (by norm_num)]

lemma anchoredMem_of_notMem {anchor : Memref} {quote i : ℕ} (h : i ∉ Mem.range quote 200) :
    anchoredMem key anchor quote m i = m i := by
  have hi : i < quote ∨ quote + 200 ≤ i := by
    by_contra hmem
    exact h ⟨by omega, by omega⟩
  rw [anchoredMem, Mem.write_of_notMem (by rw [Bytes.length_eq]; omega),
    Mem.write_of_notMem (by rw [Mem.read_length]; omega), clearedMem_of_notMem h]

lemma unsignedMem_padding {claim anchor : Memref} {quote : ℕ} :
    (unsignedMem C key claim anchor quote m).read (quote + 197) 3 = [0, 0, 0] := by
  have hbyte : ∀ i, 197 ≤ i → i < 200 → clearedMem quote m (quote + i) = 0 := by
    intro i hle hlt
    rw [clearedMem, Mem.write_of_notMem (by rw [le32_length]; omega),
      Mem.write_of_lt (by rw [List.length_replicate]; exact hlt),
      List.getD_eq_getElem _ _ (by rw [List.length_replicate]; exact hlt), List.getElem_replicate]
  rw [unsignedMem, Mem.read_write_of_disjoint (.inr (by rw [Bytes.length_eq]; omega)), anchoredMem,
    Mem.read_write_of_disjoint (.inr (by rw [Bytes.length_eq]; omega)),
    Mem.read_write_of_disjoint (.inr (by rw [Mem.read_length]; omega))]
  show [clearedMem quote m (quote + 197 + 0), clearedMem quote m (quote + 197 + 1),
    clearedMem quote m (quote + 197 + 2)] = _
  rw [Nat.add_assoc, hbyte 197 le_rfl (by norm_num), Nat.add_assoc,
    hbyte 198 (by norm_num) (by norm_num), Nat.add_assoc, hbyte 199 (by norm_num) (by norm_num)]

lemma unsignedMem_fields {claim anchor : Memref} {quote : ℕ} :
    (unsignedMem C key claim anchor quote m).read (quote + 32) 4 = le32 raCurrentVersion
      ∧ (unsignedMem C key claim anchor quote m).read (quote + 36) 32
        = (claimHashOf C ((anchoredMem key anchor quote m).read claim.buffer claim.size)).toList
      ∧ (unsignedMem C key claim anchor quote m).read (quote + 68) 65
        = key.exportedPublicKey.toList := by
  have hread : ∀ {m : Mem} {a n : ℕ} {l : List UInt8}, l.length = n → (m.write a l).read a n = l :=
    fun hlen => hlen ▸ Mem.read_write
  refine ⟨?_, hread (Bytes.length_eq _), ?_⟩
  · rw [unsignedMem, Mem.read_write_of_disjoint (.inl (by omega)), anchoredMem,
      Mem.read_write_of_disjoint (.inl (by omega)),
      Mem.read_write_of_disjoint (.inr (by rw [Mem.read_length]))]
    exact hread rfl
  · rw [unsignedMem, Mem.read_write_of_disjoint (.inr (by rw [Bytes.length_eq]))]
    exact hread (Bytes.length_eq _)

end

/-- A command for a quote respects its memory references exactly if they are not accepted, or the
room for the quote has 200 bytes and the 32 bytes from the address of the anchor on are in the
anchor, in the claim or in the quote. -/
theorem respectsMemrefs_iff (C : Crypto) (key : AttestationKey) (p : Params) :
    RespectsMemrefs C key p ↔
      p.types ≠ genQuoteParamTypes ∨ 32 < p.anchor.size
        ∨ (200 ≤ p.quote.size ∧ OverreadKnown p) := by
  constructor
  · rintro ⟨hwrites, hdepends⟩
    by_cases hrejected : p.types ≠ genQuoteParamTypes ∨ 32 < p.anchor.size
    · exact or_assoc.mp (.inl hrejected)
    · rw [not_or, not_not, not_lt] at hrejected
      obtain ⟨htypes, hsize⟩ := hrejected
      have hroom : 200 ≤ p.quote.size := by
        have hinside := writesInside_iff.mp (hwrites (Env.calm Fn 0) fun _ => 0)
        rcases hinside with h | h | h
        · exact absurd htypes h
        · omega
        · exact h
      exact .inr (.inr ⟨hroom, overreadKnown_of_dependsOnInputs htypes hsize
        fun m m' => hdepends _ _ m m'⟩)
  · intro h
    refine ⟨fun env m => writesInside_iff.mpr ?_, fun env env' m m' => ?_⟩
    · exact h.imp_right (Or.imp_right And.left)
    · rcases h with htypes | hsize | ⟨-, hknown⟩
      · intro _ d d' t t' hrun
        exact absurd (invokeGenQuote_eq_ok.mp hrun).1 htypes
      · intro _ d d' t t' hrun
        exact absurd (invokeGenQuote_eq_ok.mp hrun).2.1 (not_le.mpr hsize)
      · exact dependsOnInputs_of_overreadKnown hknown

/-- An anchor of 16 bytes, with room for the quote of 100 bytes. -/
def shortParams : Params :=
  ⟨genQuoteParamTypes, ⟨0x1000, 32⟩, ⟨0x2000, 16⟩, ⟨0x3000, 100⟩⟩

/-- The service writes behind the room for the quote, and it puts the 16 bytes behind the anchor
into the quote. -/
theorem short_references_not_respected :
    ¬ WritesInside Crypto.sample ⟨1, Bytes.zero 65⟩ shortParams (Env.calm Fn 0) (fun _ => 0)
      ∧ ¬ ∀ m m', DependsOnInputs Crypto.sample ⟨1, Bytes.zero 65⟩ shortParams (Env.calm Fn 0)
        (Env.calm Fn 0) m m' := by
  constructor
  · exact mt writesInside_iff.mp (by decide)
  · intro h
    have hknown := overreadKnown_of_dependsOnInputs rfl (by decide) h 16 (by decide) (by decide)
    rcases hknown with hclaim | hquote
    · exact absurd hclaim.2 (by decide)
    · exact absurd hquote.1 (by decide)

section

variable {C : Crypto} {env : Env Fn} {key : AttestationKey} {p : Params} {s t : Machine}

/-- **The command computes the quote.**  On references that do not overlap the room for the quote,
the quote in memory is the one that `generateQuote` computes from the claim and the 32 bytes at the
address of the anchor. -/
theorem quoteIn_of_disjoint {h : Bytes 32} (hrun : invokeGenQuote C env key p s = .ok h t)
    (hclaim : Disjoint p.claim.range (Mem.range p.quote.buffer 200))
    (hanchor : Disjoint (Mem.range p.anchor.buffer 32) (Mem.range p.quote.buffer 200)) (q : Quote) :
    generateQuote C env key (s.mem.read p.claim.buffer p.claim.size)
        (Bytes.slice 32 (s.mem.read p.anchor.buffer 32)) p.anchor.size q
      = .ok () (quoteIn p t) := by
  obtain ⟨-, hsize, h1, h2, h3, rfl, rfl⟩ := invokeGenQuote_eq_ok.mp hrun
  have hanchor' : (clearedMem p.quote.buffer s.mem).read p.anchor.buffer 32
      = s.mem.read p.anchor.buffer 32 := by
    refine Mem.SameOn.read (R := Mem.range p.anchor.buffer 32) (fun i hi => ?_) subset_rfl
    exact clearedMem_of_notMem (Set.disjoint_left.mp hanchor hi)
  have hclaim' : (anchoredMem key p.anchor p.quote.buffer s.mem).read p.claim.buffer p.claim.size
      = s.mem.read p.claim.buffer p.claim.size := by
    refine Mem.SameOn.read (R := p.claim.range) (fun i hi => ?_) subset_rfl
    exact anchoredMem_of_notMem (Set.disjoint_left.mp hclaim hi)
  set U := unsignedMem C key p.claim p.anchor p.quote.buffer s.mem with hU
  obtain ⟨hversion, hhash, hkey⟩ : U.read (p.quote.buffer + 32) 4 = le32 raCurrentVersion
      ∧ U.read (p.quote.buffer + 36) 32
        = (claimHashOf C (s.mem.read p.claim.buffer p.claim.size)).toList
      ∧ U.read (p.quote.buffer + 68) 65 = key.exportedPublicKey.toList :=
    hclaim' ▸ unsignedMem_fields
  have hread : U.read p.quote.buffer 32 = s.mem.read p.anchor.buffer 32 :=
    unsignedMem_anchor.trans hanchor'
  have hpadding : U.read (p.quote.buffer + 197) 3 = [0, 0, 0] := unsignedMem_padding
  have hword : ofLe32 (le32 raCurrentVersion) = raCurrentVersion := by decide
  have hslice : ∀ {n : ℕ} (b : Bytes n), Bytes.slice n b.toList = b := by
    intro n b
    rw [Bytes.ext_iff, Bytes.slice_toList (by simp), List.take_of_length_le (by simp)]
  refine generateQuote_eq_ok.mpr ⟨hsize, by simpa using h1, h2, h3, ?_⟩
  -- the signature covers the fields before it, and does not touch them
  have hdigest : digestOf C key p.claim p.anchor p.quote.buffer s.mem
      = C.sha256 (hashQuoteInput (unsignedQuote C key (s.mem.read p.claim.buffer p.claim.size)
          (Bytes.slice 32 (s.mem.read p.anchor.buffer 32)))) := by
    rw [digestOf, ← hU, dec_read, hread, hversion, hhash, hkey, hword, hslice, hslice]
    rfl
  have hsigned : ∀ b : Bytes 64, (U.write (p.quote.buffer + 133) b.toList).read
      (p.quote.buffer + 133) 64 = b.toList := by
    intro b
    have hself : (U.write (p.quote.buffer + 133) b.toList).read (p.quote.buffer + 133)
      b.toList.length = b.toList := Mem.read_write
    rwa [b.length_eq] at hself
  rw [quoteIn, dec_read, hsigned, Mem.read_write_of_disjoint (.inl (by omega)), hread,
    Mem.read_write_of_disjoint (.inl (by omega)), hversion,
    Mem.read_write_of_disjoint (.inl (by omega)), hhash,
    Mem.read_write_of_disjoint (.inl (by omega)), hkey,
    Mem.read_write_of_disjoint (.inr (by rw [Bytes.length_eq])), hpadding, hword, hslice, hslice,
    hslice, hdigest]
  rfl

/-- References of the right sizes. -/
def fullParams : Params :=
  ⟨genQuoteParamTypes, ⟨0x1000, 32⟩, ⟨0x2000, 32⟩, ⟨0x3000, 200⟩⟩

/-- Three buffers that do not overlap, in a memory of increasing bytes. -/
theorem quoteIn_of_disjoint_sample :
    ∃ t, (quoteIn fullParams t).anchor.toList = (List.range 32).map UInt8.ofNat
      ∧ generateQuote Crypto.sample (Env.calm Fn 0) ⟨1, Bytes.zero 65⟩
        (Mem.read UInt8.ofNat 0x1000 32) (Bytes.slice 32 (Mem.read UInt8.ofNat 0x2000 32)) 32
        Quote.zero = .ok () (quoteIn fullParams t) := by
  obtain ⟨d, t, hrun, ht⟩ := exists_quote (C := Crypto.sample) (p := fullParams) rfl (by decide)
    UInt8.ofNat
  have hdisjoint : ∀ {a n : ℕ}, a + n ≤ 0x3000 →
      Disjoint (Mem.range a n) (Mem.range 0x3000 200) := fun hle =>
    Set.disjoint_left.mpr fun i hi hi' => absurd hi.2 (not_lt.mpr (hle.trans hi'.1))
  refine ⟨t, ht.trans (by decide +kernel), ?_⟩
  exact quoteIn_of_disjoint hrun (hdisjoint (by decide)) (hdisjoint (by decide)) Quote.zero

end

end Watz.Pta
