import Watz.Wamr.Native

/-!
# What a native function is handed

A signature that `check_symbol_signature` accepts describes the parameters of an import one by one.
This file says what each kind of parameter becomes, and proves that `wasm_runtime_invoke_native`,
which walks signature and type with another loop, hands over exactly that, in order, and only if
everything that is made a pointer lies in linear memory.
-/

namespace Watz.Wamr

open Lib

/-! ## Buffers in linear memory -/

/-- The buffer lies in linear memory. -/
def LinearMemory.Has (mem : LinearMemory) (b : Buffer) : Prop :=
  mem.memoryData ≤ b.addr ∧ b.addr + b.len ≤ mem.memoryDataEnd

instance (mem : LinearMemory) (b : Buffer) : Decidable (mem.Has b) :=
  inferInstanceAs (Decidable (_ ∧ _))

variable {n : ℕ} {f : Frame}

section

variable {mem : LinearMemory}

lemma validateAppAddr_iff {appOffset size : UInt32} :
    mem.validateAppAddr appOffset size = true
      ↔ mem.Has ⟨mem.memoryData + appOffset.toNat, size.toNat⟩ := by
  have hlt := mem.size_lt
  have hoffset := appOffset.toNat_lt
  have hsize := size.toNat_lt
  rw [LinearMemory.validateAppAddr, LinearMemory.Has, LinearMemory.memoryDataEnd]
  dsimp only
  split
  · rename_i hwrap
    rw [UInt32.lt_iff_toNat_lt, UInt32.toNat_add] at hwrap
    simp only [Bool.false_eq_true, false_iff]
    omega
  · rename_i hwrap
    rw [UInt32.lt_iff_toNat_lt, UInt32.toNat_add] at hwrap
    rw [decide_eq_true_eq, UInt32.toNat_add]
    omega

lemma scan_le (content : ℕ → UInt8) (n addr : ℕ) : LinearMemory.scan content n addr ≤ n := by
  induction n generalizing addr with
  | zero => exact le_rfl
  | succ n ih =>
    rw [LinearMemory.scan]
    split
    · exact Nat.zero_le _
    · exact Nat.succ_le_succ (ih _)

lemma validateAppStrAddr_iff {appStrOffset : UInt32} :
    mem.validateAppStrAddr appStrOffset = true
      ↔ mem.Has ⟨mem.memoryData + appStrOffset.toNat,
        mem.strlen (mem.memoryData + appStrOffset.toNat) + 1⟩ := by
  rw [LinearMemory.validateAppStrAddr, decide_eq_true_eq, LinearMemory.Has]
  have hscan := scan_le mem.content
    (mem.memoryDataEnd - (mem.memoryData + appStrOffset.toNat))
    (mem.memoryData + appStrOffset.toNat)
  simp only [LinearMemory.strlen, LinearMemory.memoryDataEnd] at *
  omega

lemma addrAppToNative_of_has {appOffset : UInt32}
    (h : mem.Has ⟨mem.memoryData + appOffset.toNat, n⟩) (hn : 0 < n) :
    mem.addrAppToNative appOffset = mem.memoryData + appOffset.toNat := by
  rw [LinearMemory.addrAppToNative, if_pos]
  have := h.2
  dsimp only at this
  omega

end

/-! ## The parameters of a signature -/

/-- A parameter as a signature describes it. -/
inductive Param where
  | value (type : ValueType)
  | pointer
  | pointerWithLength
  | string
deriving DecidableEq

/-- The parameters that a signature describes for an import of the given type. -/
def signatureParams : List ValueType → List Char → List Param
  | [], _ => []
  | _ :: _, [] => []
  | .i32 :: .i32 :: types, '*' :: '~' :: p => .pointerWithLength :: signatureParams types p
  | t :: types, sig :: p =>
    (if sig = '*' then .pointer else if sig = '$' then .string else .value t)
      :: signatureParams types p

namespace Param

variable (mem : LinearMemory)

/-- The number of cells of `argv` a parameter takes. -/
def cells : Param → ℕ
  | .value t => t.cells
  | .pointer => 1
  | .pointerWithLength => 2
  | .string => 1

/-- The arguments for a parameter whose cells `argv` begins with. -/
def args (argv : List UInt32) : Param → List (ArgClass × ℕ)
  | .value .i32 => [(.int, (argv.headD 0).toNat)]
  | .value .i64 => [(.int, word64 argv)]
  | .value .f32 => [(.float, (argv.headD 0).toNat)]
  | .value .f64 => [(.float, word64 argv)]
  | .pointer => [(.int, mem.addrAppToNative (argv.headD 0))]
  | .pointerWithLength =>
    [(.int, mem.addrAppToNative (argv.headD 0)), (.int, (argv.tail.headD 0).toNat)]
  | .string => [(.int, mem.addrAppToNative (argv.headD 0))]

/-- What has to lie in linear memory: the byte or the bytes pointed to, or the string with its
end. -/
def buffers (argv : List UInt32) : Param → List Buffer
  | .value _ => []
  | .pointer => [⟨mem.memoryData + (argv.headD 0).toNat, 1⟩]
  | .pointerWithLength =>
    [⟨mem.memoryData + (argv.headD 0).toNat, (argv.tail.headD 0).toNat⟩]
  | .string => [⟨mem.memoryData + (argv.headD 0).toNat,
      mem.strlen (mem.memoryData + (argv.headD 0).toNat) + 1⟩]

end Param

section

variable (mem : LinearMemory)

/-- The arguments for all parameters, in order. -/
def handed : List Param → List UInt32 → List (ArgClass × ℕ)
  | [], _ => []
  | p :: ps, argv => p.args mem argv ++ handed ps (argv.drop p.cells)

/-- All that has to lie in linear memory. -/
def pointedTo : List Param → List UInt32 → List Buffer
  | [], _ => []
  | p :: ps, argv => p.buffers mem argv ++ pointedTo ps (argv.drop p.cells)

/-- The number of cells of all parameters. -/
def cellsOf (ps : List Param) : ℕ := (ps.map Param.cells).sum

end

/-! ## Pushing arguments -/

namespace Frame

variable (cc : CallConv)

def pushAll (f : Frame) : List (ArgClass × ℕ) → Frame
  | [] => f
  | a :: as => (f.push cc a.1 a.2).pushAll as

def addBuffers (f : Frame) : List Buffer → Frame
  | [] => f
  | b :: bs => (f.addBuffer b).addBuffers bs

variable {cc}

lemma pushAll_append (f : Frame) (as bs : List (ArgClass × ℕ)) :
    f.pushAll cc (as ++ bs) = (f.pushAll cc as).pushAll cc bs := by
  induction as generalizing f with
  | nil => rfl
  | cons a as ih => exact ih _

lemma addBuffers_append (f : Frame) (as bs : List Buffer) :
    f.addBuffers (as ++ bs) = (f.addBuffers as).addBuffers bs := by
  induction as generalizing f with
  | nil => rfl
  | cons a as ih => exact ih _

lemma push_addBuffer (f : Frame) (b : Buffer) (cls : ArgClass) (v : ℕ) :
    (f.addBuffer b).push cc cls v = (f.push cc cls v).addBuffer b := by
  cases cls with
  | int =>
    by_cases h : f.nInts < cc.maxRegInts
    · simp [push, addBuffer, write, h]
    · simp [push, addBuffer, write, h]
  | float =>
    by_cases h : f.nFps < cc.maxRegFloats
    · simp [push, addBuffer, write, h]
    · simp [push, addBuffer, write, h]

lemma push_addBuffers (f : Frame) (bs : List Buffer) (cls : ArgClass) (v : ℕ) :
    (f.addBuffers bs).push cc cls v = (f.push cc cls v).addBuffers bs := by
  induction bs generalizing f with
  | nil => rfl
  | cons b bs ih => rw [addBuffers, ih, push_addBuffer, addBuffers]

lemma pushAll_addBuffers (f : Frame) (bs : List Buffer) (as : List (ArgClass × ℕ)) :
    (f.addBuffers bs).pushAll cc as = (f.pushAll cc as).addBuffers bs := by
  induction as generalizing f with
  | nil => rfl
  | cons a as ih => rw [pushAll, push_addBuffers, ih, pushAll]

end Frame

/-! ## The loop over the parameters -/

section

variable {cc : CallConv} {mem : LinearMemory}

/-- What the loop has done when it stops: it has pushed the first arguments, or all. -/
inductive Passes (cc : CallConv) (mem : LinearMemory) (ps : List Param) (argv : List UInt32)
    (f : Frame) : EStateM.Result Unit Frame (List UInt32) → Prop
  | done (hvalid : ∀ b ∈ pointedTo mem ps argv, mem.Has b) :
    Passes cc mem ps argv f (.ok (argv.drop (cellsOf ps))
      ((f.pushAll cc (handed mem ps argv)).addBuffers (pointedTo mem ps argv)))
  | stopped {as : List (ArgClass × ℕ)} {bs : List Buffer} (hbegin : as <+: handed mem ps argv)
    (hinvalid : ∃ b ∈ pointedTo mem ps argv, ¬ mem.Has b) :
    Passes cc mem ps argv f (.error () ((f.pushAll cc as).addBuffers bs))

lemma Passes.cons {p : Param} {ps : List Param} {argv : List UInt32}
    {x : EStateM.Result Unit Frame (List UInt32)} (hvalid : ∀ b ∈ p.buffers mem argv, mem.Has b)
    (h : Passes cc mem ps (argv.drop p.cells)
      ((f.pushAll cc (p.args mem argv)).addBuffers (p.buffers mem argv)) x) :
    Passes cc mem (p :: ps) argv f x := by
  cases h with
  | done hrest =>
    have heq : Passes cc mem (p :: ps) argv f _ :=
      .done (List.forall_mem_append.mpr ⟨hvalid, hrest⟩)
    rw [handed, pointedTo, Frame.pushAll_append, Frame.addBuffers_append] at heq
    rw [Frame.pushAll_addBuffers, List.drop_drop]
    exact heq
  | @stopped as bs hbegin hinvalid =>
    obtain ⟨b, hb, hbad⟩ := hinvalid
    have heq : Passes cc mem (p :: ps) argv f
        (.error ()
          ((f.pushAll cc (p.args mem argv ++ as)).addBuffers (p.buffers mem argv ++ bs))) :=
      .stopped ((List.prefix_append_right_inj _).mpr hbegin)
        ⟨b, List.mem_append_right _ hb, hbad⟩
    rw [Frame.pushAll_append, Frame.addBuffers_append] at heq
    rw [Frame.pushAll_addBuffers]
    exact heq

variable {b : Buffer} {sig : List Char}

lemma Passes.invalid {p : Param} {ps : List Param} {argv : List UInt32}
    (hb : b ∈ p.buffers mem argv) (hbad : ¬ mem.Has b) :
    Passes cc mem (p :: ps) argv f (.error () f) := by
  have h : Passes cc mem (p :: ps) argv f (.error () ((f.pushAll cc []).addBuffers [])) :=
    .stopped List.nil_prefix ⟨b, List.mem_append_left _ hb, hbad⟩
  exact h

lemma validated_eq {valid : Bool} (h : valid = true ↔ mem.Has b) (v : ℕ) (f : Frame) :
    (do failIf (valid = false) (); modify (Frame.addBuffer b); pure v : EStateM Unit Frame ℕ) f
      = if mem.Has b then .ok v (f.addBuffer b) else .error () f := by
  cases valid with
  | true =>
    rw [if_pos (h.mp rfl)]
    rfl
  | false =>
    rw [if_neg fun hb => Bool.false_ne_true (h.mpr hb)]
    rfl

lemma passI32_pointer (hsig : sig.head? = some '*') (arg : UInt32) (argv : List UInt32)
    (f : Frame) :
    passI32 mem sig arg argv f =
      let b : Buffer := ⟨mem.memoryData + arg.toNat,
        (if sig.tail.head? = some '~' then argv.headD 0 else 1).toNat⟩
      if mem.Has b then .ok (mem.addrAppToNative arg) (f.addBuffer b) else .error () f := by
  rw [passI32, if_pos hsig]
  exact validated_eq validateAppAddr_iff _ f

lemma passI32_string (hsig : sig.head? = some '$') (arg : UInt32) (argv : List UInt32) (f : Frame) :
    passI32 mem sig arg argv f =
      let b : Buffer := ⟨mem.memoryData + arg.toNat,
        mem.strlen (mem.memoryData + arg.toNat) + 1⟩
      if mem.Has b then .ok (mem.addrAppToNative arg) (f.addBuffer b) else .error () f := by
  rw [passI32, if_neg (by simp [hsig]), if_pos hsig]
  exact validated_eq validateAppStrAddr_iff _ f

lemma passI32_value (hptr : sig.head? ≠ some '*') (hstr : sig.head? ≠ some '$') (arg : UInt32)
    (argv : List UInt32) (f : Frame) :
    passI32 mem sig arg argv f = .ok arg.toNat f := by
  rw [passI32, if_neg hptr, if_neg hstr]
  rfl

lemma passParams_i32 (types : List ValueType) (sig : List Char) (argv : List UInt32) (f : Frame) :
    passParams cc mem (.i32 :: types) sig argv f =
      match passI32 mem sig (argv.headD 0) argv.tail f with
      | .ok v f' => passParams cc mem types sig.tail argv.tail (f'.push cc .int v)
      | .error e f' => .error e f' := by
  cases h : passI32 mem sig (argv.headD 0) argv.tail f with
  | ok v f' => exact (bind_of_ok h).trans rfl
  | error e f' => exact bind_of_error h

section

variable {types : List ValueType} {p : List Char} {ps : List Param}

lemma passes_value (t : ValueType) (argv : List UInt32) (f : Frame)
    (ih : ∀ argv f, Passes cc mem ps argv f (passParams cc mem types p argv f)) :
    Passes cc mem (.value t :: ps) argv f
      (passParams cc mem (t :: types) (sigMap t :: p) argv f) := by
  have hnone : ∀ b ∈ (Param.value t).buffers mem argv, mem.Has b := by simp [Param.buffers]
  cases t with
  | i32 =>
    rw [passParams_i32, passI32_value (by simp [sigMap]) (by simp [sigMap])]
    have htail := ih (argv.drop 1) (f.push cc .int (argv.headD 0).toNat)
    have h := Passes.cons (f := f) hnone htail
    rw [List.drop_one] at h
    exact h
  | i64 => exact Passes.cons hnone (ih _ _)
  | f32 =>
    have htail := ih (argv.drop 1) (f.push cc .float (argv.headD 0).toNat)
    have h := Passes.cons (f := f) hnone htail
    rw [List.drop_one] at h
    exact h
  | f64 => exact Passes.cons hnone (ih _ _)

lemma passes_buffer {par : Param} {argv : List UInt32} (hcells : par.cells = 1)
    (hbuffers : par.buffers mem argv = [b])
    (hargs : par.args mem argv = [(.int, mem.addrAppToNative (argv.headD 0))])
    (hpass : passI32 mem sig (argv.headD 0) argv.tail f
      = if mem.Has b then .ok (mem.addrAppToNative (argv.headD 0)) (f.addBuffer b) else .error () f)
    (ih : ∀ argv f, Passes cc mem ps argv f (passParams cc mem types sig.tail argv f)) :
    Passes cc mem (par :: ps) argv f (passParams cc mem (.i32 :: types) sig argv f) := by
  rw [passParams_i32, hpass]
  by_cases hb : mem.Has b
  · rw [if_pos hb]
    refine Passes.cons (by simpa [hbuffers] using hb) ?_
    rw [hcells, hbuffers, hargs, ← Frame.pushAll_addBuffers, List.drop_one]
    exact ih _ _
  · rw [if_neg hb]
    exact Passes.invalid (by simp [hbuffers]) hb

lemma passes_pointerWithLength (argv : List UInt32) (f : Frame)
    (ih : ∀ argv f, Passes cc mem ps argv f (passParams cc mem types p argv f)) :
    Passes cc mem (.pointerWithLength :: ps) argv f
      (passParams cc mem (.i32 :: .i32 :: types) ('*' :: '~' :: p) argv f) := by
  rw [passParams_i32, passI32_pointer rfl]
  by_cases hb : mem.Has ⟨mem.memoryData + (argv.headD 0).toNat, (argv.tail.headD 0).toNat⟩
  · simp only [List.tail_cons, List.head?_cons, if_true, if_pos hb]
    rw [passParams_i32, passI32_value (by simp) (by simp)]
    refine Passes.cons (by simpa [Param.buffers] using hb) ?_
    rw [← Frame.pushAll_addBuffers]
    have htail : argv.drop Param.pointerWithLength.cells = argv.tail.tail := by
      rw [Param.cells, ← List.drop_one, ← List.drop_one, List.drop_drop]
    rw [htail]
    exact ih _ _
  · simp only [List.tail_cons, List.head?_cons, if_true, if_neg hb]
    exact Passes.invalid (by simp [Param.buffers]) hb

end

/-- The walk of `check_symbol_signature` over an accepted signature, parameter by parameter. -/
inductive Describes : List ValueType → List Char → List Param → Prop
  | close (p : List Char) : Describes [] p []
  | value (t : ValueType) {types : List ValueType} {p : List Char} {ps : List Param}
      (h : Describes types p ps) : Describes (t :: types) (sigMap t :: p) (.value t :: ps)
  | pointer {types : List ValueType} {p : List Char} {ps : List Param}
      (h : Describes types p ps) (hlength : p.head? ≠ some '~') :
      Describes (.i32 :: types) ('*' :: p) (.pointer :: ps)
  | pointerWithLength {types : List ValueType} {p : List Char} {ps : List Param}
      (h : Describes types p ps) :
      Describes (.i32 :: .i32 :: types) ('*' :: '~' :: p) (.pointerWithLength :: ps)
  | string {types : List ValueType} {p : List Char} {ps : List Param}
      (h : Describes types p ps) : Describes (.i32 :: types) ('$' :: p) (.string :: ps)

lemma head_ne_of_checkParams {types : List ValueType} {p q : List Char}
    (h : checkParams types p = some (')' :: q))
    (hnot : ∀ types₁ p₁, types = .i32 :: types₁ → p = '~' :: p₁ → False) :
    p.head? ≠ some '~' := by
  intro hhead
  obtain ⟨p₁, rfl⟩ : ∃ p₁, p = '~' :: p₁ := by
    cases p with
    | nil => cases hhead
    | cons c p₁ => exact ⟨p₁, by rw [Option.some.inj hhead]⟩
  cases types with
  | nil => simp [checkParams] at h
  | cons t types =>
    cases t with
    | i32 => exact hnot types p₁ rfl rfl
    | i64 => simp [checkParams, sigMap] at h
    | f32 => simp [checkParams, sigMap] at h
    | f64 => simp [checkParams, sigMap] at h

lemma describes_signatureParams {types : List ValueType} {sig q : List Char}
    (h : checkParams types sig = some (')' :: q)) :
    Describes types sig (signatureParams types sig) := by
  induction types, sig using checkParams.induct with
  | case1 sig => exact .close sig
  | case2 t types => cases h
  | case3 types p ih =>
    rw [checkParams] at h
    exact .pointerWithLength (ih h)
  | case4 t types p hnot ih =>
    have hvalue : signatureParams (t :: types) (sigMap t :: p)
        = .value t :: signatureParams types p := by
      cases t <;> simp [signatureParams, sigMap]
    have hstep : checkParams (t :: types) (sigMap t :: p) = checkParams types p := by
      cases t <;> simp [checkParams, sigMap]
    rw [hvalue]
    exact .value t (ih (hstep ▸ h))
  | case5 t types sig p hnot hsig ht =>
    cases t <;> simp_all [checkParams]
  | case6 t types p ht hnot hsig ih =>
    obtain rfl := not_not.mp ht
    have hparams : signatureParams (.i32 :: types) ('*' :: p)
        = .pointer :: signatureParams types p := by
      rw [signatureParams]
      · rfl
      · exact hnot
    have hstep : checkParams (.i32 :: types) ('*' :: p) = checkParams types p := by
      rw [checkParams]
      · rfl
      · exact hnot
    have hlength := head_ne_of_checkParams (hstep ▸ h) fun types₁ p₁ h1 h2 =>
      hnot types₁ p₁ rfl h1 rfl h2
    rw [hparams]
    exact .pointer (ih (hstep ▸ h)) hlength
  | case7 t types p ht hnot hsig hne ih =>
    obtain rfl := not_not.mp ht
    have hstep : checkParams (.i32 :: types) ('$' :: p) = checkParams types p := by
      simp [checkParams, sigMap]
    have hparams : signatureParams (.i32 :: types) ('$' :: p)
        = .string :: signatureParams types p := by
      simp [signatureParams]
    rw [hparams]
    exact .string (ih (hstep ▸ h))
  | case8 t types sig p hnot hsig ht hptr hstr =>
    cases t <;> simp_all [checkParams]

lemma Describes.passes {types : List ValueType} {ps : List Param} (h : Describes types sig ps)
    (argv : List UInt32) (f : Frame) :
    Passes cc mem ps argv f (passParams cc mem types sig argv f) := by
  induction h generalizing argv f with
  | close p => exact .done (by simp [pointedTo])
  | value t h ih => exact passes_value t argv f ih
  | pointer h hlength ih =>
    refine passes_buffer rfl rfl rfl ?_ ih
    rw [passI32_pointer rfl, List.tail_cons, if_neg hlength]
    rfl
  | pointerWithLength h ih => exact passes_pointerWithLength argv f ih
  | string h ih => exact passes_buffer rfl rfl rfl (passI32_string rfl _ _ _) ih

lemma Describes.classes {types : List ValueType} {ps : List Param} (h : Describes types sig ps)
    (argv : List UInt32) :
    (handed mem ps argv).map Prod.fst = types.map ValueType.argClass := by
  induction h generalizing argv with
  | close p => rfl
  | value t h ih => cases t <;> simp [handed, Param.args, ValueType.argClass, ih]
  | pointer h hlength ih => simp [handed, Param.args, ValueType.argClass, ih]
  | pointerWithLength h ih => simp [handed, Param.args, ValueType.argClass, ih]
  | string h ih => simp [handed, Param.args, ValueType.argClass, ih]

/-- The addresses of the results behind the first one, as they lie in `argv`. -/
def extRetArgs : ℕ → List UInt32 → List (ArgClass × ℕ)
  | 0, _ => []
  | n + 1, argv => (.int, word64 argv) :: extRetArgs n (argv.drop 2)

lemma passExtRets_eq (n : ℕ) (argv : List UInt32) (f : Frame) :
    passExtRets cc n argv f = .ok () (f.pushAll cc (extRetArgs n argv)) := by
  induction n generalizing argv f with
  | zero => rfl
  | succ n ih => exact ih _ _

/-- All arguments of a native function: the execution environment, those for the parameters, and
the addresses of further results. -/
def nativeArgs (mem : LinearMemory) (type : FuncType) (ps : List Param) (argv : List UInt32)
    (execEnv : ℕ) : List (ArgClass × ℕ) :=
  (.int, execEnv) :: (handed mem ps argv ++ extRetArgs type.extRetCount (argv.drop (cellsOf ps)))

/-- The parameters that an accepted signature describes. -/
def FuncType.describedBy (type : FuncType) (signature : List Char) : List Param :=
  signatureParams type.params signature.tail

lemma describes_of_checkSymbolSignature {type : FuncType} {signature : List Char}
    (h : checkSymbolSignature type signature = true) :
    Describes type.params signature.tail (type.describedBy signature) := by
  unfold checkSymbolSignature at h
  split at h
  · rename_i p
    split at h
    · cases h
    · split at h
      · rename_i hparams _
        exact describes_signatureParams hparams
      · rename_i hparams _
        exact describes_signatureParams hparams
      · cases h
  · cases h

lemma nativeArgs_classes (mem : LinearMemory) {type : FuncType} {signature : List Char}
    (h : checkSymbolSignature type signature = true) (argv : List UInt32) (execEnv : ℕ) :
    (nativeArgs mem type (type.describedBy signature) argv execEnv).map Prod.fst
      = type.argClasses := by
  have hext : ∀ n argv, (extRetArgs n argv).map Prod.fst = List.replicate n .int := by
    intro n
    induction n with
    | zero => exact fun _ => rfl
    | succ n ih => exact fun argv => congrArg (ArgClass.int :: ·) (ih _)
  have hparams : (handed mem (type.describedBy signature) argv).map Prod.fst
      = type.params.map ValueType.argClass := (describes_of_checkSymbolSignature h).classes argv
  rw [nativeArgs, List.map_cons, List.map_append, hparams, hext]
  rfl

/-- With an accepted signature the call goes through exactly if all that is pointed to lies in
linear memory; otherwise it stops after some of the arguments. -/
lemma wasmRuntimeInvokeNative_eq (cc : CallConv) (mem : LinearMemory) {type : FuncType}
    {signature : List Char}
    (h : checkSymbolSignature type signature = true) (argv : List UInt32) (execEnv : ℕ) :
    ((∀ b ∈ pointedTo mem (type.describedBy signature) argv, mem.Has b)
        ∧ wasmRuntimeInvokeNative cc mem type signature argv execEnv Frame.empty
          = .ok () ((Frame.empty.pushAll cc
              (nativeArgs mem type (type.describedBy signature) argv execEnv)).addBuffers
            (pointedTo mem (type.describedBy signature) argv)))
      ∨ (∃ b ∈ pointedTo mem (type.describedBy signature) argv, ¬ mem.Has b)
        ∧ ∃ as bs, as <+: nativeArgs mem type (type.describedBy signature) argv execEnv
          ∧ wasmRuntimeInvokeNative cc mem type signature argv execEnv Frame.empty
            = .error () ((Frame.empty.pushAll cc as).addBuffers bs) := by
  have hpasses : Passes cc mem _ argv (Frame.empty.push cc .int execEnv) _ :=
    (describes_of_checkSymbolSignature h).passes argv _
  generalize hx : passParams cc mem type.params signature.tail argv
    (Frame.empty.push cc .int execEnv) = x at hpasses
  cases hpasses with
  | done hvalid =>
    refine .inl ⟨hvalid, ?_⟩
    refine (bind_of_ok hx).trans ?_
    rw [passExtRets_eq, Frame.pushAll_addBuffers, ← Frame.pushAll_append]
    rfl
  | @stopped as bs hbegin hinvalid =>
    refine .inr ⟨hinvalid, (.int, execEnv) :: as, bs, ?_, ?_⟩
    · exact List.cons_prefix_cons.mpr ⟨rfl, hbegin.trans (List.prefix_append _ _)⟩
    · exact (bind_of_ok rfl).trans (bind_of_error hx)

end

/-! ## Where the arguments are -/

namespace Frame

variable {cc : CallConv}

/-- Where the next argument of a class goes. -/
def slot (cc : CallConv) (f : Frame) : ArgClass → ℕ
  | .int =>
    if f.nInts < cc.maxRegInts then cc.maxRegFloats + f.nInts
    else cc.maxRegFloats + cc.maxRegInts + f.nStacks
  | .float =>
    if f.nFps < cc.maxRegFloats then f.nFps else cc.maxRegFloats + cc.maxRegInts + f.nStacks

lemma push_slot (f : Frame) (cls : ArgClass) (v : ℕ) :
    (f.push cc cls v).argv1 = Function.update f.argv1 (f.slot cc cls) v
      ∧ (f.push cc cls v).written = f.written ++ [f.slot cc cls] := by
  cases cls with
  | int =>
    by_cases h : f.nInts < cc.maxRegInts
    · simp [push, write, slot, h]
    · simp [push, write, slot, h]
  | float =>
    by_cases h : f.nFps < cc.maxRegFloats
    · simp [push, write, slot, h]
    · simp [push, write, slot, h]

/-- The counters behind an argument, by the place it went to. -/
lemma counters_push (cc : CallConv) (f : Frame) (cls : ArgClass) (v : ℕ) :
    let g := f.push cc cls v
    (f.slot cc cls = cc.maxRegFloats + f.nInts ∧ f.nInts < cc.maxRegInts
        ∧ g.nInts = f.nInts + 1 ∧ g.nFps = f.nFps ∧ g.nStacks = f.nStacks)
      ∨ (f.slot cc cls = f.nFps ∧ f.nFps < cc.maxRegFloats
        ∧ g.nInts = f.nInts ∧ g.nFps = f.nFps + 1 ∧ g.nStacks = f.nStacks)
      ∨ (f.slot cc cls = cc.maxRegFloats + cc.maxRegInts + f.nStacks
        ∧ (cc.maxRegInts ≤ f.nInts ∨ cc.maxRegFloats ≤ f.nFps)
        ∧ g.nInts = f.nInts ∧ g.nFps = f.nFps ∧ g.nStacks = f.nStacks + 1) := by
  cases cls with
  | int =>
    by_cases h : f.nInts < cc.maxRegInts
    · exact .inl (by simp [push, write, slot, h])
    · exact .inr (.inr (by simp [push, write, slot, h, not_lt.mp h]))
  | float =>
    by_cases h : f.nFps < cc.maxRegFloats
    · exact .inr (.inl (by simp [push, write, slot, h]))
    · exact .inr (.inr (by simp [push, write, slot, h, not_lt.mp h]))

/-- No counter has left the registers of its class. -/
structure InRegs (cc : CallConv) (f : Frame) : Prop where
  ints_le : f.nInts ≤ cc.maxRegInts
  fps_le : f.nFps ≤ cc.maxRegFloats

lemma InRegs.push (h : f.InRegs cc) (cls : ArgClass) (v : ℕ) :
    (f.push cc cls v).InRegs cc := by
  obtain ⟨hints, hfps⟩ := h
  have hcounters := counters_push cc f cls v
  exact ⟨by omega, by omega⟩

/-- A frame that holds `n` arguments, the first of them an integer. -/
structure Holds (cc : CallConv) (f : Frame) (n : ℕ) : Prop extends InRegs cc f where
  ints_pos : 0 < f.nInts
  count : f.nInts + f.nFps + f.nStacks = n
  written_lt : ∀ i ∈ f.written, i < cc.maxRegFloats + n

lemma holds_push_empty (cc : CallConv) (v : ℕ) : (Frame.empty.push cc .int v).Holds cc 1 := by
  have hints := cc.ints_pos
  have hslot : Frame.empty.slot cc .int = cc.maxRegFloats := by simp [slot, empty, hints]
  have hcounters := counters_push cc Frame.empty .int v
  rw [hslot] at hcounters
  have hempty : Frame.empty.nInts = 0 ∧ Frame.empty.nFps = 0 ∧ Frame.empty.nStacks = 0 :=
    ⟨rfl, rfl, rfl⟩
  refine ⟨⟨by omega, by omega⟩, by omega, by omega, ?_⟩
  rw [(push_slot ..).2, hslot]
  simp [empty]

lemma Holds.push (h : f.Holds cc n) (cls : ArgClass) (v : ℕ) :
    (f.push cc cls v).Holds cc (n + 1) := by
  have hregs := h.toInRegs.push cls v
  obtain ⟨⟨hints, hfps⟩, hpos, hcount, hwritten⟩ := h
  have hle := cc.ints_le
  have hcounters := counters_push cc f cls v
  refine ⟨hregs, by omega, by omega, fun i hi => ?_⟩
  rw [(push_slot ..).2] at hi
  rcases List.mem_append.mp hi with hi | hi
  · exact (hwritten i hi).trans (by omega)
  · rw [List.mem_singleton.mp hi]
    omega

lemma Holds.pushAll (h : f.Holds cc n) (as : List (ArgClass × ℕ)) :
    (f.pushAll cc as).Holds cc (n + as.length) := by
  induction as generalizing f n with
  | nil => exact h
  | cons a as ih =>
    have hrest := ih (h.push a.1 a.2)
    rwa [List.length_cons, Nat.add_comm as.length 1, ← Nat.add_assoc]

/-- The places that hold an argument. -/
def Used (cc : CallConv) (f : Frame) (idx : ℕ) : Prop :=
  idx < f.nFps ∨ (cc.maxRegFloats ≤ idx ∧ idx < cc.maxRegFloats + f.nInts)
    ∨ (cc.maxRegFloats + cc.maxRegInts ≤ idx
      ∧ idx < cc.maxRegFloats + cc.maxRegInts + f.nStacks)

lemma used_slot (f : Frame) (cls : ArgClass) (v : ℕ) :
    (f.push cc cls v).Used cc (f.slot cc cls) := by
  have hcounters := counters_push cc f cls v
  unfold Used
  omega

lemma Used.push {idx : ℕ} (h : f.Used cc idx) (hregs : f.InRegs cc) (cls : ArgClass) (v : ℕ) :
    (f.push cc cls v).Used cc idx ∧ (f.push cc cls v).argv1 idx = f.argv1 idx := by
  obtain ⟨hints, hfps⟩ := hregs
  have hcounters := counters_push cc f cls v
  unfold Used at h
  refine ⟨by unfold Used; omega, ?_⟩
  rw [(push_slot ..).1, Function.update_of_ne (by omega)]

lemma Used.pushAll {idx : ℕ} (h : f.Used cc idx) (hregs : f.InRegs cc) (as : List (ArgClass × ℕ)) :
    (f.pushAll cc as).argv1 idx = f.argv1 idx := by
  induction as generalizing f with
  | nil => rfl
  | cons a as ih =>
    obtain ⟨hused, hsame⟩ := h.push hregs a.1 a.2
    rw [Frame.pushAll, ih hused (hregs.push a.1 a.2), hsame]

lemma readArgs_cons (f : Frame) (argv1 : ℕ → ℕ) (cls : ArgClass) (v : ℕ)
    (classes : List ArgClass) :
    readArgs cc argv1 f.nInts f.nFps f.nStacks (cls :: classes)
      = argv1 (f.slot cc cls) :: readArgs cc argv1 (f.push cc cls v).nInts
          (f.push cc cls v).nFps (f.push cc cls v).nStacks classes := by
  cases cls with
  | int =>
    by_cases h : f.nInts < cc.maxRegInts
    · simp [readArgs, push, write, slot, h]
    · simp [readArgs, push, write, slot, h]
  | float =>
    by_cases h : f.nFps < cc.maxRegFloats
    · simp [readArgs, push, write, slot, h]
    · simp [readArgs, push, write, slot, h]

lemma readArgs_pushAll (hregs : f.InRegs cc) (as : List (ArgClass × ℕ)) :
    readArgs cc (f.pushAll cc as).argv1 f.nInts f.nFps f.nStacks (as.map Prod.fst)
      = as.map Prod.snd := by
  induction as generalizing f with
  | nil => rfl
  | cons a as ih =>
    have hregs' := hregs.push a.1 a.2
    rw [List.map_cons, List.map_cons, readArgs_cons f _ a.1 a.2, pushAll, ih hregs',
      (used_slot f a.1 a.2).pushAll hregs', (push_slot ..).1, Function.update_self]

@[simp]
lemma argv1_addBuffers (f : Frame) (bs : List Buffer) : (f.addBuffers bs).argv1 = f.argv1 := by
  induction bs generalizing f with
  | nil => rfl
  | cons b bs ih => exact ih _

@[simp]
lemma written_addBuffers (f : Frame) (bs : List Buffer) :
    (f.addBuffers bs).written = f.written := by
  induction bs generalizing f with
  | nil => rfl
  | cons b bs ih => exact ih _

@[simp]
lemma buffers_push (f : Frame) (cls : ArgClass) (v : ℕ) :
    (f.push cc cls v).buffers = f.buffers := by
  cases cls with
  | int =>
    by_cases h : f.nInts < cc.maxRegInts
    · simp [push, write, h]
    · simp [push, write, h]
  | float =>
    by_cases h : f.nFps < cc.maxRegFloats
    · simp [push, write, h]
    · simp [push, write, h]

lemma buffers_pushAll (cc : CallConv) (f : Frame) (as : List (ArgClass × ℕ)) :
    (f.pushAll cc as).buffers = f.buffers := by
  induction as generalizing f with
  | nil => rfl
  | cons a as ih => exact (ih _).trans (buffers_push f a.1 a.2)

lemma buffers_addBuffers (f : Frame) (bs : List Buffer) :
    (f.addBuffers bs).buffers = f.buffers ++ bs := by
  induction bs generalizing f with
  | nil => exact (List.append_nil _).symm
  | cons b bs ih => rw [addBuffers, ih, addBuffer, List.append_assoc, List.singleton_append]

end Frame

/-! ## The call -/

section

variable {cc : CallConv} {mem : LinearMemory} {type : FuncType} {signature : List Char}
  {argv : List UInt32} {execEnv : ℕ}

section

variable (h : checkSymbolSignature type signature = true)

include h

lemma written_lt_argc1 {as : List (ArgClass × ℕ)}
    (has : as <+: nativeArgs mem type (type.describedBy signature) argv execEnv) {bs : List Buffer} :
    ∀ i ∈ ((Frame.empty.pushAll cc as).addBuffers bs).written, i < argc1 cc type := by
  rw [Frame.written_addBuffers]
  cases as with
  | nil => exact fun i hi => nomatch hi
  | cons a as =>
    obtain ⟨rfl, -⟩ := List.cons_prefix_cons.mp has
    have hlength : (nativeArgs mem type (type.describedBy signature) argv execEnv).length
        = 1 + type.params.length + type.extRetCount := by
      have hclasses := congrArg List.length (nativeArgs_classes mem h argv execEnv)
      rw [List.length_map] at hclasses
      rw [hclasses, FuncType.argClasses]
      simp
      omega
    have hholds := (Frame.holds_push_empty cc execEnv).pushAll as
    intro i hi
    have hlt := hholds.written_lt i hi
    have hle := has.length_le
    rw [hlength, List.length_cons] at hle
    rw [argc1]
    omega

/-- With an accepted signature, a call that goes through finds its arguments in order, and all it
was given pointers to lies in linear memory. -/
lemma invokeNative_of_ok
    (hok : wasmRuntimeInvokeNative cc mem type signature argv execEnv Frame.empty = .ok () f) :
    f.args cc type
        = (nativeArgs mem type (type.describedBy signature) argv execEnv).map Prod.snd
      ∧ f.buffers = pointedTo mem (type.describedBy signature) argv
      ∧ (∀ b ∈ f.buffers, mem.Has b)
      ∧ ∀ i ∈ f.written, i < argc1 cc type := by
  rcases wasmRuntimeInvokeNative_eq cc mem h argv execEnv with
    ⟨hvalid, heq⟩ | ⟨-, as, bs, -, heq⟩
  · rw [heq] at hok
    cases hok
    have hbuffers := Frame.buffers_pushAll cc Frame.empty
      (nativeArgs mem type (type.describedBy signature) argv execEnv)
    refine ⟨?_, ?_, ?_, written_lt_argc1 h List.prefix_rfl⟩
    · rw [Frame.args, Frame.argv1_addBuffers, ← nativeArgs_classes mem h argv execEnv]
      exact Frame.readArgs_pushAll ⟨Nat.zero_le _, Nat.zero_le _⟩ _
    · rw [Frame.buffers_addBuffers, hbuffers]
      rfl
    · rw [Frame.buffers_addBuffers, hbuffers]
      exact hvalid
  · rw [heq] at hok
    cases hok

lemma invokeNative_of_error
    (herror : wasmRuntimeInvokeNative cc mem type signature argv execEnv Frame.empty
      = .error () f) :
    (∃ b ∈ pointedTo mem (type.describedBy signature) argv, ¬ mem.Has b)
      ∧ ∀ i ∈ f.written, i < argc1 cc type := by
  rcases wasmRuntimeInvokeNative_eq cc mem h argv execEnv with
    ⟨-, heq⟩ | ⟨hinvalid, as, bs, hbegin, heq⟩
  · rw [heq] at herror
    cases herror
  · rw [heq] at herror
    cases herror
    exact ⟨hinvalid, written_lt_argc1 h hbegin⟩

end

end

end Watz.Wamr
