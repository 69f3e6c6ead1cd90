import Watz.Wamr.Marshal
import Watz.Attester.Bounds
import Watz.Attester.Isolation
import Watz.Attester.NativeCalls

/-!
# Native functions stay in the sandbox

What a native function accesses of the linear memory of a module lies in buffers that were
validated, as long as what a peer sends fits the buffers of the application and what a module hands
in is as long as the dumps of the default build take it to be: then the objects of the application,
which lie elsewhere, are not left.
-/

namespace Watz
variable {off : UInt32}

namespace Wamr

/-! ## Confinement -/

/-- Of linear memory, nothing is accessed that does not lie in a validated buffer. -/
def Confined (mem : LinearMemory) (validated accessed : List Buffer) : Prop :=
  ∀ b ∈ accessed, ∀ a, b.addr ≤ a → a < b.addr + b.len →
    mem.memoryData ≤ a → a < mem.memoryDataEnd →
      ∃ v ∈ validated, mem.Has v ∧ v.addr ≤ a ∧ a < v.addr + v.len

section

variable {mem : LinearMemory} {vs : List Buffer} {b : Buffer} {bs bs' : List Buffer}

lemma confined_nil : Confined mem vs [] := fun _ h => nomatch h

lemma confined_cons : Confined mem vs (b :: bs) ↔ Confined mem vs [b] ∧ Confined mem vs bs := by
  simp [Confined]

lemma confined_append :
    Confined mem vs (bs ++ bs') ↔ Confined mem vs bs ∧ Confined mem vs bs' := by
  simp only [Confined, List.forall_mem_append]

lemma Confined.mono {ws : List Buffer} (h : Confined mem vs bs) (hsub : ∀ v ∈ vs, v ∈ ws) :
    Confined mem ws bs := by
  intro b hb a hle hlt hmem hend
  obtain ⟨v, hv, hcovers⟩ := h b hb a hle hlt hmem hend
  exact ⟨v, hsub v hv, hcovers⟩

lemma confined_inside {v : Buffer} (hv : v ∈ vs) (hhas : mem.Has v) (hle : v.addr ≤ b.addr)
    (hend : b.addr + b.len ≤ v.addr + v.len) : Confined mem vs [b] := by
  intro b' hb a ha hlt _ _
  rw [List.mem_singleton.mp hb] at ha hlt
  exact ⟨v, hv, hhas, hle.trans ha, hlt.trans_le hend⟩

lemma confined_apart {o : Buffer} (ho : mem.Apart o) (hle : o.addr ≤ b.addr)
    (hend : b.addr + b.len ≤ o.addr + o.len) : Confined mem vs [b] := by
  intro b' hb a ha hlt hmem hlt'
  rw [List.mem_singleton.mp hb] at ha hlt
  rcases ho with ho | ho
  · omega
  · omega

lemma confined_pointer {n m : ℕ} (hv : ⟨mem.memoryData + off.toNat, n⟩ ∈ vs)
    (hhas : mem.Has ⟨mem.memoryData + off.toNat, n⟩) (hm : m ≤ n) :
    Confined mem vs [⟨mem.addrAppToNative off, m⟩] := by
  rcases Nat.eq_zero_or_pos m with rfl | hpos
  · intro b hb a ha hlt _ _
    rw [List.mem_singleton.mp hb] at ha hlt
    dsimp only at ha hlt
    omega
  · rw [addrAppToNative_of_has hhas (hpos.trans_le hm)]
    exact confined_inside hv hhas le_rfl (by dsimp only; omega)

lemma addrAppToNative_lt (mem : LinearMemory) (off : UInt32) :
    mem.addrAppToNative off < 2 ^ 64 := by
  have hend := mem.end_lt
  rw [LinearMemory.addrAppToNative]
  split
  · rename_i hlt
    exact hlt.trans hend
  · norm_num

lemma confined_checkApp {size : UInt32} {t : Trace}
    (h : mem.Has ⟨mem.memoryData + off.toNat, size.toNat⟩ →
      Confined mem (vs ++ ⟨mem.memoryData + off.toNat, size.toNat⟩ :: t.validated) t.accessed) :
    Confined mem (vs ++ (Trace.checkApp mem off size t).validated)
      (Trace.checkApp mem off size t).accessed := by
  rw [Trace.checkApp]
  split
  · rename_i hvalid
    exact h (validateAppAddr_iff.mp hvalid)
  · exact confined_nil

lemma validateNativeAddr_has {nativePtr size : ℕ} (hptr : nativePtr < 2 ^ 64)
    (hsize : size < 2 ^ 64) (h : mem.validateNativeAddr nativePtr size = true) :
    mem.Has ⟨nativePtr, size⟩ := by
  rw [LinearMemory.validateNativeAddr] at h
  split at h
  · cases h
  · rw [decide_eq_true_eq] at h
    exact ⟨h.1, by dsimp only; omega⟩

lemma confined_checkNative {nativePtr size : ℕ} {t : Trace} (hptr : nativePtr < 2 ^ 64)
    (hsize : size < 2 ^ 64)
    (h : mem.Has ⟨nativePtr, size⟩ →
      Confined mem (vs ++ ⟨nativePtr, size⟩ :: t.validated) t.accessed) :
    Confined mem (vs ++ (Trace.checkNative mem nativePtr size t).validated)
      (Trace.checkNative mem nativePtr size t).accessed := by
  rw [Trace.checkNative]
  split
  · rename_i hvalid
    exact h (validateNativeAddr_has hptr hsize hvalid)
  · exact confined_nil

end

end Wamr

namespace Attester

open Lib Wamr

variable {s : RaState} {w : World}

section

variable {mem : LinearMemory} {vs : List Buffer}

lemma confined_next {σ α : Type} {r : EStateM.Result Stop σ α} {k : σ → List Buffer}
    (h : ∀ a s, r = .ok a s → Confined mem vs (k s)) : Confined mem vs (next r k) := by
  cases r with
  | ok a s => exact h a s rfl
  | error stop s => exact confined_nil

variable {around : Surroundings mem}

/-! ## The functions on quotes -/

lemma confined_collectQuoteTrace (C : Crypto) (key : Pta.AttestationKey) (w : World)
    (hash : Bytes 32) (s : RaState) {n : UInt32} (out : UInt32)
    (hv : ⟨mem.memoryData + off.toNat, n.toNat⟩ ∈ vs)
    (hhas : mem.Has ⟨mem.memoryData + off.toNat, n.toNat⟩)
    (hzero : n.toNat ≠ 0 → n.toNat ≤ 32 → mem.strlen (mem.addrAppToNative off) < n.toNat) :
    Confined mem (vs ++ (collectQuoteTrace around C key w hash s (mem.addrAppToNative off) n.toNat
        out).validated)
      (collectQuoteTrace around C key w hash s (mem.addrAppToNative off) n.toNat
        out).accessed := by
  refine confined_checkApp fun hout => ?_
  dsimp only
  split
  · exact confined_nil
  refine confined_append.mpr ⟨confined_next fun _ _ _ => ?_, confined_next fun _ _ hquote => ?_⟩
  · split
    · -- the null page is never linear memory
      have hpage := mem.page_le
      exact confined_apart (o := ⟨0, 32⟩) (.inl (by dsimp only; omega)) le_rfl le_rfl
    · split
      · exact confined_nil
      · refine confined_cons.mpr ⟨confined_pointer (List.mem_append_left _ hv) hhas le_rfl, ?_⟩
        split
        · exact confined_nil
        · rename_i hsize
          have htmp := around.mapZi_apart (tmpLen n.toNat) (by rw [tmpLen]; omega)
          refine confined_apart htmp (by dsimp only; omega) ?_
          rw [tmpLen]
          dsimp only
          omega
  · refine confined_append.mpr ⟨?_, ?_⟩
    · split
      · exact confined_nil
      · rename_i hne
        -- the service takes no anchor of more than 32 bytes
        obtain ⟨-, -, -, hgenerate, -⟩ := raQuoteCollect_eq_ok.mp hquote
        have hle := (Pta.generateQuote_eq_ok.mp hgenerate).1
        exact confined_pointer (List.mem_append_left _ hv) hhas (hzero hne hle)
    · exact confined_pointer (List.mem_append_right _ List.mem_cons_self) hout le_rfl

/-! ## The handshake -/

lemma confined_contextReads {s s' : State} (h : s'.Inside) :
    Confined mem vs (contextReads around s s') := by
  intro b hb
  obtain ⟨r, hr, rfl⟩ := List.mem_map.mp hb
  have hlen := h r (List.mem_of_mem_drop hr)
  have hoff := Messages.offset_add_le r.1
  refine confined_apart around.raContext_apart ?_ ?_ _ (List.mem_singleton.mpr rfl)
  · exact Nat.le_add_right _ _
  · dsimp only
    omega

lemma confined_storesAt {o : Buffer} (ho : mem.Apart o) {t : Transfer} (h : t.InBuffer o.len) :
    Confined mem vs (storesAt o.addr t) := by
  intro b hb a hle hlt hmem hend
  obtain ⟨st, hst, rfl⟩ := List.mem_map.mp hb
  dsimp only at hle hlt
  have hin := h st hst (a - (o.addr + st.offset)) (by omega)
  rcases ho with ho | ho
  · omega
  · omega

lemma confined_verifyServicePublicKeyReads {x xSize y ySize : UInt32} {m : Messages}
    (hx : ⟨mem.memoryData + x.toNat, xSize.toNat⟩ ∈ vs)
    (hxhas : mem.Has ⟨mem.memoryData + x.toNat, xSize.toNat⟩)
    (hy : ⟨mem.memoryData + y.toNat, ySize.toNat⟩ ∈ vs)
    (hyhas : mem.Has ⟨mem.memoryData + y.toNat, ySize.toNat⟩) :
    Confined mem vs (verifyServicePublicKeyReads mem (mem.addrAppToNative x) xSize.toNat
      (mem.addrAppToNative y) ySize.toNat m) := by
  rw [verifyServicePublicKeyReads]
  split
  · exact confined_nil
  · split
    · exact confined_nil
    · refine confined_cons.mpr ⟨confined_pointer hx hxhas le_rfl, ?_⟩
      split
      · exact confined_nil
      · exact confined_pointer hy hyhas le_rfl

lemma confined_handshakeTrace {C : Crypto} {host x xSize y ySize anchor anchorSize : UInt32}
    (out : UInt32)
    (hhost : ⟨mem.memoryData + host.toNat, mem.strlen (mem.memoryData + host.toNat) + 1⟩ ∈ vs)
    (hx : ⟨mem.memoryData + x.toNat, xSize.toNat⟩ ∈ vs)
    (hy : ⟨mem.memoryData + y.toNat, ySize.toNat⟩ ∈ vs)
    (hanchor : ⟨mem.memoryData + anchor.toNat, anchorSize.toNat⟩ ∈ vs) (hvs : ∀ v ∈ vs, mem.Has v)
    (hinside : s.raContextSingleton.Inside)
    (hmsg1 : ∀ image, receiveSocketPerChunk w.env.inbox 224 224 [] = .ok image →
      224 ≤ image.length → Msg1Fits (Msg1.layout.dec image))
    (hfits : FitsFrom 224 (delivered w.env.inbox) 0) :
    let a : HandshakeArgs := ⟨mem.addrAppToNative host, mem.addrAppToNative x, xSize.toNat,
      mem.addrAppToNative y, ySize.toNat, mem.addrAppToNative anchor, anchorSize.toNat⟩
    Confined mem (vs ++ (handshakeTrace around C w s a out).validated)
      (handshakeTrace around C w s a out).accessed := by
  intro a
  refine confined_checkApp fun hout => ?_
  dsimp only
  split
  · exact confined_nil
  have hsub : ∀ v ∈ vs, v ∈ vs ++ [⟨mem.memoryData + out.toNat, (4 : UInt32).toNat⟩] :=
    fun v hv => List.mem_append_left _ hv
  refine confined_append.mpr ⟨confined_append.mpr ⟨?_, ?_⟩, ?_⟩
  · exact confined_contextReads (bounded_raNetHandshake hmsg1 _ _ _ hinside).inside
  · refine confined_next fun _ _ _ => confined_cons.mpr ⟨?_, confined_next fun _ _ _ => ?_⟩
    · have haddr : mem.addrAppToNative host = mem.memoryData + host.toNat :=
        addrAppToNative_of_has (hvs _ hhost) (Nat.succ_pos _)
      refine confined_inside (hsub _ hhost) (hvs _ hhost) ?_ ?_
      · exact haddr.ge
      · dsimp only [a]
        rw [haddr]
    refine confined_append.mpr ⟨?_, confined_next fun _ _ _ => confined_append.mpr ⟨?_, ?_⟩⟩
    · exact confined_storesAt around.msg1_apart (inBuffer_of_fitsFrom (by norm_num) hfits)
    · exact confined_verifyServicePublicKeyReads (hsub _ hx) (hvs _ hx) (hsub _ hy) (hvs _ hy)
    · refine confined_next fun _ _ _ => ?_
      split
      · exact confined_nil
      · rename_i hsize
        exact confined_pointer (hsub _ hanchor) (hvs _ hanchor) (not_not.mp hsize).ge
  · exact confined_pointer (List.mem_append_right _ List.mem_cons_self) hout le_rfl

/-! ## Messages 2 and 3 -/

section

variable {C : Crypto} {env : Env Fn}

lemma Bounded.withMsg2 {s : State} (hs : Bounded s) (msg2 : Msg2) :
    Bounded { s with msgs.msg2 := msg2 } := by
  refine hs.of_eq rfl (fun f hf => ?_) rfl
  cases f with
  | localX => exact absurd hf (by decide)
  | localY => exact absurd hf (by decide)
  | _ => exact hs.fits _ hf

lemma keeps_bounded_macMsg2 : Keeps Bounded (macMsg2 C env) := by
  refine Keeps.bind keeps_tee fun _ => Keeps.get_bind fun s hs => ?_
  refine Keeps.bind keeps_content fun _ => ?_
  refine Keeps.bind (keeps_readField fun _ ht => ht.log (hs.fits .attesterX (by decide)))
    fun _ => ?_
  refine Keeps.bind (keeps_readField fun _ ht => ht.log (hs.fits .attesterY (by decide)))
    fun _ => ?_
  exact Keeps.bind keeps_tee fun _ => Keeps.modify fun _ ht => ht.withMsg2 _

lemma keeps_bounded_raNetSendQuote (quote : Quote) :
    Keeps Bounded (raNetSendQuote C env quote) := by
  have hprepare : Keeps Bounded (prepareMsg2 C env quote) :=
    Keeps.bind (Keeps.modify fun _ hs => hs.withMsg2 _) fun _ =>
      keeps_ignoreError keeps_bounded_macMsg2
  refine Keeps.bind hprepare fun _ => Keeps.bind keeps_tee fun _ => ?_
  exact Keeps.modify fun _ hs => hs.of_eq rfl hs.fits rfl

lemma keeps_bounded_raNetReceiveData (dataSize : ℕ) (heap : List UInt8) :
    Keeps Bounded (raNetReceiveData C env dataSize heap) := by
  have hallocate : Keeps Bounded (allocateMsg3 env dataSize) :=
    Keeps.bind (Keeps.modify fun _ hs => hs.of_eq rfl hs.fits rfl) fun _ => keeps_teeVoid
  have hreceive : Keeps Bounded (receiveMsg3 env) := by
    refine Keeps.bind Keeps.get fun s => ?_
    cases receiveSocketPerChunk env.inbox (256 * 1024) s.ctx.msg3Size [] with
    | error stop => exact Keeps.throw stop
    | ok msg3 => exact Keeps.modify fun _ hs => hs.of_eq rfl hs.fits rfl
  refine Keeps.bind hallocate fun _ => Keeps.bind hreceive fun _ => ?_
  refine Keeps.bind keeps_tee fun _ => Keeps.bind Keeps.get fun s => ?_
  refine Keeps.bind keeps_content fun k => Keeps.bind keeps_tee fun _ => ?_
  refine Keeps.bind (Keeps.failIf _) fun _ => Keeps.bind (Keeps.failIf _) fun _ => ?_
  refine Keeps.bind keeps_tee fun _ => ?_
  split
  · exact Keeps.pure _
  · exact Keeps.throw _

end

lemma confined_sendQuoteTrace {C : Crypto} (hs : Bounded s.raContextSingleton) (h q : UInt32) :
    Confined mem (vs ++ (sendQuoteTrace around C w s h q).validated)
      (sendQuoteTrace around C w s h q).accessed := by
  rw [sendQuoteTrace]
  dsimp only
  split
  · exact confined_nil
  have hcopy : ∀ (f : Field) {n : ℕ}, n ≤ 32 →
      Confined mem (vs ++ []) [⟨around.raContext + f.offset, n⟩] := by
    intro f n hn
    have hoff := Messages.offset_add_le f
    exact confined_apart around.raContext_apart (Nat.le_add_right _ _) (by dsimp only; omega)
  have hx := hs.fits .attesterX (by decide)
  have hy := hs.fits .attesterY (by decide)
  refine confined_append.mpr ⟨?_, ?_⟩
  · refine confined_cons.mpr ⟨hcopy _ hx, confined_cons.mpr ⟨hcopy _ hx, ?_⟩⟩
    exact confined_cons.mpr ⟨hcopy _ hy, hcopy _ hy⟩
  · exact confined_contextReads ((keeps_bounded_raNetSendQuote _).final_of hs).inside

lemma confined_receiveDataTrace {C : Crypto} (h dataOut dataSizeInout : UInt32)
    (hsize : 68 + (mem.word32 (mem.addrAppToNative dataSizeInout)).toNat < 2 ^ 32)
    (hfits : FitsFrom (68 + (mem.word32 (mem.addrAppToNative dataSizeInout)).toNat)
      (delivered w.env.inbox) 0)
    (hdump : mem.Apart
      ⟨around.malloc (68 + (mem.word32 (mem.addrAppToNative dataSizeInout)).toNat), msg3Dump⟩)
    (hshown : 30 ≤ (mem.word32 (mem.addrAppToNative dataSizeInout)).toNat) :
    Confined mem (vs ++ (receiveDataTrace around C w s h dataOut dataSizeInout).validated)
      (receiveDataTrace around C w s h dataOut dataSizeInout).accessed := by
  refine confined_checkApp fun hinout => ?_
  have hptr : ∀ ws : List Buffer,
      Confined mem (vs ++ ⟨mem.memoryData + dataSizeInout.toNat, (4 : UInt32).toNat⟩ :: ws)
        [⟨mem.addrAppToNative dataSizeInout, 4⟩] := fun ws =>
    confined_pointer (List.mem_append_right _ List.mem_cons_self) hinout le_rfl
  refine confined_cons.mpr ⟨hptr _, ?_⟩
  rw [← List.singleton_append, ← List.append_assoc]
  refine confined_checkApp fun hdata => ?_
  dsimp only
  split
  · exact confined_nil
  generalize hn : (mem.word32 (mem.addrAppToNative dataSizeInout)).toNat = n at *
  have hmod : (Msg3.layout.size + n + 16) % 2 ^ 32 = 68 + n := by
    rw [Msg3.layout_size, Nat.mod_eq_of_lt (by omega)]
    omega
  have hblock := around.malloc_apart (68 + n) hsize
  rw [raNetReceiveDataAccesses, hmod]
  refine confined_append.mpr ⟨confined_next fun u t ht => ?_, confined_next fun _ _ _ => ?_⟩
  swap
  · exact confined_pointer (List.mem_append_right _ List.mem_cons_self) hdata (by omega)
  have hmsg3 : t.ctx.msg3Size = 68 + n := by
    rw [← hmod, ← allocateMsg3_msg3Size w.env n s.raContextSingleton, ht, final_ok]
  refine confined_append.mpr ⟨?_, confined_next fun _ t' _ => ?_⟩
  · rw [hmsg3]
    exact confined_storesAt hblock (inBuffer_of_fitsFrom hsize hfits)
  · rw [Msg3.layout_size]
    refine confined_cons.mpr ⟨?_, confined_cons.mpr ⟨?_, ?_⟩⟩
    · exact confined_apart hdump le_rfl le_rfl
    · exact (hptr []).mono fun v hv => List.mem_append_left _ hv
    split
    · exact confined_nil
    · rename_i hroom
      refine confined_cons.mpr ⟨?_, ?_⟩
      · exact confined_apart hblock (Nat.le_add_right _ _) (by dsimp only; omega)
      · exact confined_pointer (List.mem_append_right _ List.mem_cons_self) hdata (by omega)

/-! ## Vectors of buffers -/

lemma readIovecs_spec (mem : LinearMemory) (n addr : ℕ) :
    (∀ b ∈ (readIovecs mem n addr).1.accessed, addr ≤ b.addr ∧ b.addr + b.len ≤ addr + 8 * n)
      ∧ ∀ iovec, (readIovecs mem n addr).2 = some iovec → ∀ ws : List Buffer,
        Confined mem (ws ++ (readIovecs mem n addr).1.validated) iovec := by
  induction n generalizing addr with
  | zero =>
    refine ⟨fun _ h => (nomatch h), fun iovec h ws => ?_⟩
    cases h
    exact confined_nil
  | succ n ih =>
    obtain ⟨haccessed, hiovec⟩ := ih (addr + 8)
    rw [readIovecs]
    dsimp only
    split
    · refine ⟨fun b hb => ?_, nofun⟩
      rw [List.mem_singleton.mp hb]
      exact ⟨le_rfl, by dsimp only; omega⟩
    · rename_i hvalid
      have hhas := validateAppAddr_iff.mp (Bool.not_eq_false _ ▸ hvalid)
      refine ⟨List.forall_mem_cons.mpr ⟨⟨le_rfl, by dsimp only; omega⟩, fun b hb => ?_⟩,
        fun iovec h ws => ?_⟩
      · have := haccessed b hb
        omega
      · obtain ⟨rest, hrest, rfl⟩ := Option.map_eq_some_iff.mp h
        refine confined_cons.mpr ⟨confined_pointer ?_ hhas le_rfl, ?_⟩
        · exact List.mem_append_right _ List.mem_cons_self
        · have := hiovec rest hrest (ws ++ [⟨mem.memoryData
            + (mem.word32 addr).toNat, (mem.word32 (addr + 4)).toNat⟩])
          rwa [List.append_assoc, List.singleton_append] at this

lemma confined_iovecTrace (fw : FileWorld) {iovecApp iovsLen nApp : ℕ} (hptr : iovecApp < 2 ^ 64)
    (hn : nApp < 2 ^ 64) :
    Confined mem (vs ++ (iovecTrace mem fw iovecApp iovsLen nApp).validated)
      (iovecTrace mem fw iovecApp iovsLen nApp).accessed := by
  rw [iovecTrace]
  split
  · exact confined_nil
  refine confined_checkNative hn (by norm_num) fun hnhas => ?_
  split
  · exact confined_nil
  rename_i hlen
  rw [← List.singleton_append, ← List.append_assoc]
  refine confined_checkNative hptr (by omega) fun hhas => ?_
  split
  · exact confined_nil
  obtain ⟨haccessed, hiovec⟩ := readIovecs_spec mem iovsLen iovecApp
  have hentries : ∀ ws : List Buffer,
      Confined mem ((vs ++ [⟨nApp, 4⟩]) ++ ⟨iovecApp, 8 * iovsLen⟩ :: ws)
        (readIovecs mem iovsLen iovecApp).1.accessed := by
    intro ws b hb
    obtain ⟨hle, hend⟩ := haccessed b hb
    exact confined_inside (List.mem_append_right _ List.mem_cons_self) hhas hle hend b
      (List.mem_singleton.mpr rfl)
  split
  · rename_i t heq
    rw [heq] at hentries
    exact hentries _
  · rename_i t iovec heq
    rw [heq] at hentries hiovec
    refine confined_append.mpr ⟨confined_append.mpr ⟨hentries _, ?_⟩, ?_⟩
    · have := hiovec iovec rfl ((vs ++ [⟨nApp, 4⟩]) ++ [⟨iovecApp, 8 * iovsLen⟩])
      rwa [List.append_assoc _ [_] _, List.singleton_append] at this
    · split
      · exact confined_inside (List.mem_append_left _ (List.mem_append_right _ List.mem_cons_self))
          hnhas le_rfl le_rfl
      · exact confined_nil

end

/-! ## Calls -/

/-- The condition on a call: an anchor that the service takes has a zero byte; what the peer of a
handshake sends fits `msg1` piece by piece and has sizes up to 32; what it sends as `msg3` fits the
block that was allocated for it, whose size does not wrap around; the dump of `msg3`, which is
longer than a block for fewer than 34 bytes of data, stays outside linear memory; and there is room
for 30 bytes of data. -/
def HostCall.Fits (h : HostCall) : Prop :=
  match h.native with
  | .collectQuote =>
    (h.argv.getD 1 0).toNat ≠ 0 → (h.argv.getD 1 0).toNat ≤ 32 →
      h.mem.strlen (h.mem.addrAppToNative (h.argv.getD 0 0)) < (h.argv.getD 1 0).toNat
  | .handshake =>
    FitsFrom 224 (delivered h.world.env.inbox) 0
      ∧ (224 ≤ (delivered h.world.env.inbox).flatten.length →
        Msg1Fits (Msg1.layout.dec (delivered h.world.env.inbox).flatten))
  | .receiveData =>
    68 + (h.mem.word32 (h.mem.addrAppToNative (h.argv.getD 2 0))).toNat < 2 ^ 32
      ∧ FitsFrom (68 + (h.mem.word32 (h.mem.addrAppToNative (h.argv.getD 2 0))).toNat)
        (delivered h.world.env.inbox) 0
      ∧ h.mem.Apart ⟨h.around.malloc
          (68 + (h.mem.word32 (h.mem.addrAppToNative (h.argv.getD 2 0))).toNat), msg3Dump⟩
      ∧ 30 ≤ (h.mem.word32 (h.mem.addrAppToNative (h.argv.getD 2 0))).toNat
  | _ => True

lemma signature_accepted (n : Native) : checkSymbolSignature n.type n.signature = true := by
  cases n <;> decide

/-- What a function is handed behind `exec_env`, for the cells of a call. -/
def Native.args (mem : LinearMemory) (c : ℕ → UInt32) : Native → List ℕ
  | collectQuote => [mem.addrAppToNative (c 0), (c 1).toNat, (c 2).toNat]
  | disposeQuote => [(c 0).toNat]
  | handshake => [mem.addrAppToNative (c 0), mem.addrAppToNative (c 1), (c 2).toNat,
      mem.addrAppToNative (c 3), (c 4).toNat, mem.addrAppToNative (c 5), (c 6).toNat, (c 7).toNat]
  | sendQuote => [(c 0).toNat, (c 1).toNat]
  | receiveData => [(c 0).toNat, (c 1).toNat, (c 2).toNat]
  | dispose => [(c 0).toNat]
  | fdPread => [(c 0).toNat, mem.addrAppToNative (c 1), (c 2).toNat,
      (c 3).toNat + 2 ^ 32 * (c 4).toNat, mem.addrAppToNative (c 5)]
  | fdPwrite => [(c 0).toNat, mem.addrAppToNative (c 1), (c 2).toNat,
      (c 3).toNat + 2 ^ 32 * (c 4).toNat, mem.addrAppToNative (c 5)]
  | fdRead => [(c 0).toNat, mem.addrAppToNative (c 1), (c 2).toNat, mem.addrAppToNative (c 3)]

/-- What has been validated before a function is called. -/
def Native.buffers (mem : LinearMemory) (c : ℕ → UInt32) : Native → List Buffer
  | collectQuote => [⟨mem.memoryData + (c 0).toNat, (c 1).toNat⟩]
  | handshake =>
    [⟨mem.memoryData + (c 0).toNat, mem.strlen (mem.memoryData + (c 0).toNat) + 1⟩,
      ⟨mem.memoryData + (c 1).toNat, (c 2).toNat⟩, ⟨mem.memoryData + (c 3).toNat, (c 4).toNat⟩,
      ⟨mem.memoryData + (c 5).toNat, (c 6).toNat⟩]
  | fdPread => [⟨mem.memoryData + (c 1).toNat, 1⟩, ⟨mem.memoryData + (c 5).toNat, 1⟩]
  | fdPwrite => [⟨mem.memoryData + (c 1).toNat, 1⟩, ⟨mem.memoryData + (c 5).toNat, 1⟩]
  | fdRead => [⟨mem.memoryData + (c 1).toNat, 1⟩, ⟨mem.memoryData + (c 3).toNat, 1⟩]
  | _ => []

lemma headD_drop (argv : List UInt32) (i : ℕ) : (argv.drop i).headD 0 = argv.getD i 0 := by
  rw [List.headD_eq_head?_getD, List.head?_drop, List.getD_eq_getElem?_getD]

lemma nativeArgs_eq (n : Native) (mem : LinearMemory) (argv : List UInt32) (execEnv : ℕ) :
    (nativeArgs mem n.type (n.type.describedBy n.signature) argv execEnv).map Prod.snd
      = execEnv :: n.args mem fun i => argv.getD i 0 := by
  simp only [← headD_drop]
  cases n <;> simp [nativeArgs, handed, Param.args, Param.cells, ValueType.cells,
    FuncType.describedBy, signatureParams, Native.type, Native.signature, Native.args,
    FuncType.extRetCount, extRetArgs, word64]

lemma pointedTo_eq (n : Native) (mem : LinearMemory) (argv : List UInt32) :
    pointedTo mem (n.type.describedBy n.signature) argv
      = n.buffers mem fun i => argv.getD i 0 := by
  simp only [← headD_drop]
  cases n <;> simp [pointedTo, Param.buffers, Param.cells, ValueType.cells, FuncType.describedBy,
    signatureParams, Native.type, Native.signature, Native.buffers]

lemma msg1Fits_of_stream {inbox : List (Except Stop (List UInt8))}
    (hadm : Admissible 224 (delivered inbox))
    (h : 224 ≤ (delivered inbox).flatten.length →
      Msg1Fits (Msg1.layout.dec (delivered inbox).flatten)) {image : List UInt8}
    (hrecv : receiveSocketPerChunk inbox 224 224 [] = .ok image) (hlen : 224 ≤ image.length) :
    Msg1Fits (Msg1.layout.dec image) := by
  obtain ⟨rest, hrest⟩ := receiveSocketPerChunk_prefix hadm hrecv
  rw [List.nil_append] at hrest
  have hlen' : 224 ≤ (delivered inbox).flatten.length := by
    rw [← hrest, List.length_append]
    omega
  have hdec : Msg1.layout.dec (delivered inbox).flatten = Msg1.layout.dec image := by
    rw [← Msg1.layout.dec_take hlen', ← Msg1.layout.dec_take hlen, ← hrest]
    exact congrArg _ (List.take_append_of_le_length hlen)
  exact hdec ▸ h hlen'

section

variable {C : Crypto} {key : Pta.AttestationKey} {cc : CallConv}

lemma confined_hostStep (hs : Bounded s.raContextSingleton) {h : HostCall} (hfits : h.Fits) :
    Confined h.mem (hostStep C key cc (some s) h).1.validated
      (hostStep C key cc (some s) h).1.accessed := by
  rw [hostStep]
  split
  · exact confined_nil
  rename_i u f hok
  obtain ⟨hargs, hbuffers, hvalid, -⟩ := invokeNative_of_ok (signature_accepted h.native) hok
  dsimp only
  rw [nativeArgs_eq] at hargs
  rw [pointedTo_eq] at hbuffers
  rw [hbuffers] at hvalid ⊢
  rw [hargs]
  obtain ⟨mem, around, world, fw, hash, native, argv, execEnv, hrecv⟩ := h
  cases native with
  | collectQuote =>
    exact confined_collectQuoteTrace C key world hash s _ List.mem_cons_self
      (hvalid _ List.mem_cons_self) hfits
  | disposeQuote => exact confined_nil
  | handshake =>
    obtain ⟨hpieces, hmsg1⟩ := hfits
    exact confined_handshakeTrace _ (.head _) (.tail _ (.head _)) (.tail _ (.tail _ (.head _)))
      (.tail _ (.tail _ (.tail _ (.head _)))) hvalid hs.inside
      (fun image => msg1Fits_of_stream hrecv hmsg1) hpieces
  | sendQuote => exact confined_sendQuoteTrace hs _ _
  | receiveData =>
    obtain ⟨hsize, hpieces, hdump, hshown⟩ := hfits
    have hcell : UInt32.ofNat (argv.getD 2 0).toNat = argv.getD 2 0 := UInt32.ofNat_toNat
    rw [← hcell] at hsize hpieces hdump hshown
    exact confined_receiveDataTrace _ _ _ hsize hpieces hdump hshown
  | dispose => exact confined_nil
  | fdPread => exact confined_iovecTrace fw (addrAppToNative_lt _ _) (addrAppToNative_lt _ _)
  | fdPwrite => exact confined_iovecTrace fw (addrAppToNative_lt _ _) (addrAppToNative_lt _ _)
  | fdRead => exact confined_iovecTrace fw (addrAppToNative_lt _ _) (addrAppToNative_lt _ _)

lemma bounded_of_wasiCall {hash : Bytes 32} {c : Call} {s' : RaState} {reply : Reply}
    (hcall : wasiCall C key w hash c s = some (reply, s')) (hs : Bounded s.raContextSingleton)
    (hmsg1 : ∀ x y n ok, c = .handshake x y n ok →
      ∀ image, receiveSocketPerChunk w.env.inbox 224 224 [] = .ok image → 224 ≤ image.length →
        Msg1Fits (Msg1.layout.dec image)) : Bounded s'.raContextSingleton := by
  cases c with
  | collectQuote anchor n ok =>
    have hsame : s'.raContextSingleton = s.raContextSingleton := by
      simp only [wasiCall, wasiRaCollectQuote] at hcall
      grind -ring -linarith
    rwa [hsame]
  | disposeQuote q =>
    have hsame : s'.raContextSingleton = s.raContextSingleton := by
      simp only [wasiCall, wasiRaNetDisposeQuote] at hcall
      grind -ring -linarith
    rwa [hsame]
  | handshake x y n ok =>
    have hfinal : Bounded (final (raNetHandshake C w.env x y n s.raContextSingleton)) :=
      bounded_raNetHandshake (hmsg1 x y n ok rfl) x y n hs.inside
    simp only [wasiCall, wasiRaNetHandshake] at hcall
    grind -ring -linarith [final_ok, final_error]
  | sendQuote h q =>
    have hfinal : Bounded (final (raNetSendQuote C w.env s.raQuoteSingleton
      s.raContextSingleton)) := (keeps_bounded_raNetSendQuote _).final_of hs
    simp only [wasiCall, wasiRaNetSendQuote] at hcall
    grind -ring -linarith [final_ok, final_error]
  | receiveData h n ok ok' =>
    have hfinal : Bounded (final (raNetReceiveData C w.env n w.heap s.raContextSingleton)) :=
      (keeps_bounded_raNetReceiveData _ _).final_of hs
    simp only [wasiCall, wasiRaNetReceiveData] at hcall
    grind -ring -linarith [final_ok, final_error]
  | dispose h =>
    have hfinal : Bounded (final (raNetDispose s.raContextSingleton)) :=
      hs.of_eq rfl hs.fits rfl
    simp only [wasiCall, wasiRaNetDispose] at hcall
    grind -ring -linarith [final_ok, final_error]

/-- The context of an application that has not panicked is bounded. -/
def ContextBounded (t : Option RaState) : Prop := ∀ s, t = some s → Bounded s.raContextSingleton

lemma contextBounded_init : ContextBounded (some RaState.init) := by
  rintro s ⟨⟩
  refine ⟨fun r hr => (nomatch hr), fun f _ => ?_, fun a ha r hr => ?_⟩
  · cases f <;> exact Nat.zero_le 32
  · simp only [RaContext.refs, RaState.init, State.zero, List.mem_cons, List.not_mem_nil, or_false,
      or_self] at ha
    rw [ha] at hr
    cases hr

lemma contextBounded_hostStep (t : Option RaState) (h : HostCall) (ht : ContextBounded t)
    (hfits : h.Fits) : ContextBounded (hostStep C key cc t h).2 := by
  cases t with
  | none => exact ht
  | some s =>
    rw [hostStep]
    split
    · exact ht
    · intro s' hs'
      dsimp only [HostCall.nextState] at hs'
      split at hs'
      · cases hs'
        exact ht s rfl
      · rename_i c hc
        obtain ⟨⟨reply, s''⟩, hcall, rfl⟩ := Option.map_eq_some_iff.mp hs'
        refine bounded_of_wasiCall hcall (ht s rfl) ?_
        rintro x y n ok rfl image
        obtain ⟨mem, around, world, fw, hash, native, argv, execEnv, hrecv⟩ := h
        cases native with
        | handshake => exact msg1Fits_of_stream hrecv hfits.2
        | _ => simp [HostCall.call?] at hc

/-- Calls of native functions for which everything fits are confined, in whatever order modules make
them. -/
lemma confined_hostCalls (calls : List HostCall) (hfits : ∀ h ∈ calls, h.Fits) :
    ∀ e ∈ history (hostStep C key cc) (some RaState.init) calls,
      Confined e.input.mem e.output.validated e.output.accessed := by
  intro e he
  have hinput : e.input.Fits := hfits _ (input_mem_of_mem_history he)
  have hbefore := invariant_before contextBounded_hostStep contextBounded_init
    (fun e he => hfits _ (input_mem_of_mem_history he)) e he
  rw [output_of_mem_history he]
  cases hstate : e.before with
  | none => exact confined_nil
  | some s => exact confined_hostStep (hbefore s hstate) hinput

end

/-! ## A module and its surroundings -/

/-- A page of linear memory filled with zeros, but for a number at offset 256. -/
def sampleMem (n : UInt8) : LinearMemory where
  memoryData := 2 ^ 34
  memoryDataSize := 65536
  content a := if a = 2 ^ 34 + 256 then n else 0
  page_le := by norm_num
  size_lt := by norm_num
  end_lt := by norm_num

lemma sampleMem_end (n : UInt8) : (sampleMem n).memoryDataEnd = 2 ^ 34 + 65536 := rfl

/-- Blocks of the heap end 64 bytes below linear memory. -/
def sampleSurroundings (n : UInt8) : Surroundings (sampleMem n) where
  raContext := 2 ^ 36
  msg1 := 2 ^ 37
  malloc n := 2 ^ 34 - 64 - n
  mapZi _ := 2 ^ 38
  raContext_apart := .inr (by rw [sampleMem_end]; norm_num)
  msg1_apart := .inr (by rw [sampleMem_end]; norm_num)
  malloc_apart n hn := .inl (by simp only [sampleMem]; omega)
  mapZi_apart _ _ := .inr (by rw [sampleMem_end]; norm_num)

/-- A call whose peer delivers the given pieces. -/
def sampleCall (n : UInt8) (native : Native) (argv : List UInt32) (pieces : List (List UInt8))
    (h : Admissible native.chunkSize (delivered (pieces.map .ok))) : HostCall where
  mem := sampleMem n
  around := sampleSurroundings n
  world := sampleWorld pieces
  fileWorld := ⟨true, true, true⟩
  wasmBytecodeHash := Bytes.zero 32
  native := native
  argv := argv
  execEnv := 2 ^ 20
  recv_le := h

/-- A quote for an anchor of 32 bytes at offset 64, with the handle going to offset 128. -/
def sampleCollectCall : HostCall := sampleCall 0 .collectQuote [64, 32, 128] [] trivial

/-- The handshake of `sampleHandshake`, with the handle going to offset 128. -/
def sampleHandshakeCall : HostCall :=
  sampleCall 0 .handshake [0, 0, 0, 0, 0, 64, 32, 128]
    [Msg1.layout.enc { Msg1.zero with ecdhSignature := Bytes.slice 64 [7, 8] }] (by decide +kernel)

/-- A request for data into a buffer whose size is at offset 256, answered with the same byte over
and over. -/
def sampleReceiveCall (size : UInt8) (n : ℕ) (b : UInt8) (h : n ≤ 256 * 1024) : HostCall :=
  sampleCall size .receiveData [0, 512, 256] [List.replicate n b]
    ⟨List.length_replicate.trans_le h, trivial⟩

/-- **Host calls stay inside the sandbox as long as everything fits.**  Every call through an
accepted signature finds its arguments in order, has pointers only to what lies in linear memory and
writes `argv1` only below `argc1`; and in every sequence of calls of the native functions, by
whatever modules, for which everything fits, each call accesses linear memory only inside validated
buffers. -/
theorem sandbox_of_fits (cc : CallConv) :
    (∀ (mem : LinearMemory) (type : FuncType) (signature : List Char) (argv : List UInt32)
      (execEnv : ℕ), checkSymbolSignature type signature = true →
        (∀ f, wasmRuntimeInvokeNative cc mem type signature argv execEnv Frame.empty = .ok () f →
          f.args cc type
              = (nativeArgs mem type (type.describedBy signature) argv execEnv).map Prod.snd
            ∧ f.buffers = pointedTo mem (type.describedBy signature) argv
            ∧ (∀ b ∈ f.buffers, mem.Has b)
            ∧ ∀ i ∈ f.written, i < argc1 cc type)
        ∧ ∀ f, wasmRuntimeInvokeNative cc mem type signature argv execEnv Frame.empty
            = .error () f →
          (∃ b ∈ pointedTo mem (type.describedBy signature) argv, ¬ mem.Has b)
            ∧ ∀ i ∈ f.written, i < argc1 cc type)
      ∧ ∀ (C : Crypto) (key : Pta.AttestationKey) (calls : List HostCall),
        (∀ h ∈ calls, h.Fits) →
          ∀ e ∈ history (hostStep C key cc) (some RaState.init) calls,
            Confined e.input.mem e.output.validated e.output.accessed :=
  ⟨fun _ _ _ _ _ h => ⟨fun _ hok => invokeNative_of_ok h hok,
      fun _ herror => invokeNative_of_error h herror⟩,
    fun _ _ calls hfits => confined_hostCalls calls hfits⟩

/-- A quote for an anchor of 32 bytes, and a handshake after which the peer sends the header of an
empty `msg3` to a module with room for 40 bytes. -/
theorem sandbox_of_fits_sample :
    (∃ f, wasmRuntimeInvokeNative .aarch64 (sampleMem 0) Native.collectQuote.type
          Native.collectQuote.signature [64, 32, 128] (2 ^ 20) Frame.empty = .ok () f
        ∧ f.args .aarch64 Native.collectQuote.type = [2 ^ 20, 2 ^ 34 + 64, 32, 128]
        ∧ ∀ i ∈ f.written, i < argc1 .aarch64 Native.collectQuote.type)
      ∧ ∀ e ∈ history (hostStep Crypto.sample sampleKey .aarch64) (some RaState.init)
          [sampleCollectCall, sampleHandshakeCall, sampleReceiveCall 40 52 0 (by norm_num)],
        Confined e.input.mem e.output.validated e.output.accessed := by
  constructor
  · have hcall := ((sandbox_of_fits .aarch64).1 (sampleMem 0) Native.collectQuote.type
      Native.collectQuote.signature [64, 32, 128] (2 ^ 20) (by decide)).1 _ rfl
    exact ⟨_, rfl, hcall.1, hcall.2.2.2⟩
  · refine (sandbox_of_fits .aarch64).2 _ _ _ (List.forall_mem_cons.mpr ⟨fun _ _ => ?_,
      List.forall_mem_cons.mpr ⟨⟨?_, fun _ => ?_⟩, List.forall_mem_singleton.mpr ⟨?_, ?_, ?_, ?_⟩⟩⟩)
    · decide +kernel
    · exact (fitsFrom_cons (by decide)).mpr ⟨by decide +kernel, fun _ => fitsFrom_nil _⟩
    · exact ⟨by decide +kernel, by decide +kernel, by decide +kernel, by decide +kernel⟩
    · decide +kernel
    · exact (fitsFrom_cons (by decide +kernel)).mpr ⟨by decide +kernel, fun _ => fitsFrom_nil _⟩
    · exact .inl (by decide +kernel)
    · decide +kernel

/-- After a handshake the peer answers a request for no data with 200 bytes.  They are stored from
the beginning of the block of 68 bytes on, across what lies behind it, into linear memory. -/
theorem receive_data_leaves_sandbox :
    ∃ e ∈ history (hostStep Crypto.sample sampleKey .aarch64) (some RaState.init)
        [sampleHandshakeCall, sampleReceiveCall 0 200 7 (by norm_num)],
      ¬ Confined e.input.mem e.output.validated e.output.accessed := by
  have hmem : _ ∈ history (hostStep Crypto.sample sampleKey .aarch64) (some RaState.init)
      ([sampleHandshakeCall] ++ [sampleReceiveCall 0 200 7 (by norm_num)]) :=
    mem_history _ [sampleHandshakeCall] [] _
  refine ⟨_, hmem, fun h => ?_⟩
  obtain ⟨v, hv, -, hle, hlt⟩ := h ⟨2 ^ 34 - 64 - 68, 200⟩ (by decide +kernel) (2 ^ 34)
    (by decide) (by decide) (by decide) (by decide)
  revert v
  decide +kernel

end Attester
end Watz
