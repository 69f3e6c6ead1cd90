import Watz.Lib.Ledger
import Watz.Attester.Handles

/-!
# The resources of a context

A handshake opens a socket and allocates five transient objects, whose handles it keeps in the
context; the reception of data allocates a buffer for `msg3`.  A handshake begins by filling the
context with zeros, and one that fails returns without releasing anything.  This file keeps a
ledger of these resources beside the variables of the application and says for which histories
nothing stays live when the context is available.
-/

namespace Watz.Attester

open Lib

/-- What is acquired through `ra_context_singleton`. -/
inductive Resource where
  | ecdhLocalKeypair
  | ecdhSharedKeyDerivationKey
  | ecdhSharedMacKey
  | ecdhSharedSessionKey
  | ecdsaVerifierPublicKey
  | msg3
  | socket
deriving DecidableEq

/-- The transient objects, in the order in which `free_ra_context` frees them. -/
def transientObjects : List Resource :=
  [.ecdhLocalKeypair, .ecdhSharedKeyDerivationKey, .ecdhSharedMacKey, .ecdhSharedSessionKey,
    .ecdsaVerifierPublicKey]

/-- The handle of the object is not null. -/
def RaContext.refersTo (ctx : RaContext) : Resource → Bool
  | .ecdhLocalKeypair => ctx.ecdhLocalKeypairHandle ≠ .null
  | .ecdhSharedKeyDerivationKey => ctx.ecdhSharedKeyDerivationKey ≠ .null
  | .ecdhSharedMacKey => ctx.ecdhSharedMacKey ≠ .null
  | .ecdhSharedSessionKey => ctx.ecdhSharedSessionKey ≠ .null
  | .ecdsaVerifierPublicKey => ctx.ecdsaVerifierPublicKeyHandle ≠ .null
  | .msg3 | .socket => false

/-- The handshake gets as far as the socket, and it can be opened. -/
def SocketOpened (env : Env Fn) : Prop :=
  CallsOk Fn.sites env [.generateEcdhKeypair, .establishTcpConnection]

instance (env : Env Fn) : Decidable (SocketOpened env) :=
  inferInstanceAs (Decidable (∀ fn ∈ _, env.Ok fn (Fn.sites fn)))

/-- What a handshake has acquired that leaves the given context behind: the context was filled
with zeros at its beginning, so a handle that is not null is one it has allocated. -/
def acquired (env : Env Fn) (ctx : RaContext) : List Resource :=
  transientObjects.filter ctx.refersTo ++ if SocketOpened env then [.socket] else []

/-- What `free_ra_context` releases: the buffer of `msg3` only if its size is not zero. -/
def freed (ctx : RaContext) : List Resource :=
  transientObjects ++ (if 0 < ctx.msg3Size then [.msg3] else []) ++ [.socket]

/-- The ledger after a call, from the variables before and after it. -/
def trackCall (w : World) (s s' : RaState) (l : Ledger Resource) : Call → Ledger Resource
  | .handshake _ _ _ ok =>
    if ok = true ∧ s.isRaContextAvailable = true then
      (acquired w.env s'.raContextSingleton.ctx).foldl .acquire l.forget
    else l
  | .receiveData h _ ok ok' =>
    -- `allocate_msg3` overwrites the pointer to the last buffer
    if ok = true ∧ ok' = true ∧ s.isRaContextAvailable = false ∧ h = 0 then l.acquire .msg3
    else l
  | .dispose h =>
    if s.isRaContextAvailable = false ∧ h = 0 then
      (freed s.raContextSingleton.ctx).foldl .release l
    else l
  | _ => l

/-- The application with its ledger. -/
structure Tracked where
  modules : Modules
  ledger : Ledger Resource

/-- The application before its first module. -/
def Tracked.init : Tracked := ⟨Modules.init, .empty⟩

/-- The ledger after a step that leaves the given variables. -/
def Tracked.next (t : Tracked) (m : Modules) : Input → Tracked
  | .runWasm _ => ⟨m, t.ledger⟩
  | .call c w => ⟨m, trackCall w t.modules.ra m.ra t.ledger c⟩

/-- One step of the application with its ledger. -/
def trackedStep (C : Crypto) (key : Pta.AttestationKey) (t : Option Tracked) (i : Input) :
    Option Reply × Option Tracked :=
  ((moduleStep C key (t.map Tracked.modules) i).1,
    t.bind fun t => (moduleStep C key (some t.modules) i).2.map fun m => t.next m i)

section

variable {C : Crypto} {key : Pta.AttestationKey} {w : World} {hash : Bytes 32} {c : Call}
  {s s' : RaState} {reply : Reply} {l : Ledger Resource}

/-! ## What the functions leave behind -/

/-- A handshake succeeds in this environment: no call fails, the anchor has its size, and a message
arrives that passes the checks. -/
def HandshakeOk (C : Crypto) (env : Env Fn) (x y : List UInt8) (anchorSize : ℕ) (t : State) :
    Prop :=
  anchorSize = 32 ∧ CallsOk Fn.sites env handshakeFns ∧ ∃ image key peer anchor,
    HandshakeChecks C env x y image (t.answered C env.freshKey image).msgs key peer anchor

variable {env : Env Fn} {x y : List UInt8} {anchorSize : ℕ} {t t' : State}

lemma raNetHandshake_of_handshakeOk (h : HandshakeOk C env x y anchorSize t) :
    ∃ anchor t', raNetHandshake C env x y anchorSize t = .ok anchor t' := by
  obtain ⟨hsize, hcalls, image, key, peer, anchor, hchecks⟩ := h
  exact ⟨anchor, _, raNetHandshake_eq_ok.mpr ⟨hsize, hcalls, image, key, peer, hchecks, rfl⟩⟩

lemma acquired_of_raNetHandshake {anchor : Bytes 32}
    (h : raNetHandshake C env x y anchorSize t = .ok anchor t') :
    acquired env t'.ctx = transientObjects ++ [.socket] ∧ t'.ctx.msg3Size = 0 := by
  obtain ⟨-, hcalls, image, key, peer, -, rfl⟩ := raNetHandshake_eq_ok.mp h
  have hsocket : SocketOpened env := fun fn hfn => hcalls fn (by
    simp only [List.mem_cons, List.not_mem_nil, or_false] at hfn
    rcases hfn with rfl | rfl <;> simp [handshakeFns])
  rw [acquired, if_pos hsocket]
  exact ⟨rfl, rfl⟩

lemma acquired_of_outcome {stop : Stop}
    (h : env.outcome ⟨.generateEcdhKeypair, .allocateTransientObject, 0⟩ = some stop) :
    raNetHandshake C env x y anchorSize t = .error stop t.allocated
      ∧ acquired env t.allocated.ctx = [] := by
  have halloc : allocRaContext t = .ok () t.allocated := allocRaContext_eq_ok.mpr rfl
  have hkeypair : generateEcdhKeypair C env t.allocated = .error stop t.allocated := by
    rw [generateEcdhKeypair, bind_of_error (tee_of_some h)]
  have hsocket : ¬ SocketOpened env := by
    intro hopened
    have hok := hopened .generateEcdhKeypair List.mem_cons_self _ List.mem_cons_self
    rw [h] at hok
    cases hok
  constructor
  · rw [raNetHandshake, bind_of_ok halloc, bind_of_error hkeypair]
  · rw [acquired, if_neg hsocket]
    rfl

lemma length_le_of_receiveSocketPerChunk {inbox : List (Except Stop (List UInt8))}
    {chunkSize dataSize : ℕ} {data data' : List UInt8}
    (h : receiveSocketPerChunk inbox chunkSize dataSize data = .ok data') :
    data.length ≤ data'.length := by
  induction inbox generalizing chunkSize data with
  | nil =>
    cases h
    exact le_rfl
  | cons recv rest ih =>
    cases recv with
    | error stop =>
      rw [receiveSocketPerChunk] at h
      split at h
      · cases h
      · cases h
        exact le_rfl
    | ok bs =>
      rw [receiveSocketPerChunk] at h
      split at h
      · have hle := ih h
        rw [List.length_append] at hle
        omega
      · cases h
        exact le_rfl

lemma receiveSocketPerChunk_ne_nil {recv : Except Stop (List UInt8)}
    {rest : List (Except Stop (List UInt8))} {chunkSize dataSize : ℕ} (hrecv : recv ≠ .ok [])
    (hchunk : 0 < chunkSize) (hsize : 0 < dataSize) :
    receiveSocketPerChunk (recv :: rest) chunkSize dataSize [] ≠ .ok [] := by
  intro h
  cases recv with
  | error stop =>
    rw [receiveSocketPerChunk, if_pos ⟨hchunk, hsize⟩] at h
    cases h
  | ok bs =>
    rw [receiveSocketPerChunk, if_pos ⟨hchunk, hsize⟩] at h
    have hle := length_le_of_receiveSocketPerChunk h
    have hbs : 0 < bs.length := List.length_pos_iff.mpr fun hnil => hrecv (by rw [hnil])
    simp only [List.nil_append, List.length_take, List.length_nil] at hle
    omega

/-- The first `recv` delivers data or fails: the peer has not closed the connection. -/
def PeerPresent (env : Env Fn) : Prop :=
  ∃ recv rest, env.inbox = recv :: rest ∧ recv ≠ .ok []

lemma msg3Size_raNetReceiveData {dataSize : ℕ} {rest : List UInt8}
    (hsize : (Msg3.layout.size + dataSize + 16) % 2 ^ 32 ≠ 0) (hpeer : PeerPresent env) :
    (final (raNetReceiveData C env dataSize rest t)).ctx.msg3Size ≠ 0 := by
  have hallocate : Triple (fun _ : State => True) (allocateMsg3 env dataSize)
      (fun _ t => t.ctx.msg3Size ≠ 0) (fun t => t.ctx.msg3Size ≠ 0) :=
    Triple.bind (Triple.modify fun _ _ => hsize) fun _ => keeps_teeVoid
  have hreceive : Keeps (fun t : State => t.ctx.msg3Size ≠ 0) (receiveMsg3 env) := by
    refine Keeps.get_bind fun t ht => ?_
    obtain ⟨recv, more, hinbox, hrecv⟩ := hpeer
    cases hdata : receiveSocketPerChunk env.inbox (256 * 1024) t.ctx.msg3Size [] with
    | error stop => exact Keeps.throw stop
    | ok data =>
      refine Keeps.modify fun _ _ hlen => ?_
      rw [List.length_eq_zero_iff.mp hlen, hinbox] at hdata
      exact receiveSocketPerChunk_ne_nil hrecv (by norm_num) (Nat.pos_of_ne_zero ht) hdata
  have hdecrypt : Keeps (fun t : State => t.ctx.msg3Size ≠ 0)
      (decryptMsg3 C env dataSize rest) := by
    refine Keeps.bind keeps_tee fun _ => Keeps.bind Keeps.get fun t => ?_
    refine Keeps.bind keeps_content fun k => Keeps.bind keeps_tee fun _ => ?_
    refine Keeps.bind (Keeps.failIf _) fun _ => Keeps.bind (Keeps.failIf _) fun _ => ?_
    refine Keeps.bind keeps_tee fun _ => ?_
    cases C.decrypt k (Msg3.layout.dec (t.ctx.msg3 ++ rest)).iv
      (((t.ctx.msg3 ++ rest).drop Msg3.layout.size).take
        (Msg3.layout.dec (t.ctx.msg3 ++ rest)).encryptedContentSize.toNat)
      (Msg3.layout.dec (t.ctx.msg3 ++ rest)).tag with
    | none => exact Keeps.throw _
    | some data => exact Keeps.pure data
  have hprog : Triple (fun _ : State => True) (raNetReceiveData C env dataSize rest)
      (fun _ t => t.ctx.msg3Size ≠ 0) (fun t => t.ctx.msg3Size ≠ 0) :=
    Triple.bind hallocate fun _ => Triple.bind hreceive fun _ => hdecrypt
  exact hprog.final_of trivial

lemma msg3Size_raNetSendQuote {quote : Quote} :
    (final (raNetSendQuote C env quote t)).ctx.msg3Size = t.ctx.msg3Size := by
  have hmac : Keeps (fun u : State => u.ctx.msg3Size = t.ctx.msg3Size) (macMsg2 C env) := by
    refine Keeps.bind keeps_tee fun _ => Keeps.bind Keeps.get fun _ => ?_
    refine Keeps.bind keeps_content fun _ => ?_
    refine Keeps.bind (keeps_readField fun _ hs => hs) fun _ => ?_
    refine Keeps.bind (keeps_readField fun _ hs => hs) fun _ => ?_
    exact Keeps.bind keeps_tee fun _ => Keeps.modify fun _ hs => hs
  have hsend : Keeps (fun u : State => u.ctx.msg3Size = t.ctx.msg3Size) (sendMsg2 env) :=
    Keeps.bind keeps_tee fun _ => Keeps.modify fun _ hs => hs
  have hprepare : Keeps (fun u : State => u.ctx.msg3Size = t.ctx.msg3Size)
      (prepareMsg2 C env quote) :=
    Keeps.bind (Keeps.modify fun _ hs => hs) fun _ => keeps_ignoreError hmac
  exact (Keeps.bind hprepare fun _ => hsend).final_of rfl

/-! ## The ledger of a history -/

/-- The call is one after which the ledger can be kept in order: a handshake that takes the context
succeeds, or cannot even allocate its first object; data is received only once, the peer is
present, and the size of the buffer is not zero. -/
def Careful (C : Crypto) (w : World) (s : RaState) : Call → Prop
  | .handshake x y anchorSize ok =>
    ok = true → s.isRaContextAvailable = true →
      HandshakeOk C w.env x y anchorSize s.raContextSingleton
        ∨ w.env.outcome ⟨.generateEcdhKeypair, .allocateTransientObject, 0⟩ ≠ none
  | .receiveData h dataSize ok ok' =>
    ok = true → ok' = true → s.isRaContextAvailable = false → h = 0 →
      s.raContextSingleton.ctx.msg3Size = 0 ∧ PeerPresent w.env
        ∧ (Msg3.layout.size + dataSize + 16) % 2 ^ 32 ≠ 0
  | _ => True

/-- The ledger fits the variables: nothing is live while the context is available; while it is
taken, what is live is what it refers to, and it knows whether it has a `msg3`. -/
structure Accounted (s : RaState) (l : Ledger Resource) : Prop where
  balanced : l.Balanced
  live_eq : s.isRaContextAvailable = true → l.live = 0
  held : s.isRaContextAvailable = false → l.Held
  msg3 : s.isRaContextAvailable = false → s.raContextSingleton.ctx.msg3Size = 0 →
    l.refs .msg3 = none

lemma Accounted.congr (h : Accounted s l)
    (hflag : s'.isRaContextAvailable = s.isRaContextAvailable)
    (hsize : s'.raContextSingleton.ctx.msg3Size = s.raContextSingleton.ctx.msg3Size) :
    Accounted s' l := by
  refine ⟨h.balanced, ?_, ?_, ?_⟩
  · rw [hflag]
    exact h.live_eq
  · rw [hflag]
    exact h.held
  · rw [hflag, hsize]
    exact h.msg3

lemma nodup_freed (ctx : RaContext) : (freed ctx).Nodup := by
  rw [freed]
  split <;> decide

lemma Accounted.handshake (h : Accounted s l)
    (hcall : wasiRaNetHandshake C w x y anchorSize true s = some (reply, s'))
    (havail : s.isRaContextAvailable = true)
    (hcareful : HandshakeOk C w.env x y anchorSize s.raContextSingleton
      ∨ w.env.outcome ⟨.generateEcdhKeypair, .allocateTransientObject, 0⟩ ≠ none) :
    Accounted s' ((acquired w.env s'.raContextSingleton.ctx).foldl .acquire l.forget) := by
  have hforget : l.forget.Balanced := h.balanced
  have hlive : l.forget.live = 0 := h.live_eq havail
  rw [wasiRaNetHandshake, if_neg (by decide), if_neg (by simp [havail])] at hcall
  rcases hcareful with hok | hfirst
  · obtain ⟨anchor, t, ht⟩ := raNetHandshake_of_handshakeOk hok
    rw [ht] at hcall
    cases hcall
    obtain ⟨hacquired, hmsg3⟩ := acquired_of_raNetHandshake ht
    have hnodup : (transientObjects ++ [Resource.socket]).Nodup := by decide
    obtain ⟨hb, hheld, hrefs⟩ := Ledger.acquireAll hforget (Ledger.held_forget hlive) hnodup
      fun _ _ => rfl
    dsimp only
    rw [hacquired]
    exact ⟨hb, by simp, fun _ => hheld, fun _ _ => hrefs .msg3 (by decide)⟩
  · obtain ⟨stop, hstop⟩ := Option.ne_none_iff_exists'.mp hfirst
    obtain ⟨herror, hacquired⟩ := acquired_of_outcome hstop
    rw [herror] at hcall
    cases stop with
    | panic => cases hcall
    | error e =>
      cases hcall
      dsimp only
      rw [hacquired]
      exact ⟨hforget, fun _ => hlive, by simp [havail], by simp [havail]⟩

lemma Accounted.receiveData (h : Accounted s l) {dataSize : ℕ}
    (hcall : wasiRaNetReceiveData C w 0 dataSize true true s = some (reply, s'))
    (htaken : s.isRaContextAvailable = false) (hmsg3 : s.raContextSingleton.ctx.msg3Size = 0)
    (hpeer : PeerPresent w.env) (hsize : (Msg3.layout.size + dataSize + 16) % 2 ^ 32 ≠ 0) :
    Accounted s' (l.acquire .msg3) := by
  have hsize' : (final (raNetReceiveData C w.env dataSize w.heap s.raContextSingleton)).ctx.msg3Size
      ≠ 0 := msg3Size_raNetReceiveData hsize hpeer
  have hafter : s'.isRaContextAvailable = false ∧ s'.raContextSingleton.ctx.msg3Size ≠ 0 := by
    rw [wasiRaNetReceiveData, if_neg (by decide), if_neg (by decide), if_neg (by simp [htaken]),
      if_neg (by decide)] at hcall
    cases hresult : raNetReceiveData C w.env dataSize w.heap s.raContextSingleton with
    | ok data t =>
      rw [hresult] at hcall hsize'
      cases hcall
      exact ⟨htaken, hsize'⟩
    | error stop t =>
      rw [hresult] at hcall hsize'
      cases stop with
      | panic => cases hcall
      | error e =>
        cases hcall
        exact ⟨htaken, hsize'⟩
  refine ⟨h.balanced.acquire .msg3, by simp [hafter.1], fun _ => ?_, fun _ hzero => ?_⟩
  · exact (h.held htaken).acquire (h.msg3 htaken hmsg3)
  · exact absurd hzero hafter.2

lemma Accounted.dispose (h : Accounted s l) (htaken : s.isRaContextAvailable = false)
    (hcall : wasiRaNetDispose 0 s = some (reply, s')) :
    Accounted s' ((freed s.raContextSingleton.ctx).foldl .release l) := by
  have hafter : s'.isRaContextAvailable = true := by
    rw [wasiRaNetDispose, if_neg (by simp [htaken]), if_neg (by decide)] at hcall
    cases hcall
    rfl
  have hrefs : ∀ r ∉ freed s.raContextSingleton.ctx, l.refs r = none := by
    intro r hr
    have hr : r = .msg3 ∧ s.raContextSingleton.ctx.msg3Size = 0 := by
      rw [freed] at hr
      cases r <;> simp_all [transientObjects]
    rw [hr.1]
    exact h.msg3 htaken hr.2
  obtain ⟨hlive, hb⟩ := Ledger.settled_iff.mp
    (Ledger.settled_releaseAll h.balanced (h.held htaken) (nodup_freed _) hrefs)
  exact ⟨hb, fun _ => hlive, by simp [hafter], by simp [hafter]⟩

lemma context_of_wasiCall (h : wasiCall C key w hash c s = some (reply, s'))
    (hc : match c with
      | .handshake _ _ _ _ | .receiveData _ _ _ _ | .dispose _ => False
      | _ => True) :
    s'.isRaContextAvailable = s.isRaContextAvailable
      ∧ s'.raContextSingleton.ctx.msg3Size = s.raContextSingleton.ctx.msg3Size := by
  cases c with
  | handshake x y n ok => exact hc.elim
  | receiveData hc' n ok ok' => exact hc.elim
  | dispose hc' => exact hc.elim
  | collectQuote a n ok =>
    simp only [wasiCall, wasiRaCollectQuote] at h
    grind -ring -linarith
  | disposeQuote q =>
    simp only [wasiCall, wasiRaNetDisposeQuote] at h
    grind -ring -linarith
  | sendQuote hc' q =>
    simp only [wasiCall, wasiRaNetSendQuote] at h
    have hsize : (final (raNetSendQuote C w.env s.raQuoteSingleton
      s.raContextSingleton)).ctx.msg3Size = s.raContextSingleton.ctx.msg3Size :=
      msg3Size_raNetSendQuote
    grind -ring -linarith [final_ok, final_error]

lemma Accounted.trackCall (h : Accounted s l)
    (hcall : wasiCall C key w hash c s = some (reply, s')) (hcareful : Careful C w s c) :
    Accounted s' (trackCall w s s' l c) := by
  cases c with
  | handshake x y n ok =>
    rw [Attester.trackCall]
    split
    · rename_i hreach
      obtain ⟨rfl, havail⟩ := hreach
      exact h.handshake hcall havail (hcareful rfl havail)
    · rename_i hreach
      have hsame : s' = s := by
        simp only [wasiCall, wasiRaNetHandshake] at hcall
        grind -ring -linarith
      exact hsame ▸ h
  | receiveData hc n ok ok' =>
    rw [Attester.trackCall]
    split
    · rename_i hreach
      obtain ⟨rfl, rfl, htaken, rfl⟩ := hreach
      obtain ⟨hmsg3, hpeer, hsize⟩ := hcareful rfl rfl htaken rfl
      exact h.receiveData hcall htaken hmsg3 hpeer hsize
    · rename_i hreach
      exact (wasiCall_of_not_reaches hcall hreach id ⟨by simp, by simp⟩).2 ▸ h
  | dispose hc =>
    rw [Attester.trackCall]
    split
    · rename_i hreach
      obtain ⟨htaken, rfl⟩ := hreach
      exact h.dispose htaken hcall
    · rename_i hreach
      exact (wasiCall_of_not_reaches hcall hreach id ⟨by simp, by simp⟩).2 ▸ h
  | collectQuote a n ok =>
    obtain ⟨hflag, hsize⟩ := context_of_wasiCall hcall trivial
    exact h.congr hflag hsize
  | disposeQuote q =>
    obtain ⟨hflag, hsize⟩ := context_of_wasiCall hcall trivial
    exact h.congr hflag hsize
  | sendQuote hc q =>
    obtain ⟨hflag, hsize⟩ := context_of_wasiCall hcall trivial
    exact h.congr hflag hsize

lemma accounted_trackedStep {t : Option Tracked} {i : Input}
    (h : ∀ u, t = some u → Accounted u.modules.ra u.ledger)
    (hcareful : ∀ u c w, t = some u → i = .call c w → Careful C w u.modules.ra c) :
    ∀ u, (trackedStep C key t i).2 = some u → Accounted u.modules.ra u.ledger := by
  intro u hu
  obtain ⟨t, rfl, hm⟩ := Option.bind_eq_some_iff.mp hu
  obtain ⟨m, hstep, rfl⟩ := Option.map_eq_some_iff.mp hm
  have ht := h t rfl
  obtain ⟨_, ⟨⟩, ⟨hash, rfl, hra⟩ | ⟨c, w, reply, rfl, -, hcall⟩⟩ := moduleStep_cases hstep
  · change Accounted m.ra t.ledger
    exact hra ▸ ht
  · exact ht.trackCall hcall (hcareful t c w rfl rfl)

end

/-- In every history of careful calls, whenever the context is available no resource acquired
through it is live, and each has been released exactly once. -/
theorem settled_of_careful (C : Crypto) (key : Pta.AttestationKey) (inputs : List Input)
    (hcareful : ∀ e ∈ history (trackedStep C key) (some Tracked.init) inputs, ∀ t c w,
      e.before = some t → e.input = .call c w → Careful C w t.modules.ra c) :
    ∀ t, finalState (trackedStep C key) (some Tracked.init) inputs = some t →
      t.modules.ra.isRaContextAvailable = true → t.ledger.Settled := by
  have haccounted : ∀ t, finalState (trackedStep C key) (some Tracked.init) inputs = some t →
      Accounted t.modules.ra t.ledger := by
    refine invariant_finalState
      (I := fun t : Option Tracked => ∀ u, t = some u → Accounted u.modules.ra u.ledger)
      (C := fun t i => ∀ u c w, t = some u → i = .call c w → Careful C w u.modules.ra c)
      (fun t i hI hC => accounted_trackedStep hI hC) ?_ hcareful
    rintro u ⟨⟩
    exact ⟨rfl, fun _ => rfl, nofun, nofun⟩
  intro t ht havail
  have h := haccounted t ht
  exact Ledger.settled_iff.mpr ⟨h.live_eq havail, h.balanced⟩

/-- A call for data when the network delivers one byte. -/
def sampleReceive : Input := .call (.receiveData 0 1 true true) (sampleWorld [[1]])

/-- A module that shakes hands, receives data and disposes of its context. -/
theorem settled_of_careful_sample :
    ∃ t, finalState (trackedStep Crypto.sample sampleKey) (some Tracked.init)
        [.call sampleHandshake.1 sampleHandshake.2, sampleReceive,
          .call (.dispose 0) (sampleWorld [])] = some t
      ∧ t.modules.ra.isRaContextAvailable = true ∧ t.ledger.Settled := by
  have hend : (finalState (trackedStep Crypto.sample sampleKey) (some Tracked.init)
      [.call sampleHandshake.1 sampleHandshake.2, sampleReceive,
        .call (.dispose 0) (sampleWorld [])]).map
          (fun t => t.modules.ra.isRaContextAvailable) = some true := by decide +kernel
  have hmsg3 : (trackedStep Crypto.sample sampleKey (some Tracked.init)
      (.call sampleHandshake.1 sampleHandshake.2)).2.map
        (fun t => t.modules.ra.raContextSingleton.ctx.msg3Size) = some 0 := by decide +kernel
  have hhandshake : (result? (raNetHandshake Crypto.sample sampleHandshake.2.env [] [] 32
      State.zero)).isSome = true := by decide +kernel
  obtain ⟨t, ht, havail⟩ := Option.map_eq_some_iff.mp hend
  refine ⟨t, ht, havail, settled_of_careful _ _ _ ?_ t ht havail⟩
  intro e he u c w hu hinput
  simp only [history, List.mem_cons, List.not_mem_nil, or_false] at he
  rcases he with rfl | rfl | rfl
  · cases hu
    cases hinput
    obtain ⟨⟨anchor, t'⟩, hresult⟩ := Option.isSome_iff_exists.mp hhandshake
    obtain ⟨hsize, hcalls, image, key, peer, hchecks, -⟩ :=
      raNetHandshake_eq_ok.mp (result?_eq_some.mp hresult)
    exact fun _ _ => .inl ⟨hsize, hcalls, image, key, peer, anchor, hchecks⟩
  · cases hinput
    dsimp only at hu
    rw [hu] at hmsg3
    exact fun _ _ _ _ => ⟨Option.some.inj hmsg3, ⟨_, _, rfl, by simp⟩, by decide⟩
  · cases hinput
    trivial

/-- A handshake that gets no answer leaves its key pair and its socket behind, and the context is
available. -/
theorem live_after_failed_handshake :
    ∃ t, finalState (trackedStep Crypto.sample sampleKey) (some Tracked.init)
        [.call (.handshake [] [] 32 true) (sampleWorld [])] = some t
      ∧ t.modules.ra.isRaContextAvailable = true
      ∧ t.ledger.live = {(.ecdhLocalKeypair, 0), (.socket, 1)} := by
  have hend : (finalState (trackedStep Crypto.sample sampleKey) (some Tracked.init)
      [.call (.handshake [] [] 32 true) (sampleWorld [])]).map
        (fun t => (t.modules.ra.isRaContextAvailable, t.ledger.live))
          = some (true, {(.ecdhLocalKeypair, 0), (.socket, 1)}) := by decide +kernel
  obtain ⟨t, ht, hdata⟩ := Option.map_eq_some_iff.mp hend
  exact ⟨t, ht, (Prod.mk.inj hdata).1, (Prod.mk.inj hdata).2⟩

end Watz.Attester
