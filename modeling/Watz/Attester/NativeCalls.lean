import Watz.Wamr.Native
import Watz.Attester.Wasi
import Watz.Attester.Receive

/-!
# The memory that native functions touch

The functions of `ra_wasi.c` and the wrappers of `fd_pread`, `fd_pwrite` and `fd_read` in
`libc_wasi_wrapper.c`, as a module calls them: with cells that stand for addresses in its linear
memory.  For each of them this file says which buffers it has validated and which buffers it, or
the code it calls, accesses, as far as their address or their length depends on the arguments, on
the memory of the module or on what a peer has sent.  The build is the default one, whose log level
defines `DEBUG_MESSAGE`: the dumps of that build are accesses too.
-/

namespace Watz
namespace Wamr

namespace LinearMemory

variable (mem : LinearMemory)

/-- The bytes from an address on. -/
def bytes (addr n : ℕ) : List UInt8 := (List.range n).map fun i => mem.content (addr + i)

/-- The word at an address. -/
def word32 (addr : ℕ) : UInt32 := Lib.ofLe32 (mem.bytes addr 4)

/-- The buffer lies outside linear memory. -/
def Apart (b : Buffer) : Prop := b.addr + b.len ≤ mem.memoryData ∨ mem.memoryDataEnd ≤ b.addr

end LinearMemory

/-- What a native function does to the address space: the buffers it has validated against linear
memory, and the buffers it accesses. -/
structure Trace where
  validated : List Buffer
  accessed : List Buffer
deriving DecidableEq

namespace Trace

/-- The function goes on only if `wasm_runtime_validate_app_addr` accepts the buffer. -/
def checkApp (mem : LinearMemory) (appOffset size : UInt32) (t : Trace) : Trace :=
  if mem.validateAppAddr appOffset size = true then
    { t with validated := ⟨mem.memoryData + appOffset.toNat, size.toNat⟩ :: t.validated }
  else ⟨[], []⟩

/-- The function goes on only if `wasm_runtime_validate_native_addr` accepts the buffer. -/
def checkNative (mem : LinearMemory) (nativePtr size : ℕ) (t : Trace) : Trace :=
  if mem.validateNativeAddr nativePtr size = true then
    { t with validated := ⟨nativePtr, size⟩ :: t.validated }
  else ⟨[], []⟩

end Trace

end Wamr

namespace Attester

open Lib Wamr

/-- Where the application has its own objects, all of them outside linear memory. -/
structure Surroundings (mem : LinearMemory) where
  /-- The messages of `ra_context_singleton`. -/
  raContext : ℕ
  /-- The array `msg1` on the stack of `receive_msg1`. -/
  msg1 : ℕ
  /-- The block of a given size that `TEE_Malloc` returns. -/
  malloc : ℕ → ℕ
  /-- The pages of a given size that `tee_map_zi` returns. -/
  mapZi : ℕ → ℕ
  raContext_apart : mem.Apart ⟨raContext, Messages.size⟩
  msg1_apart : mem.Apart ⟨msg1, Msg1.layout.size⟩
  malloc_apart : ∀ n < 2 ^ 32, mem.Apart ⟨malloc n, n⟩
  mapZi_apart : ∀ n < 2 ^ 33, mem.Apart ⟨mapZi n, n⟩

/-- The native functions of this file. -/
inductive Native where
  | collectQuote
  | disposeQuote
  | handshake
  | sendQuote
  | receiveData
  | dispose
  | fdPread
  | fdPwrite
  | fdRead
deriving DecidableEq

namespace Native

/-- The signatures of `wasi_ra_native_symbols` and `native_symbols_libc_wasi`. -/
def signature : Native → List Char
  | collectQuote => ['(', '*', '~', 'i', ')', 'i']
  | disposeQuote => ['(', 'i', ')', 'i']
  | handshake => ['(', '$', '*', '~', '*', '~', '*', '~', 'i', ')', 'i']
  | sendQuote => ['(', 'i', 'i', ')', 'i']
  | receiveData => ['(', 'i', 'i', 'i', ')', 'i']
  | dispose => ['(', 'i', ')', 'i']
  | fdPread => ['(', 'i', '*', 'i', 'I', '*', ')', 'i']
  | fdPwrite => ['(', 'i', '*', 'i', 'I', '*', ')', 'i']
  | fdRead => ['(', 'i', '*', 'i', '*', ')', 'i']

/-- The types these signatures stand for. -/
def type : Native → FuncType
  | collectQuote => ⟨[.i32, .i32, .i32], [.i32]⟩
  | disposeQuote => ⟨[.i32], [.i32]⟩
  | handshake => ⟨[.i32, .i32, .i32, .i32, .i32, .i32, .i32, .i32], [.i32]⟩
  | sendQuote => ⟨[.i32, .i32], [.i32]⟩
  | receiveData => ⟨[.i32, .i32, .i32], [.i32]⟩
  | dispose => ⟨[.i32], [.i32]⟩
  | fdPread => ⟨[.i32, .i32, .i32, .i64, .i32], [.i32]⟩
  | fdPwrite => ⟨[.i32, .i32, .i32, .i64, .i32], [.i32]⟩
  | fdRead => ⟨[.i32, .i32, .i32, .i32], [.i32]⟩

/-- How many bytes the first `recv` of a function asks for. -/
def chunkSize : Native → ℕ
  | handshake => 224
  | _ => 256 * 1024

end Native

/-- The accesses after a part of a function that may have failed. -/
def next {σ α : Type} (r : EStateM.Result Stop σ α) (k : σ → List Buffer) : List Buffer :=
  match r with
  | .ok _ s => k s
  | .error _ _ => []

section

variable {mem : LinearMemory} (around : Surroundings mem)

/-! ## Quotes -/

/-- The size of the pages `copy_param` of `TEE_InvokeTACommand` maps for the claim, the anchor and
the quote, each rounded up to 16 bytes. -/
def tmpLen (anchorSize : ℕ) : ℕ := 32 + (anchorSize + 15) / 16 * 16 + 208

/-- `ra_quote_collect`.  `TEE_InvokeTACommand` copies an anchor that is not empty to pages of its
own, from where the attestation service copies 32 bytes; for an empty one the service is given the
null pointer. -/
def raQuoteCollectAccesses (env : Env Fn) (anchor anchorSize : ℕ) (q : QuoteState) : List Buffer :=
  next (ensureAttestationServiceUp env q) fun _ =>
    if anchorSize = 0 then [⟨0, 32⟩]
    else if anchor = 0 then []
    else
      ⟨anchor, anchorSize⟩
        :: (if 32 < anchorSize then [] else [⟨around.mapZi (tmpLen anchorSize) + 32, 32⟩])

/-- `wasi_ra_collect_quote`.  Once there is a quote, `DMSG` prints the anchor with `%s`.  For an
empty anchor the service has stopped at the null pointer before. -/
def collectQuoteTrace (C : Crypto) (key : Pta.AttestationKey) (w : World)
    (wasmBytecodeHash : Bytes 32) (s : RaState) (anchor anchorSize : ℕ) (quoteHandleOut : UInt32) :
    Trace :=
  Trace.checkApp mem quoteHandleOut 4
    ⟨[], if s.isRaQuoteAvailable = false then []
      else
        raQuoteCollectAccesses around w.env anchor anchorSize
            ⟨s.attestationSession, s.raQuoteSingleton⟩
          ++ next (raQuoteCollect C w.env w.ptaEnv key wasmBytecodeHash
              (Bytes.slice 32 (mem.bytes anchor anchorSize)) anchorSize
              ⟨s.attestationSession, s.raQuoteSingleton⟩) fun _ =>
            (if anchorSize = 0 then [] else [⟨anchor, mem.strlen anchor + 1⟩])
              ++ [⟨mem.addrAppToNative quoteHandleOut, 4⟩]⟩

/-! ## The handshake -/

/-- The reads of the messages between two states. -/
def contextReads (s s' : State) : List Buffer :=
  (s'.reads.drop s.reads.length).map fun r => ⟨around.raContext + r.1.offset, r.2⟩

/-- The stores of `receive_socket_per_chunk` into a buffer at an address. -/
def storesAt (addr : ℕ) (t : Transfer) : List Buffer :=
  t.stores.map fun st => ⟨addr + st.offset, st.bytes.length⟩

/-- `verify_service_public_key`: the second coordinate is compared only if the first one agrees. -/
def verifyServicePublicKeyReads (mem : LinearMemory) (x xSize y ySize : ℕ) (m : Messages) :
    List Buffer :=
  if xSize = 0 ∧ ySize = 0 then []
  else if xSize ≠ 32 ∨ ySize ≠ 32 then []
  else
    ⟨x, xSize⟩
      :: (if mem.bytes x xSize ≠ m.msg1.ecdsaVerifierPublicKeyX.raw.toList then []
        else [⟨y, ySize⟩])

/-- The arguments of `ra_net_handshake` that are addresses or sizes. -/
structure HandshakeArgs where
  host : ℕ
  x : ℕ
  xSize : ℕ
  y : ℕ
  ySize : ℕ
  anchorBufferOut : ℕ
  anchorBufferSize : ℕ

/-- `ra_net_handshake`. -/
def raNetHandshakeAccesses (C : Crypto) (env : Env Fn) (a : HandshakeArgs) (s : State) :
    List Buffer :=
  let x := mem.bytes a.x a.xSize
  let y := mem.bytes a.y a.ySize
  contextReads around s (final (raNetHandshake C env x y a.anchorBufferSize s))
    ++ next ((do allocRaContext; generateEcdhKeypair C env) s) fun s =>
      ⟨a.host, mem.strlen a.host + 1⟩
        :: next ((do establishTcpConnection env; sendMsg0 env) s) fun s =>
          storesAt around.msg1 (transferPerChunk 224 env.inbox 224 0 0)
            ++ next (receiveMsg1 env s) fun s =>
              verifyServicePublicKeyReads mem a.x a.xSize a.y a.ySize s.msgs
                ++ next ((do
                    verifyServicePublicKey x y
                    importVerifierAttestationKey env
                    verifyEcdhPublicKeySignature C env
                    deriveSharedKey C env
                    deriveSharedMacKey C env .mac
                    deriveSharedMacKey C env .session
                    verifyMsg1Mac C env) s) fun _ =>
                  if a.anchorBufferSize ≠ 32 then [] else [⟨a.anchorBufferOut, 32⟩]

/-- `wasi_ra_net_handshake`. -/
def handshakeTrace (C : Crypto) (w : World) (s : RaState) (a : HandshakeArgs)
    (raContextHandleOut : UInt32) : Trace :=
  Trace.checkApp mem raContextHandleOut 4
    ⟨[], if s.isRaContextAvailable = false then []
      else
        raNetHandshakeAccesses around C w.env a s.raContextSingleton
          ++ [⟨mem.addrAppToNative raContextHandleOut, 4⟩]⟩

/-! ## Messages 2 and 3 -/

/-- `ra_net_send_quote`: `prepare_msg2` copies the coordinates from `msg0` to `msg2` as far as
their sizes say. -/
def raNetSendQuoteAccesses (C : Crypto) (env : Env Fn) (quote : Quote) (s : State) : List Buffer :=
  [⟨around.raContext + Field.attesterX.offset, s.msgs.msg0.ecdhAttesterPublicKeyX.size.toNat⟩,
    ⟨around.raContext + Field.localX.offset, s.msgs.msg0.ecdhAttesterPublicKeyX.size.toNat⟩,
    ⟨around.raContext + Field.attesterY.offset, s.msgs.msg0.ecdhAttesterPublicKeyY.size.toNat⟩,
    ⟨around.raContext + Field.localY.offset, s.msgs.msg0.ecdhAttesterPublicKeyY.size.toNat⟩]
    ++ contextReads around s (final (raNetSendQuote C env quote s))

/-- `wasi_ra_net_send_quote`. -/
def sendQuoteTrace (C : Crypto) (w : World) (s : RaState) (raContextHandle quoteHandle : UInt32) :
    Trace :=
  ⟨[], if s.isRaContextAvailable = true ∨ raContextHandle ≠ 0 ∨ quoteHandle ≠ 0 then []
    else raNetSendQuoteAccesses around C w.env s.raQuoteSingleton s.raContextSingleton⟩

/-- How many bytes of a received `msg3` are dumped, the header and 50 more. -/
def msg3Dump : ℕ := Msg3.layout.size + 50

/-- `ra_net_receive_data`.  `receive_msg3` dumps the beginning of the message, whatever its size,
`TEE_AEDecryptFinal` compares the sizes before it touches content and output, and reports the size
of the data, and `decrypt_msg3` dumps 30 bytes of the data, whatever their size. -/
def raNetReceiveDataAccesses (C : Crypto) (env : Env Fn) (heap : List UInt8)
    (data dataSizePtr dataSize : ℕ) (s : State) : List Buffer :=
  let msg3 := around.malloc ((Msg3.layout.size + dataSize + 16) % 2 ^ 32)
  (next (allocateMsg3 env dataSize s) fun s =>
    storesAt msg3 (transferPerChunk s.ctx.msg3Size env.inbox (256 * 1024) 0 0)
      ++ next (receiveMsg3 env s) fun s =>
        ⟨msg3, msg3Dump⟩ :: ⟨dataSizePtr, 4⟩
          :: (if dataSize < announcedSize (s.ctx.msg3 ++ heap) then []
            else
              [⟨msg3 + Msg3.layout.size, announcedSize (s.ctx.msg3 ++ heap)⟩,
                ⟨data, announcedSize (s.ctx.msg3 ++ heap)⟩]))
    ++ next (raNetReceiveData C env dataSize heap s) fun _ => [⟨data, 30⟩]

/-- `wasi_ra_net_receive_data`. -/
def receiveDataTrace (C : Crypto) (w : World) (s : RaState)
    (raContextHandle dataOut dataSizeInout : UInt32) : Trace :=
  let dataSizePtr := mem.addrAppToNative dataSizeInout
  let dataSize := mem.word32 dataSizePtr
  Trace.checkApp mem dataSizeInout 4
    (let t := Trace.checkApp mem dataOut dataSize
      ⟨[], if s.isRaContextAvailable = true ∨ raContextHandle ≠ 0 then []
        else raNetReceiveDataAccesses around C w.env w.heap (mem.addrAppToNative dataOut)
          dataSizePtr dataSize.toNat s.raContextSingleton⟩
    { t with accessed := ⟨dataSizePtr, 4⟩ :: t.accessed })

end

/-! ## Vectors of buffers -/

section

variable (mem : LinearMemory)

/-- The loop of the wrappers over `iovec_app`, with the array it fills unless a buffer cannot be
validated. -/
def readIovecs : ℕ → ℕ → Trace × Option (List Buffer)
  | 0, _ => (⟨[], []⟩, some [])
  | n + 1, iovecApp =>
    let bufOffset := mem.word32 iovecApp
    let bufLen := mem.word32 (iovecApp + 4)
    if mem.validateAppAddr bufOffset bufLen = false then (⟨[], [⟨iovecApp, 8⟩]⟩, none)
    else
      let (t, iovec) := readIovecs n (iovecApp + 8)
      (⟨⟨mem.memoryData + bufOffset.toNat, bufLen.toNat⟩ :: t.validated,
          ⟨iovecApp, 8⟩ :: t.accessed⟩,
        iovec.map (⟨mem.addrAppToNative bufOffset, bufLen.toNat⟩ :: ·))

/-- What the wrappers meet: whether there is a WASI context, whether `wasm_runtime_malloc` and
whether the function on the file succeed. -/
structure FileWorld where
  hasWasiCtx : Bool
  mallocOk : Bool
  fileOk : Bool

/-- `wasi_fd_pread`, `wasi_fd_pwrite` and `wasi_fd_read`, which differ in the function that they
call with the array; it uses a buffer of the array as far as its length says. -/
def iovecTrace (fw : FileWorld) (iovecApp iovsLen nApp : ℕ) : Trace :=
  if fw.hasWasiCtx = false then ⟨[], []⟩
  else
    Trace.checkNative mem nApp 4
      (if 2 ^ 32 - 1 ≤ 8 * iovsLen then ⟨[], []⟩
      else
        Trace.checkNative mem iovecApp (8 * iovsLen)
          (if 2 ^ 32 - 1 ≤ 16 * iovsLen ∨ fw.mallocOk = false then ⟨[], []⟩
          else
            match readIovecs mem iovsLen iovecApp with
            | (t, none) => t
            | (t, some iovec) =>
              ⟨t.validated, t.accessed ++ iovec
                ++ (if fw.fileOk = true then [⟨nApp, 4⟩] else [])⟩))

end

/-! ## Runs -/

/-- A call of a module: the memory it is made with, what the function meets outside, the function
and the cells of its arguments. -/
structure HostCall where
  mem : LinearMemory
  around : Surroundings mem
  world : World
  fileWorld : FileWorld
  wasmBytecodeHash : Bytes 32
  native : Native
  argv : List UInt32
  execEnv : ℕ
  /-- A `recv` returns at most as many bytes as it was asked for. -/
  recv_le : Admissible native.chunkSize (delivered world.env.inbox)

namespace HostCall

variable (C : Crypto) (key : Pta.AttestationKey) (cc : CallConv) (h : HostCall)

/-- What a native function does that finds the given arguments behind `exec_env`. -/
def trace (s : RaState) (args : List ℕ) : Trace :=
  let arg := fun i => args.getD i 0
  let cell := fun i => UInt32.ofNat (arg i)
  match h.native with
  | .collectQuote => collectQuoteTrace h.around C key h.world h.wasmBytecodeHash s
      (arg 1) (arg 2) (cell 3)
  | .disposeQuote => ⟨[], []⟩
  | .handshake => handshakeTrace h.around C h.world s
      ⟨arg 1, arg 2, arg 3, arg 4, arg 5, arg 6, arg 7⟩ (cell 8)
  | .sendQuote => sendQuoteTrace h.around C h.world s (cell 1) (cell 2)
  | .receiveData => receiveDataTrace h.around C h.world s (cell 1) (cell 2) (cell 3)
  | .dispose => ⟨[], []⟩
  | .fdPread => iovecTrace h.mem h.fileWorld (arg 2) (arg 3) (arg 5)
  | .fdPwrite => iovecTrace h.mem h.fileWorld (arg 2) (arg 3) (arg 5)
  | .fdRead => iovecTrace h.mem h.fileWorld (arg 2) (arg 3) (arg 4)

/-- The call in terms of the data at its addresses, for a function of `ra_wasi.c`. -/
def call? (args : List ℕ) : Option Call :=
  let arg := fun i => args.getD i 0
  let cell := fun i => UInt32.ofNat (arg i)
  match h.native with
  | .collectQuote => some (.collectQuote (Bytes.slice 32 (h.mem.bytes (arg 1) (arg 2))) (arg 2)
      (h.mem.validateAppAddr (cell 3) 4))
  | .disposeQuote => some (.disposeQuote (cell 1))
  | .handshake => some (.handshake (h.mem.bytes (arg 2) (arg 3)) (h.mem.bytes (arg 4) (arg 5))
      (arg 7) (h.mem.validateAppAddr (cell 8) 4))
  | .sendQuote => some (.sendQuote (cell 1) (cell 2))
  | .receiveData =>
    let dataSize := h.mem.word32 (h.mem.addrAppToNative (cell 3))
    some (.receiveData (cell 1) dataSize.toNat (h.mem.validateAppAddr (cell 3) 4)
      (h.mem.validateAppAddr (cell 2) dataSize))
  | .dispose => some (.dispose (cell 1))
  | .fdPread => none
  | .fdPwrite => none
  | .fdRead => none

/-- The variables of `ra_wasi.c` behind the call. -/
def nextState (s : RaState) (args : List ℕ) : Option RaState :=
  match h.call? args with
  | none => some s
  | some c => (wasiCall C key h.world h.wasmBytecodeHash c s).map Prod.snd

end HostCall

/-- A call from a module, through `wasm_runtime_invoke_native`.  The state `none` is that of an
application that has panicked. -/
def hostStep (C : Crypto) (key : Pta.AttestationKey) (cc : CallConv) :
    Option RaState → HostCall → Trace × Option RaState
  | none, _ => (⟨[], []⟩, none)
  | some s, h =>
    match wasmRuntimeInvokeNative cc h.mem h.native.type h.native.signature h.argv h.execEnv
      Frame.empty with
    | .error _ f => (⟨f.buffers, []⟩, some s)
    | .ok _ f =>
      let args := f.args cc h.native.type
      let t := h.trace C key s args
      (⟨f.buffers ++ t.validated, t.accessed⟩, h.nextState C key s args)

end Attester
end Watz
