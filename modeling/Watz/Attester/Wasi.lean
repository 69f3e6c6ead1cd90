import Watz.Lib.History
import Watz.Attester.Basic

/-!
# The interface of the attester to Wasm modules

The six functions of `ra_wasi.c` that a Wasm module can call, and the runs of modules one after
the other (`TA_RunWasm`).  There is one context and one quote for all modules; the handles a
module gets are constants.
-/

namespace Watz.Attester

open Lib

/-- `WASI_RA_Result`. -/
inductive WasiRaResult where
  | success
  | genericError
  | sandboxViolation
  | concurrentError
  | invalidRaContextHandle
  | invalidQuoteHandle
deriving DecidableEq

/-- The file-scope variables of `ra_wasi.c`. -/
structure RaState where
  isRaContextAvailable : Bool
  isRaQuoteAvailable : Bool
  raContextSingleton : State
  raQuoteSingleton : Quote
  attestationSession : SessionHandle

/-- The variables when the application is loaded. -/
def RaState.init : RaState where
  isRaContextAvailable := true
  isRaQuoteAvailable := true
  raContextSingleton := State.zero
  raQuoteSingleton := Quote.zero
  attestationSession := .null

/-- What a call meets outside the application: the TEE, the attestation service and the heap
behind a received `msg3`. -/
structure World where
  env : Env Fn
  ptaEnv : Env Pta.Fn
  heap : List UInt8

/-- A call of a module.  The addresses of outputs count only by whether they lie in the memory of
the module. -/
inductive Call where
  | collectQuote (anchor : Bytes 32) (anchorSize : ℕ) (quoteHandleOutOk : Bool)
  | disposeQuote (quoteHandle : UInt32)
  | handshake (ecdsaServicePublicKeyX ecdsaServicePublicKeyY : List UInt8)
      (anchorBufferSize : ℕ) (raContextHandleOutOk : Bool)
  | sendQuote (raContextHandle quoteHandle : UInt32)
  | receiveData (raContextHandle : UInt32) (dataSize : ℕ) (dataSizeInoutOk dataOutOk : Bool)
  | dispose (raContextHandle : UInt32)

/-- What a call returns: its result, and the anchor or the data it writes to the module. -/
structure Reply where
  result : WasiRaResult
  anchor : Option (Bytes 32)
  data : Option (List UInt8)
deriving DecidableEq

/-- A reply without output. -/
def Reply.of (result : WasiRaResult) : Reply := ⟨result, none, none⟩

section

variable (C : Crypto) (key : Pta.AttestationKey) (w : World)

/-- `wasi_ra_collect_quote`, for the module with the given hash.  The result `none` stands for a
panic, which ends the application. -/
def wasiRaCollectQuote (wasmBytecodeHash anchor : Bytes 32) (anchorSize : ℕ)
    (quoteHandleOutOk : Bool) (s : RaState) : Option (Reply × RaState) :=
  if quoteHandleOutOk = false then some (.of .sandboxViolation, s)
  else if s.isRaQuoteAvailable = false then some (.of .concurrentError, s)
  else
    match raQuoteCollect C w.env w.ptaEnv key wasmBytecodeHash anchor anchorSize
      ⟨s.attestationSession, s.raQuoteSingleton⟩ with
    | .ok _ q => some (.of .success, { s with
        isRaQuoteAvailable := false
        attestationSession := q.attestationSession
        raQuoteSingleton := q.quote })
    | .error (.error _) q => some (.of .genericError, { s with
        isRaQuoteAvailable := false
        attestationSession := q.attestationSession
        raQuoteSingleton := q.quote })
    | .error .panic _ => none

/-- `wasi_ra_net_dispose_quote`. -/
def wasiRaNetDisposeQuote (quoteHandle : UInt32) (s : RaState) : Option (Reply × RaState) :=
  if s.isRaQuoteAvailable = true then some (.of .invalidQuoteHandle, s)
  else if quoteHandle ≠ 0 then some (.of .invalidQuoteHandle, s)
  else
    match raQuoteDispose ⟨s.attestationSession, s.raQuoteSingleton⟩ with
    | .ok _ q => some (.of .success, { s with
        isRaQuoteAvailable := true
        attestationSession := q.attestationSession
        raQuoteSingleton := q.quote })
    | .error (.error _) q => some (.of .genericError, { s with
        attestationSession := q.attestationSession
        raQuoteSingleton := q.quote })
    | .error .panic _ => none

/-- `wasi_ra_net_handshake`. -/
def wasiRaNetHandshake (x y : List UInt8) (anchorBufferSize : ℕ) (raContextHandleOutOk : Bool)
    (s : RaState) : Option (Reply × RaState) :=
  if raContextHandleOutOk = false then some (.of .sandboxViolation, s)
  else if s.isRaContextAvailable = false then some (.of .concurrentError, s)
  else
    match raNetHandshake C w.env x y anchorBufferSize s.raContextSingleton with
    | .ok anchor ctx => some (⟨.success, some anchor, none⟩, { s with
        isRaContextAvailable := false
        raContextSingleton := ctx })
    | .error (.error _) ctx => some (.of .genericError, { s with raContextSingleton := ctx })
    | .error .panic _ => none

/-- `wasi_ra_net_send_quote`.  Whether there is a quote is not asked. -/
def wasiRaNetSendQuote (raContextHandle quoteHandle : UInt32) (s : RaState) :
    Option (Reply × RaState) :=
  if s.isRaContextAvailable = true then some (.of .invalidRaContextHandle, s)
  else if raContextHandle ≠ 0 then some (.of .invalidRaContextHandle, s)
  else if quoteHandle ≠ 0 then some (.of .invalidQuoteHandle, s)
  else
    match raNetSendQuote C w.env s.raQuoteSingleton s.raContextSingleton with
    | .ok _ ctx => some (.of .success, { s with raContextSingleton := ctx })
    | .error (.error _) ctx => some (.of .genericError, { s with raContextSingleton := ctx })
    | .error .panic _ => none

/-- `wasi_ra_net_receive_data`. -/
def wasiRaNetReceiveData (raContextHandle : UInt32) (dataSize : ℕ)
    (dataSizeInoutOk dataOutOk : Bool) (s : RaState) : Option (Reply × RaState) :=
  if dataSizeInoutOk = false then some (.of .sandboxViolation, s)
  else if dataOutOk = false then some (.of .sandboxViolation, s)
  else if s.isRaContextAvailable = true then some (.of .invalidRaContextHandle, s)
  else if raContextHandle ≠ 0 then some (.of .invalidRaContextHandle, s)
  else
    match raNetReceiveData C w.env dataSize w.heap s.raContextSingleton with
    | .ok data ctx => some (⟨.success, none, some data⟩, { s with raContextSingleton := ctx })
    | .error (.error _) ctx => some (.of .genericError, { s with raContextSingleton := ctx })
    | .error .panic _ => none

/-- `wasi_ra_net_dispose`. -/
def wasiRaNetDispose (raContextHandle : UInt32) (s : RaState) : Option (Reply × RaState) :=
  if s.isRaContextAvailable = true then some (.of .invalidRaContextHandle, s)
  else if raContextHandle ≠ 0 then some (.of .invalidRaContextHandle, s)
  else
    match raNetDispose s.raContextSingleton with
    | .ok _ ctx => some (.of .success, { s with
        isRaContextAvailable := true
        raContextSingleton := ctx })
    | .error (.error _) ctx => some (.of .genericError, { s with raContextSingleton := ctx })
    | .error .panic _ => none

/-- A call of a module, dispatched by the table of native symbols. -/
def wasiCall (wasmBytecodeHash : Bytes 32) : Call → RaState → Option (Reply × RaState)
  | .collectQuote anchor anchorSize ok =>
    wasiRaCollectQuote C key w wasmBytecodeHash anchor anchorSize ok
  | .disposeQuote h => wasiRaNetDisposeQuote h
  | .handshake x y anchorBufferSize ok => wasiRaNetHandshake C w x y anchorBufferSize ok
  | .sendQuote h q => wasiRaNetSendQuote C w h q
  | .receiveData h dataSize ok ok' => wasiRaNetReceiveData C w h dataSize ok ok'
  | .dispose h => wasiRaNetDispose h

end

end Watz.Attester
