import RaspikeArt.Model.Receive

/-!
# Connecting and disconnecting: `raspike_protocol.c`, lines 235 to 447

`raspikeProtInit` takes a descriptor, sends the handshake (`performHandshake`), checks the version
and waits for the HELLO of the hub (`receiveLegacyHello`); `raspikeProtShutdown` undoes it.
-/

namespace RaspikeArt
open Threads

/-- `expected_spike_version`, which the build passes on the command line -/
def spikeExpectedVersion : Byte × Byte × Byte := (0, 8, 4)

def rpHandshakeAttempts : Nat := 5

/-- the clock of a scan, which runs on the current descriptor -/
def scanLate : Option Nat → P Bool
  | some d => clockLate d .rx
  | none => pure true

def scanForByte (target : Byte) : P Int :=
  loopFrom () fun _ => do
    let desc ← load fun m => m.fgDesc
    match ← raspikeComReceiveTimeout desc 1 with
    | .ok byte =>
      if byte.getD 0 0 = target then return .inr 0
      if ← scanLate desc then return .inr (-ETIMEDOUT)
      return .inl ()
    | .error e =>
      if e ≠ -ETIMEDOUT ∧ e ≠ -EAGAIN then return .inr e
      if ← scanLate desc then return .inr (-ETIMEDOUT)
      return .inl ()

def performHandshakeOnce : P Int := do
  let desc ← load fun m => m.fgDesc
  let sent ← raspikeComSend desc [rpCmdInit, rpCmdInitMagic]
  if sent < 0 then return sent
  let desc ← load fun m => m.fgDesc
  let flushResult ← raspikeComFlush desc
  if flushResult < 0 then return flushResult
  let found ← scanForByte rpCmdInit
  if found < 0 then return found
  let desc ← load fun m => m.fgDesc
  let magic ← match ← raspikeComReceiveTimeout desc 1 with
    | .error e => return e
    | .ok magic => pure magic
  if magic.getD 0 0 ≠ rpCmdInitMagic then return -EPROTO
  let desc ← load fun m => m.fgDesc
  let version ← match ← raspikeComReceiveTimeout desc 3 with
    | .error e => return e
    | .ok version => pure version
  modify fun m => { m with fgVersionMajor := version.getD 0 0 }
  modify fun m => { m with fgVersionMinor := version.getD 1 0 }
  modify fun m => { m with fgVersionPatch := version.getD 2 0 }
  return 0

/-- the attempts that are left -/
def handshakeAttempts : Nat → Int → P Int
  | 0, lastError => pure lastError
  | n + 1, _ => do
    let desc ← load fun m => m.fgDesc
    -- an error of the discard is overwritten by the result of the attempt
    let _ ← raspikeComDiscardInput desc
    let result ← performHandshakeOnce
    if result = 0 then return 0
    handshakeAttempts n result

def performHandshake : P Int := handshakeAttempts rpHandshakeAttempts (-ETIMEDOUT)

def setUseV2 (b : Bool) : P Unit :=
  .act (fun _ => some (.useV2 b)) (fun m => ((), { m with fgUseProtocolV2 := b })) .ret

def receiveLegacyHello : P Int := do
  let found ← scanForByte rpCmdStart
  if found < 0 then return found
  let desc ← load fun m => m.fgDesc
  let header ← match ← raspikeComReceiveTimeout desc 3 with
    | .error e => return e
    | .ok header => pure header
  let cmd := header.getD 0 0
  let size := header.getD 1 0
  let port := header.getD 2 0
  if cmd ≠ rpCmdIdLinkHello ∨ port ≠ rpPortNone ∨ size.toNat ≠ rpV2HelloPayloadSize then
    return -EPROTO
  let desc ← load fun m => m.fgDesc
  let payload ← match ← raspikeComReceiveTimeout desc rpV2HelloPayloadSize with
    | .error e => return e
    | .ok payload => pure payload
  if payload.getD 0 0 ≠ rpV2Version then return -EPROTONOSUPPORT
  setCapabilities (payload.getD 1 0)
  let maxPayload := rpV2GetU16 (payload.drop 2)
  setSession (rpV2GetU32 (payload.drop 4))
  let refused ← orElse (load fun m => m.fgCapabilities &&& rpV2CapFraming == 0)
    (orElse (load fun m => m.fgSessionId == 0) (pure (maxPayload.toNat < spikeStatusSize)))
  if refused then return -EPROTONOSUPPORT
  setUseV2 true
  return 0

/-- `fgStatus = calloc(1, sizeof(*fgStatus))` -/
def callocStatus : P (Option Nat) :=
  .act (fun _ => none) (fun m =>
    if m.callocFails then (none, { m with fgStatus := none })
    else (some m.heapNext, { m with
      fgStatus := some m.heapNext, heapNext := m.heapNext + 1,
      heap := Function.update m.heap m.heapNext (some zeroStatus) })) .ret

/-- `free(fgStatus)` -/
def freeStatus : P Unit :=
  .act (fun m => some (.statusFree m.fgStatus)) (fun m => ((), match m.fgStatus with
    | none => m
    | some p => { m with heap := Function.update m.heap p none })) .ret

def clearDesc : P Unit := do
  lock .fgLifecycle
  modify fun m => { m with fgDesc := none }
  unlock .fgLifecycle

/-- the way out of a failed `raspike_prot_init` -/
def initFailed (error : Int) : P Int := do
  freeStatus
  modify fun m => { m with fgStatus := none }
  clearDesc
  return error

def versionMatches (m : Mem) : Bool :=
  (m.fgVersionMajor, m.fgVersionMinor, m.fgVersionPatch) == spikeExpectedVersion

/-- `raspike_prot_init` from its handshake on -/
def initNegotiate : P Int := do
  let ret ← performHandshake
  if ret < 0 then initFailed ret else
  let supported ← load versionMatches
  if !supported then initFailed (-EPROTONOSUPPORT) else
  let ret ← receiveLegacyHello
  if ret < 0 then initFailed ret else
  modify fun m => { m with fgHandshakeComplete := true }
  raspikeUsbSetMode .normal
  return 0

def initPorts : P Unit := do
  let synchronized ← load fun m => m.fgPortSynchronizationInitialized
  if synchronized then resetPortState (-ENOTCONN) true
  else
    forEach allPorts initPortDevice
    modify fun m => { m with fgPortSynchronizationInitialized := true }

def raspikeProtInit (desc : Option Nat) : P Int := do
  if desc.isNone then return -EINVAL
  lock .fgLifecycle
  let busy ← load fun m => m.fgDesc.isSome
  if busy then
    unlock .fgLifecycle
    return -EBUSY
  modify fun m => { m with fgDesc := desc }
  modify fun m => { m with fgStopCommunication := false }
  modify fun m => { m with fgHandshakeComplete := false }
  setUseV2 false
  setSession 0
  setCapabilities 0
  modify fun m => { m with fgActiveReceivers := 0 }
  unlock .fgLifecycle
  modify fun m => { m with fgNextSequence := 1 }
  modify fun m => { m with fgLinkStats := fun _ => 0 }
  setRuntimeTelemetry zeroTelemetry
  let status ← callocStatus
  if status.isNone then
    clearDesc
    return -ENOMEM
  initPorts
  initNegotiate

/-- `while (fgActiveReceivers > 0)` -/
def awaitReceivers : P Unit :=
  loopFrom () fun _ => do
    let active ← load fun m => m.fgActiveReceivers
    if active > 0 then
      let _ ← condWait .fgLifecycle .fgLifecycle
      return .inl ()
    return .inr ()

/-- the descriptor is taken away: no receiver is active and no frame is being sent -/
def shutdownTake : P (Option Nat) := do
  lock .fgLifecycle
  awaitReceivers
  lock .fgSend
  let desc ← load fun m => m.fgDesc
  .act (fun _ => some (.takeDesc desc)) (fun m => ((), { m with fgDesc := none })) .ret
  unlock .fgLifecycle
  return desc

/-- the flush and the close, both with their results dropped -/
def shutdownClose (desc : Option Nat) : P Unit :=
  match desc with
  | none => pure ()
  | some d => do
    let _ ← raspikeComFlush (some d)
    raspikeComClose d

/-- what is left of a connection is released -/
def shutdownRelease : P Unit := do
  lock .fgStatus
  freeStatus
  modify fun m => { m with fgStatus := none }
  unlock .fgStatus
  modify fun m => { m with fgHandshakeComplete := false }
  setUseV2 false
  setSession 0

def raspikeProtShutdown : P Int := do
  .act (fun _ => some .stop) (fun m => ((), { m with fgStopCommunication := true })) .ret
  let desc ← shutdownTake
  resetPortState (-ENOTCONN) true
  shutdownClose desc
  unlock .fgSend
  shutdownRelease
  return 0

/-! ## the state of the link -/

structure RasPikeLinkStats where
  sessionId : U32
  protocolVersion : Byte
  capabilities : Byte
  counters : LinkStats

/-- `telemetry` says whether the caller gives a record to fill; the result with the record -/
def raspikeRuntimeGetTelemetry (telemetry : Bool) : P (Int × List Byte) := do
  if !telemetry then return (EINVAL, [])
  lock .fgRuntimeTelemetry
  let bytes ← load fun m => m.fgRuntimeTelemetry
  unlock .fgRuntimeTelemetry
  return (if rpV2GetU32 bytes = 0 then EAGAIN else 0, bytes)

/-- `stats` says whether the caller gives a record to fill -/
def raspikeLinkGetStats (stats : Bool) : P (Except Int RasPikeLinkStats) := do
  if !stats then return .error EINVAL
  lock .fgLinkStats
  let session ← load fun m => m.fgSessionId
  let v2 ← load fun m => m.fgUseProtocolV2
  let capabilities ← load fun m => m.fgCapabilities
  let counters ← load fun m => m.fgLinkStats
  unlock .fgLinkStats
  return .ok ⟨session, if v2 then rpV2Version else 1, capabilities, counters⟩

end RaspikeArt
