import RaspikeArt.Model.Send

/-!
# The receiver: `raspike_protocol.c`, lines 565 to 815

`processHelloPayload` and `processCommand` act on one decoded frame, `receiveLegacyFrame` and
`receiveV2Frame` read one, `raspikeProtReceive` is the call a receiver thread makes.
-/

namespace RaspikeArt
open Threads

def zeroStatus : SpikeStatus := fun _ => 0
def zeroTelemetry : List Byte := List.replicate runtimeTelemetrySize 0

def setSession (s : U32) : P Unit :=
  .act (fun _ => some (.session s)) (fun m => ((), { m with fgSessionId := s })) .ret

def setCapabilities (c : Byte) : P Unit :=
  .act (fun _ => some (.capabilities c)) (fun m => ((), { m with fgCapabilities := c })) .ret

def setRuntimeTelemetry (t : List Byte) : P Unit :=
  .act (fun _ => some .runtimeTelemetry) (fun m => ((), { m with fgRuntimeTelemetry := t })) .ret

/-- a write to the saved status through `fgStatus`, which is read again for it -/
def writeStatus (f : SpikeStatus → SpikeStatus) : P Unit := do
  let status ← load fun m => m.fgStatus
  .act (fun _ => some (.statusUse status)) (fun m => ((), match status with
    | none => m
    | some p => { m with heap := Function.update m.heap p ((m.heap p).map f) })) .ret

/-- `memset(fgStatus, 0, ..)` when there is a saved status -/
def clearSavedStatus : P Unit := do
  let present ← .act (fun m => some (.statusFetch m.fgStatus)) (fun m => (m.fgStatus.isSome, m)) .ret
  if present then
    lock .fgStatus
    writeStatus fun _ => zeroStatus
    broadcast .fgStatus
    unlock .fgStatus

def clearRuntimeTelemetry : P Unit := do
  lock .fgRuntimeTelemetry
  setRuntimeTelemetry zeroTelemetry
  unlock .fgRuntimeTelemetry

def processHelloPayload (buf : List Byte) : P Unit := do
  if buf.length ≠ rpV2HelloPayloadSize ∨ buf.getD 0 0 ≠ rpV2Version then return ()
  let session := rpV2GetU32 (buf.drop 4)
  let old ← load fun m => m.fgSessionId
  if session = 0 ∨ session = old then return ()
  setSession session
  setCapabilities (buf.getD 1 0)
  resetPortState (-ESTALE) false
  tick (.helloDone session)
  clearSavedStatus
  clearRuntimeTelemetry

/-! ## drive telemetry -/

/-- a motor slot of `RPDriveTelemetry`: valid bit, port, count, speed, power -/
def driveMotor (t : List Byte) (slot : Nat) (s : SpikeStatus) : SpikeStatus :=
  let port := t.getD (30 + slot) 0
  if (t.getD 33 0) &&& (1 <<< slot) = 0 ∨ port.toNat ≥ rpDevicePortCount then s
  else
    let base := portOffset port.toNat
    let data := base + dataOffset
    ((((s.write base [port]).write data ((t.drop (8 + 4 * slot)).take 4)).write (data + 4)
      ((t.drop (16 + 4 * slot)).take 4)).write (data + 8) ((t.drop (24 + 2 * slot)).take 2))

/-- the `int16_t` reflection, widened to an `int32_t` -/
def reflectionBytes (t : List Byte) : List Byte :=
  rpV2PutU32 ((rpV2GetU16 (t.drop 28)).signExtend 32)

def driveColor (t : List Byte) (s : SpikeStatus) : SpikeStatus :=
  let port := t.getD 32 0
  if (t.getD 33 0) &&& 4 = 0 ∨ port.toNat ≥ rpDevicePortCount then s
  else
    let base := portOffset port.toNat
    (s.write base [port]).write (base + dataOffset) (reflectionBytes t)

def driveMerge (t : List Byte) (s : SpikeStatus) : SpikeStatus :=
  driveColor t (driveMotor t 1 (driveMotor t 0 s))

/-! ## one decoded frame -/

/-- `matches` -/
def ackMatches (d : RPPortDevice) (sequence session : U32) (ackCmd : Int) : P Bool :=
  if d.pending && decide (ackCmd ≥ 0) then
    orElse (load fun m => !m.fgUseProtocolV2)
      (if sequence = d.pendingSequence then load fun m => session == m.fgSessionId else pure false)
  else pure false

def acceptAck (i : Port) (sequence session : U32) (ackCmd ackData : Int) : P Unit := do
  .act (fun _ => some (.ack i sequence session ackCmd ackData)) (fun m => ((), m.setPort i fun d =>
    { d with ackCmd := ackCmd, ackData := ackData, ackSequence := sequence,
             ackSession := session, pending := false })) .ret
  broadcast (.port i)

def processAck (i : Port) (sequence session : U32) (buf : List Byte) : P Int := do
  lock (.port i)
  let d ← load fun m => m.gPortDevices i
  let isCurrent ← ackMatches d sequence session (getInt32 buf)
  (if isCurrent then acceptAck i sequence session (getInt32 buf) (getInt32 (buf.drop 4))
    else statsIncrement .staleAcks)
  unlock (.port i)
  return if isCurrent then 0 else -ESTALE

/-- a new saved status, or part of one -/
def updateStatus (f : SpikeStatus → SpikeStatus) : P Int := do
  lock .fgStatus
  writeStatus f
  broadcast .fgStatus
  unlock .fgStatus
  return 0

def processCommand (port cmd flags : Byte) (sequence session : U32) (buf : List Byte) :
    P Int := do
  tick (.command port cmd flags sequence session buf)
  if cmd = rpCmdIdLinkHello then
    processHelloPayload buf
    return 0
  if !raspikeIsValidPort port then
    statsIncrement .framingErrors
    return -EINVAL
  let stale ← (do
    let v2 ← load fun m => m.fgUseProtocolV2
    if v2 then load fun m => session != m.fgSessionId else pure false)
  if stale then
    statsIncrement .sessionErrors
    return -ESTALE
  if cmd = rpCmdIdAllStatus then
    if buf.length ≠ spikeStatusSize then return -EMSGSIZE
    updateStatus fun _ => SpikeStatus.ofBytes buf
  else if cmd = rpCmdIdRuntimeTelemetry then
    if buf.length ≠ runtimeTelemetrySize then return -EMSGSIZE
    lock .fgRuntimeTelemetry
    setRuntimeTelemetry buf
    unlock .fgRuntimeTelemetry
    return 0
  else if cmd = rpCmdIdDriveTelemetry then
    if buf.length ≠ driveTelemetrySize then return -EMSGSIZE
    updateStatus (driveMerge buf)
  else if cmd = rpCmdIdAck then
    if buf.length ≠ 8 then return -EMSGSIZE
    match getDevice port with
    | none => return -EINVAL
    | some i => processAck i sequence session buf
  else if cmd = rpCmdIdLinkStats then return 0
  else return -ENOMSG

/-! ## reading a frame -/

/-- `receive_legacy_frame` once the header is in -/
def receiveLegacyBody (header : List Byte) : P Int := do
  let cmd := header.getD 0 0
  let size := (header.getD 1 0).toNat
  let port := header.getD 2 0
  if size > rpProtocolBufmax ∨ !raspikeIsValidPort port then
    statsIncrement .framingErrors
    return -EPROTO
  let received ← (if size > 0 then do
      let desc ← load fun m => m.fgDesc
      raspikeComReceiveTimeout desc size
    else pure (.ok []))
  match received with
  | .error e => return e
  | .ok payload =>
    tick (.legacyFrame (rpCmdStart :: header ++ payload))
    statsIncrement .rxLegacyFrames
    let session ← load fun m => m.fgSessionId
    processCommand port cmd 0 0 session payload

def receiveLegacyFrame : P Int := do
  let desc ← load fun m => m.fgDesc
  match ← raspikeComReceiveTimeout desc 3 with
  | .error e => return e
  | .ok header => receiveLegacyBody header

/-- the loop variable is what is still to be discarded -/
def discardReceiveBytes (size : Nat) : P Int :=
  loopFrom size fun size => do
    if size = 0 then return .inr 0
    let desc ← load fun m => m.fgDesc
    match ← raspikeComReceiveTimeout desc (min size 64) with
    | .error e => return .inr e
    | .ok bs => return .inl (size - bs.length)

/-- `receive_v2_frame` once payload and checksum are in -/
def receiveV2Checked (header rest : List Byte) : P Int := do
  let size := (header.getD 4 0).toNat
  let payload := rest.take size
  if rpV2GetU16 (rest.drop size) ≠ rpV2Crc16 (header ++ payload) then
    statsIncrement .crcErrors
    return -EBADMSG
  tick (.v2Frame (rpV2Start :: header ++ rest))
  processCommand (header.getD 3 0) (header.getD 2 0) (header.getD 1 0)
    (rpV2GetU32 (header.drop 5)) (rpV2GetU32 (header.drop 9)) payload

/-- `receive_v2_frame` once the header is in -/
def receiveV2Body (header : List Byte) : P Int := do
  let size := (header.getD 4 0).toNat
  if header.getD 0 0 ≠ rpV2Version then
    let _ ← discardReceiveBytes (size + rpV2CrcSize)
    statsIncrement .framingErrors
    return -EPROTONOSUPPORT
  if size > rpV2MaxPayload then
    let _ ← discardReceiveBytes (size + rpV2CrcSize)
    statsIncrement .framingErrors
    return -EMSGSIZE
  let desc ← load fun m => m.fgDesc
  match ← raspikeComReceiveTimeout desc (size + rpV2CrcSize) with
  | .error e => return e
  | .ok rest => receiveV2Checked header rest

def receiveV2Frame : P Int := do
  let desc ← load fun m => m.fgDesc
  match ← raspikeComReceiveTimeout desc (rpV2HeaderSize - 1) with
  | .error e => return e
  | .ok header => receiveV2Body header

/-- the dispatch on the start byte -/
def receiveStarted (start : Byte) : P Int := do
  if start = rpV2Start then receiveV2Frame
  else if start = rpCmdStart then receiveLegacyFrame
  else
    statsIncrement .framingErrors
    return -EAGAIN

/-- what the receiver does between its entry check and its `done` section -/
def receiveFrame : P Int := do
  let desc ← load fun m => m.fgDesc
  match ← raspikeComReceiveTimeout desc 1 with
  | .error e => return if e = -ETIMEDOUT ∨ e = -EAGAIN then 0 else e
  | .ok start =>
    let result ← receiveStarted (start.getD 0 0)
    (if result = 0 ∨ result = -ENOMSG ∨ result = -ESTALE then statsIncrement .rxFrames
      else pure ())
    return result

/-- the `done` section -/
def receiveDone : P Unit := do
  lock .fgLifecycle
  .act (fun _ => some .receiverOut)
    (fun m => ((), { m with fgActiveReceivers := m.fgActiveReceivers - 1 })) .ret
  let active ← load fun m => m.fgActiveReceivers
  (if active = 0 then broadcast .fgLifecycle else pure ())
  unlock .fgLifecycle

def raspikeProtReceive : P Int := do
  lock .fgLifecycle
  let down ← orElse (load fun m => m.fgStopCommunication)
    (orElse (load fun m => m.fgDesc.isNone) (load fun m => !m.fgHandshakeComplete))
  if down then
    unlock .fgLifecycle
    return -ENOTCONN
  .act (fun _ => some .receiverIn)
    (fun m => ((), { m with fgActiveReceivers := m.fgActiveReceivers + 1 })) .ret
  unlock .fgLifecycle
  let result ← receiveFrame
  receiveDone
  return result

end RaspikeArt
