import RaspikeArt.Model.Receive
import RaspikeArt.Threads.Checked

/-!
# The receiver with its buffers

The functions of `Model/Receive` once more, each with the arrays it indexes.  Every index is checked;
an index outside its array ends the receive with the array and the index.
-/

namespace RaspikeArt
open Threads

/-- the arrays of the receive path -/
inductive Region where
  /-- `start`, `header`, `frame`, `payload`, `scratch`: local arrays -/
  | start
  | header
  | frame
  | payload
  | scratch
  /-- the payload that `process_command` is handed, `size` bytes of it -/
  | received
  /-- an array of `RPDriveTelemetry` with an element for each motor slot -/
  | motorSlots
  /-- `fgStatus->ports`, and `data` of one of them -/
  | statusPorts
  | statusData
  /-- `gPortDevices` -/
  | portDevices
  deriving DecidableEq

structure OutOfBounds where
  region : Region
  index : Nat
  deriving DecidableEq

abbrev Checked := ExceptT OutOfBounds P

/-- what the local arrays hold when the receive begins -/
structure Locals where
  frame : Vector Byte (rpV2HeaderSize + rpV2CrcSize + rpV2MaxPayload)
  payload : Vector Byte rpProtocolBufmax
  scratch : Vector Byte 64
  header : Vector Byte 3

namespace Checked

/-! ## steps that are no checks -/

abbrev load {α : Type} (f : Mem → α) : Checked α := liftM (Threads.load f : P α)
abbrev lock (l : Mutex) : Checked Unit := liftM (Threads.lock l : P Unit)
abbrev unlock (l : Mutex) : Checked Unit := liftM (Threads.unlock l : P Unit)
abbrev broadcast (c : CondVar) : Checked Unit := liftM (Threads.broadcast c : P Unit)
abbrev tick (e : Event) : Checked Unit := liftM (Threads.tick e : P Unit)

/-! ## indices -/

def index (r : Region) (size i : Nat) : Except OutOfBounds Unit :=
  if i < size then .ok () else .error ⟨r, i⟩

/-- `xs[i]` -/
def byte (r : Region) (xs : List Byte) (i : Nat) : Except OutOfBounds Byte :=
  if h : i < xs.length then .ok xs[i] else .error ⟨r, i⟩

/-- `xs[i]` to `xs[i + n - 1]` -/
def bytes (r : Region) (xs : List Byte) (i n : Nat) : Except OutOfBounds (List Byte) :=
  if i + n ≤ xs.length then .ok ((xs.drop i).take n) else .error ⟨r, i + n - 1⟩

/-- `bs` is stored from `xs[i]` on -/
def put (r : Region) (xs : List Byte) (i : Nat) (bs : List Byte) : Except OutOfBounds (List Byte) :=
  if i + bs.length ≤ xs.length then .ok (xs.take i ++ bs ++ xs.drop (i + bs.length))
  else .error ⟨r, i + bs.length - 1⟩

/-- `raspike_com_receive_timeout` into `xs`, from `xs[i]` on -/
def receive (r : Region) (xs : List Byte) (i size : Nat) : Checked (Except Int (List Byte)) := do
  let desc ← load fun m => m.fgDesc
  let _ ← bytes r xs i size
  match ← raspikeComReceiveTimeout desc size with
  | .error e => return .error e
  | .ok bs => return .ok (← put r xs i bs)

/-- `&gPortDevices[i]` -/
def portDevice (i : Nat) : Except OutOfBounds Port :=
  if h : i < 7 then .ok ⟨i, h⟩ else .error ⟨.portDevices, i⟩

def getDevice (port : Byte) : Except OutOfBounds (Option Port) := do
  if port = rpPortNone then return some (← portDevice 6)
  if port.toNat ≥ rpDevicePortCount then return none
  return some (← portDevice port.toNat)

def resetPortState (error : Int) (clearDevices : Bool) : Checked Unit :=
  forEachChecked (List.range 7) fun i => do
    let i ← portDevice i
    resetPort error clearDevices i

/-- a write to the saved status through `fgStatus` -/
def writeStatus (f : SpikeStatus → Except OutOfBounds SpikeStatus) : Checked Unit := do
  let status ← load fun m => m.fgStatus
  ExceptT.mk (.act (fun _ => some (.statusUse status)) (fun m => match status with
    | none => (.ok (), m)
    | some p => match m.heap p with
      | none => (.ok (), m)
      | some s => match f s with
        | .error e => (.error e, m)
        | .ok s => (.ok (), { m with heap := Function.update m.heap p (some s) })) .ret)

def processHelloPayload (buf : List Byte) : Checked Unit := do
  if buf.length ≠ rpV2HelloPayloadSize then return ()
  if (← byte .received buf 0) ≠ rpV2Version then return ()
  let session := rpV2GetU32 (← bytes .received buf 4 4)
  let old ← load fun m => m.fgSessionId
  if session = 0 ∨ session = old then return ()
  setSession session
  setCapabilities (← byte .received buf 1)
  resetPortState (-ESTALE) false
  tick (.helloDone session)
  clearSavedStatus
  clearRuntimeTelemetry

/-! ## drive telemetry -/

/-- element `slot` of an array of `RPDriveTelemetry` -/
def motorSlot (telemetry : List Byte) (base width slot : Nat) : Except OutOfBounds (List Byte) := do
  index .motorSlots 2 slot
  bytes .received telemetry (base + width * slot) width

/-- `status->data + i` is written, for the port entry at `base` -/
def putData (s : SpikeStatus) (base i : Nat) (bs : List Byte) : Except OutOfBounds SpikeStatus :=
  if i + bs.length ≤ 12 then .ok (s.write (base + dataOffset + i) bs)
  else .error ⟨.statusData, i + bs.length - 1⟩

def driveMotor (telemetry : List Byte) (slot : Nat) (s : SpikeStatus) : Except OutOfBounds SpikeStatus := do
  if (← byte .received telemetry 33) &&& (1 <<< slot) = 0 then return s
  let motorPort := (← motorSlot telemetry 30 1 slot).getD 0 0
  if motorPort.toNat ≥ rpDevicePortCount then return s
  index .statusPorts 6 motorPort.toNat
  let base := portOffset motorPort.toNat
  let s := s.write base [motorPort]
  let s ← putData s base 0 (← motorSlot telemetry 8 4 slot)
  let s ← putData s base 4 (← motorSlot telemetry 16 4 slot)
  putData s base 8 (← motorSlot telemetry 24 2 slot)

def driveColor (telemetry : List Byte) (s : SpikeStatus) : Except OutOfBounds SpikeStatus := do
  if (← byte .received telemetry 33) &&& 4 = 0 then return s
  let colorPort ← byte .received telemetry 32
  if colorPort.toNat ≥ rpDevicePortCount then return s
  index .statusPorts 6 colorPort.toNat
  let base := portOffset colorPort.toNat
  let reflection := rpV2GetU16 (← bytes .received telemetry 28 2)
  putData (s.write base [colorPort]) base 0 (rpV2PutU32 (reflection.signExtend 32))

def driveMerge (telemetry : List Byte) (s : SpikeStatus) : Except OutOfBounds SpikeStatus := do
  let s ← driveMotor telemetry 0 s
  let s ← driveMotor telemetry 1 s
  driveColor telemetry s

/-! ## one decoded frame -/

def updateStatus (f : SpikeStatus → Except OutOfBounds SpikeStatus) : Checked Int := do
  lock .fgStatus
  writeStatus f
  broadcast .fgStatus
  unlock .fgStatus
  return 0

def processCommand (port cmd flags : Byte) (sequence session : U32) (buf : List Byte) : Checked Int := do
  tick (.command port cmd flags sequence session buf)
  if cmd = rpCmdIdLinkHello then
    processHelloPayload buf
    return 0
  if !raspikeIsValidPort port then
    statsIncrement .framingErrors
    return -EINVAL
  let stale ← (do
    let v2 ← load fun m => m.fgUseProtocolV2
    if v2 then load fun m => session != m.fgSessionId else pure false)
  if stale then
    statsIncrement .sessionErrors
    return -ESTALE
  if cmd = rpCmdIdAllStatus then
    if buf.length ≠ spikeStatusSize then return -EMSGSIZE
    updateStatus fun _ => return SpikeStatus.ofBytes (← bytes .received buf 0 spikeStatusSize)
  else if cmd = rpCmdIdRuntimeTelemetry then
    if buf.length ≠ runtimeTelemetrySize then return -EMSGSIZE
    lock .fgRuntimeTelemetry
    setRuntimeTelemetry (← bytes .received buf 0 runtimeTelemetrySize)
    unlock .fgRuntimeTelemetry
    return 0
  else if cmd = rpCmdIdDriveTelemetry then
    if buf.length ≠ driveTelemetrySize then return -EMSGSIZE
    let telemetry ← bytes .received buf 0 driveTelemetrySize
    updateStatus (driveMerge telemetry)
  else if cmd = rpCmdIdAck then
    if buf.length ≠ 8 then return -EMSGSIZE
    match ← getDevice port with
    | none => return -EINVAL
    | some i =>
      let ackCmd ← bytes .received buf 0 4
      let ackData ← bytes .received buf 4 4
      processAck i sequence session (ackCmd ++ ackData)
  else if cmd = rpCmdIdLinkStats then return 0
  else return -ENOMSG

/-! ## reading a frame -/

def receiveLegacyFrame (locals : Locals) : Checked Int := do
  match ← receive .header locals.header.toList 0 3 with
  | .error e => return e
  | .ok header =>
    let cmd ← byte .header header 0
    let size := (← byte .header header 1).toNat
    let port ← byte .header header 2
    if size > rpProtocolBufmax ∨ !raspikeIsValidPort port then
      statsIncrement .framingErrors
      return -EPROTO
    let received ← (if size > 0 then receive .payload locals.payload.toList 0 size
      else pure (.ok locals.payload.toList))
    match received with
    | .error e => return e
    | .ok payload =>
      let buf ← bytes .payload payload 0 size
      tick (.legacyFrame (rpCmdStart :: header ++ buf))
      statsIncrement .rxLegacyFrames
      let session ← load fun m => m.fgSessionId
      processCommand port cmd 0 0 session buf

def discardReceiveBytes (scratch : List Byte) (size : Nat) : Checked Int :=
  loopChecked size fun size => do
    if size = 0 then return .inr 0
    match ← receive .scratch scratch 0 (min size 64) with
    | .error e => return .inr e
    | .ok _ => return .inl (size - min size 64)

/-- `receive_v2_frame` once payload and checksum are in -/
def receiveV2Checked (frame : List Byte) (size : Nat) : Checked Int := do
  let crcOffset := 14 + size
  let receivedCrc := rpV2GetU16 (← bytes .frame frame crcOffset 2)
  let calculatedCrc := rpV2Crc16 (← bytes .frame frame 1 (rpV2HeaderSize - 1 + size))
  if receivedCrc ≠ calculatedCrc then
    statsIncrement .crcErrors
    return -EBADMSG
  tick (.v2Frame (← bytes .frame frame 0 (rpV2HeaderSize + size + rpV2CrcSize)))
  let flags ← byte .frame frame 2
  let cmd ← byte .frame frame 3
  let port ← byte .frame frame 4
  let sequence := rpV2GetU32 (← bytes .frame frame 6 4)
  let session := rpV2GetU32 (← bytes .frame frame 10 4)
  processCommand port cmd flags sequence session (← bytes .frame frame 14 size)

def receiveV2Frame (locals : Locals) : Checked Int := do
  let frame ← put .frame locals.frame.toList 0 [rpV2Start]
  match ← receive .frame frame 1 (rpV2HeaderSize - 1) with
  | .error e => return e
  | .ok frame =>
    let size := (← byte .frame frame 5).toNat
    if (← byte .frame frame 1) ≠ rpV2Version then
      let _ ← discardReceiveBytes locals.scratch.toList (size + rpV2CrcSize)
      statsIncrement .framingErrors
      return -EPROTONOSUPPORT
    if size > rpV2MaxPayload then
      let _ ← discardReceiveBytes locals.scratch.toList (size + rpV2CrcSize)
      statsIncrement .framingErrors
      return -EMSGSIZE
    match ← receive .frame frame 14 (size + rpV2CrcSize) with
    | .error e => return e
    | .ok frame => receiveV2Checked frame size

def receiveStarted (locals : Locals) (start : Byte) : Checked Int := do
  if start = rpV2Start then receiveV2Frame locals
  else if start = rpCmdStart then receiveLegacyFrame locals
  else
    statsIncrement .framingErrors
    return -EAGAIN

def receiveFrame (locals : Locals) : Checked Int := do
  match ← receive .start [0] 0 1 with
  | .error e => return if e = -ETIMEDOUT ∨ e = -EAGAIN then 0 else e
  | .ok start =>
    let result ← receiveStarted locals (← byte .start start 0)
    (if result = 0 ∨ result = -ENOMSG ∨ result = -ESTALE then statsIncrement .rxFrames
      else pure () : P Unit)
    return result

def raspikeProtReceive (locals : Locals) : Checked Int := do
  lock .fgLifecycle
  let down ← (orElse (Threads.load fun m => m.fgStopCommunication)
    (orElse (Threads.load fun m => m.fgDesc.isNone) (Threads.load fun m => !m.fgHandshakeComplete)) : P Bool)
  if down then
    unlock .fgLifecycle
    return -ENOTCONN
  ((.act (fun _ => some .receiverIn)
    (fun m => ((), { m with fgActiveReceivers := m.fgActiveReceivers + 1 })) .ret : P Unit))
  unlock .fgLifecycle
  let result ← receiveFrame locals
  receiveDone
  return result

end Checked

end RaspikeArt
