import RaspikeArt.Model.Lifecycle

/-!
# Devices: `raspike_internal.h`, `raspike_hub.c`, `raspike_motor.c` and the waits of lines 817 to 848

A device handle is a pointer into `gPortDevices`, so a `Port`; `none` is NULL.  The getters read the
saved status through a pointer they fetch first.
-/

namespace RaspikeArt
open Threads

/-- `GET_DEVICE_COMMON`; `port` is the letter of the port -/
def getDeviceCommon (fgDeviceType port : Byte) : P (Option Port) := do
  let rPort := port - 65
  if !raspikeIsValidPort rPort || rPort == rpPortNone then return none
  let some i := getDevice rPort | return none
  lock (.device i)
  let current ← load fun m => (m.gPortDevices i).device.deviceType
  if current = fgDeviceType then
    unlock (.device i)
    return some i
  if current ≠ 0 then
    unlock (.device i)
    return none
  tick (.configure i)
  let configResult ← raspikeRequest rPort (makeCmd fgDeviceType 0) none 0
  if configResult ≠ 1 then
    tick (.configured i)
    unlock (.device i)
    return none
  modify fun m => m.setPort i fun d => { d with device := { d.device with deviceType := fgDeviceType } }
  modify fun m => m.setPort i fun d => { d with device := { d.device with portId := rPort } }
  tick (.configured i)
  unlock (.device i)
  return some i

/-! ## the saved status -/

/-- `raspike_prot_get_saved_status`, and every other look at `fgStatus` outside its mutex -/
def raspikeProtGetSavedStatus : P (Option Nat) :=
  .act (fun m => some (.statusFetch m.fgStatus)) (fun m => (m.fgStatus, m)) .ret

/-- a read of the record through a pointer; what a dead pointer shows is not specified -/
def readStatus {α : Type} (p : Option Nat) (f : SpikeStatus → α) : P α :=
  .act (fun _ => some (.statusUse p)) (fun m => (f ((p.bind m.heap).getD zeroStatus), m)) .ret

def readStatusSnapshot : P (Option SpikeStatus) := do
  let status ← raspikeProtGetSavedStatus
  if status.isNone then return none
  lock .fgStatus
  let snapshot ← readStatus status id
  unlock .fgStatus
  return some snapshot

def raspikeWaitPortCmdChange (port waitCmd : Byte) : P Int := do
  if port.toNat ≥ rpDevicePortCount then return -EINVAL
  let status ← raspikeProtGetSavedStatus
  if status.isNone then return -EINVAL
  lock .fgStatus
  loopFrom () fun _ => do
    let status ← load fun m => m.fgStatus
    let cmd ← readStatus status fun s => s.cmd port
    if cmd = waitCmd then
      unlock .fgStatus
      return .inr 0
    let ret ← condWait .fgStatus .fgStatus
    tick (.statusWoken ret)
    if ret = ETIMEDOUT then
      unlock .fgStatus
      return .inr (-ETIMEDOUT)
    if ret ≠ 0 ∧ ret ≠ EINTR then
      unlock .fgStatus
      return .inr (-ret)
    return .inl ()

def raspikePortComChangeIfNeeded (port waitCmd : Byte) : P Int := do
  if port.toNat ≥ rpDevicePortCount then return -EINVAL
  let status ← raspikeProtGetSavedStatus
  if status.isNone then return -EINVAL
  lock .fgStatus
  let status ← load fun m => m.fgStatus
  let cmd ← readStatus status fun s => s.cmd port
  unlock .fgStatus
  if cmd = waitCmd then return 0
  let sent ← raspikeProtSendPriority port waitCmd none 0
  if sent < 0 then return sent
  raspikeWaitPortCmdChange port waitCmd

/-! ## getters -/

def portIdOf (i : Port) : P Byte := load fun m => (m.gPortDevices i).device.portId

/-- `GET_AND_RET_SENSOR_COMMON`: `size` bytes from `data + index` -/
def getAndRetSensorCommon (pdev : Option Port) (index size : Nat) : P (List Byte) := do
  let zeroValue := List.replicate size 0
  let some i := pdev | return zeroValue
  let portId ← portIdOf i
  if !raspikeIsValidPort portId then return zeroValue
  let p ← raspikeProtGetSavedStatus
  if p.isNone then return zeroValue
  let portId ← portIdOf i
  lock .fgStatus
  let value ← readStatus p fun s => s.bytes (portOffset portId.toNat + dataOffset + index) size
  unlock .fgStatus
  return value

/-- `DELAYED_SENSOR_COMMON` -/
def delayedSensorCommon (pdev : Option Port) (cmd : Byte) (size : Nat) : P (List Byte) := do
  let zeroValue := List.replicate size 0
  let some i := pdev | return zeroValue
  let portId ← portIdOf i
  if !raspikeIsValidPort portId then return zeroValue
  let port ← portIdOf i
  let changed ← raspikePortComChangeIfNeeded port cmd
  if changed ≠ 0 then return zeroValue
  let p ← raspikeProtGetSavedStatus
  if p.isNone then return zeroValue
  lock .fgStatus
  let value ← readStatus p fun s => s.bytes (portOffset port.toNat + dataOffset) size
  unlock .fgStatus
  return value

/-! ## motors -/

/-- the request and the write-back of `pup_motor_reset_count`; the result is that of the request -/
def pupMotorResetCount (motor : Option Port) : P Int := do
  let some i := motor | return -EINVAL
  let portId ← portIdOf i
  let result ← raspikeRequest portId rpCmdIdMotRst none 0
  if result = 1 then
    let status ← raspikeProtGetSavedStatus
    if status.isSome then
      lock .fgStatus
      let portId ← portIdOf i
      .act (fun _ => some (.statusUse status)) (fun m => ((), match status with
        | none => m
        | some p => { m with heap := Function.update m.heap p ((m.heap p).map fun s =>
            s.write (portOffset portId.toNat + dataOffset) [0, 0, 0, 0]) })) .ret
      unlock .fgStatus
  return result

end RaspikeArt
