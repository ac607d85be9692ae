import RaspikeArt.Model.Devices

/-!
# Motors: `raspike_motor.c`, lines 12 to 125

The getters, and the commands that drive a motor.  `cmd` and `power` of the device remember what was
set last, for `pup_motor_get_power`.
-/

namespace RaspikeArt
open Threads

/-- `pbio_error_t` -/
inductive PbioError where
  | success
  | failed
  | invalidArg
  | io
  | busy
  | noDev
  | notImplemented
  | notSupported
  | again
  | invalidOp
  | timedout
  | canceled
  deriving DecidableEq, Repr

def ENODEV : Int := 19

def rpCmdIdMotSpd : Byte := makeCmd rpCmdTypeMotor 0x3
def rpCmdIdMotPow : Byte := makeCmd rpCmdTypeMotor 0x4
def rpCmdIdMotStp : Byte := makeCmd rpCmdTypeMotor 0x5
def rpCmdIdMotStpBrk : Byte := makeCmd rpCmdTypeMotor 0x6
def rpCmdIdMotStpHld : Byte := makeCmd rpCmdTypeMotor 0x7

def rpMotorIndexCount : Nat := 0
def rpMotorIndexSpeed : Nat := 4
def rpMotorIndexPower : Nat := 8

/-- an `int16_t` copied out of a buffer by `memcpy` (little-endian host) -/
def getInt16 (p : List Byte) : Int := (rpV2GetU16 p).toInt

/-- `PBIO_SUCCESS` is 0 -/
def requestResultToPbio (result : Int) : PbioError :=
  if result = 1 ∨ result = 0 then .success
  else if result = -ETIMEDOUT then .timedout
  else if result = -EINVAL then .invalidArg
  else if result = -ENODEV ∨ result = -ENOTCONN then .noDev
  else .io

/-! ## getters -/

def pupMotorGetCount (motor : Option Port) : P Int := do
  return getInt32 (← getAndRetSensorCommon motor rpMotorIndexCount 4)

def pupMotorGetSpeed (motor : Option Port) : P Int := do
  return getInt32 (← getAndRetSensorCommon motor rpMotorIndexSpeed 4)

def pupMotorGetPower (motor : Option Port) : P Int := do
  let some i := motor | return 0
  let cmd ← load fun m => (m.gPortDevices i).device.cmd
  if cmd = rpCmdIdMotPow then load fun m => (m.gPortDevices i).device.power
  else return getInt16 (← getAndRetSensorCommon motor rpMotorIndexPower 2)

/-! ## commands -/

/-- the bytes of an `int` (little-endian host) -/
def intBytes (n : Int) : List Byte := rpV2PutU32 (.ofInt 32 n)

/-- what `pup_motor_set_speed` and `pup_motor_set_power` end in -/
def sendSetting (i : Port) (cmd : Byte) (value : Int) : P PbioError := do
  let portId ← portIdOf i
  let sent ← raspikeProtSend portId cmd (some (intBytes value)) 4
  return if sent < 0 then .io else .success

def pupMotorSetSpeed (motor : Option Port) (speed : Int) : P PbioError := do
  let some i := motor | return .invalidArg
  modify fun m => m.setPort i fun d => { d with device := { d.device with cmd := rpCmdIdMotSpd } }
  sendSetting i rpCmdIdMotSpd speed

def clampPower (power : Int) : Int :=
  let power := if power < -100 then -100 else power
  if power > 100 then 100 else power

def pupMotorSetPower (motor : Option Port) (power : Int) : P PbioError := do
  let some i := motor | return .invalidArg
  let power := clampPower power
  modify fun m => m.setPort i fun d => { d with device := { d.device with cmd := rpCmdIdMotPow } }
  modify fun m => m.setPort i fun d => { d with device := { d.device with power := power } }
  sendSetting i rpCmdIdMotPow power

/-- `pup_motor_stop`, `pup_motor_brake` and `pup_motor_hold` differ in their command -/
def motorRequest (cmd : Byte) (motor : Option Port) : P PbioError := do
  let some i := motor | return .invalidArg
  let portId ← portIdOf i
  let result ← raspikeRequest portId cmd none 0
  return requestResultToPbio result

def pupMotorStop : Option Port → P PbioError := motorRequest rpCmdIdMotStp
def pupMotorBrake : Option Port → P PbioError := motorRequest rpCmdIdMotStpBrk
def pupMotorHold : Option Port → P PbioError := motorRequest rpCmdIdMotStpHld

/-! ## a thread that drives a motor -/

inductive MotorOp where
  | setPower (power : Int)
  | setSpeed (speed : Int)
  | stop
  | brake
  | hold
  deriving DecidableEq, Repr

def MotorOp.run (motor : Option Port) : MotorOp → P PbioError
  | setPower power => pupMotorSetPower motor power
  | setSpeed speed => pupMotorSetSpeed motor speed
  | stop => pupMotorStop motor
  | brake => pupMotorBrake motor
  | hold => pupMotorHold motor

/-- an operation that has been called, and its result -/
structure Done where
  op : MotorOp
  result : PbioError
  deriving DecidableEq, Repr

/-- the calls of a list, one after the other; what has been called is kept newest first -/
def motorCalls (motor : Option Port) : List MotorOp → List Done → P (List Done)
  | [], done => pure done
  | op :: ops, done => do
    let result ← op.run motor
    motorCalls motor ops (⟨op, result⟩ :: done)

/-- and then it asks for the power -/
def motorSession (motor : Option Port) (ops : List MotorOp) : P (List Done × Int) := do
  let done ← motorCalls motor ops []
  let power ← pupMotorGetPower motor
  return (done, power)

end RaspikeArt
