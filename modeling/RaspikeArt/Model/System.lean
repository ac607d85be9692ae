import RaspikeArt.Model.Devices
import RaspikeArt.Threads.Run

/-!
# The system: threads that call the library

A thread is a list of API calls, made one after the other; a configuration is started from a
memory, with every mutex free.  What an adaptive client does in a finite run is one of these lists.
-/

namespace RaspikeArt
open Threads

def Call.body : Call → P Ret
  | .init desc => do return .int (← raspikeProtInit desc)
  | .shutdown => do return .int (← raspikeProtShutdown)
  | .receive => do return .int (← raspikeProtReceive)
  | .send port cmd buf size => do return .int (← raspikeProtSend port cmd buf size)
  | .sendPriority port cmd buf size => do return .int (← raspikeProtSendPriority port cmd buf size)
  | .request port cmd data size => do return .int (← raspikeRequest port cmd data size)
  | .getDevice deviceType port => do return .handle (← getDeviceCommon deviceType port)
  | .waitPortCmdChange port cmd => do return .int (← raspikeWaitPortCmdChange port cmd)
  | .portComChangeIfNeeded port cmd => do return .int (← raspikePortComChangeIfNeeded port cmd)
  | .readStatusSnapshot => do
    match ← RaspikeArt.readStatusSnapshot with
    | some s => return .bytes (List.ofFn s)
    | none => return .bytes []
  | .sensor pdev index size => do return .bytes (← getAndRetSensorCommon pdev index size)
  | .delayedSensor pdev cmd size => do return .bytes (← delayedSensorCommon pdev cmd size)
  | .motorResetCount motor => do return .int (← pupMotorResetCount motor)

/-- every call but those that connect, disconnect and receive -/
def Call.isClient : Call → Bool
  | .init _ | .shutdown | .receive => false
  | _ => true

def runCall (c : Call) : P Unit := do
  tick (.call c)
  let r ← c.body
  tick (.returned c r)

/-- a thread that makes the calls of a list -/
def client (calls : List Call) : P Unit := forEach calls runCall

abbrev Sys (T : Type) := Config T Mutex CondVar Event Mem

abbrev Trace (T : Type) := List (T × Event)

variable {T : Type}

def start (m : Mem) (calls : T → List Call) : Sys T where
  mem := m
  own := fun _ => none
  trace := []
  thr := fun t => client (calls t)

/-- no thread makes a call to `raspike_prot_init` -/
def NoInit (calls : T → List Call) : Prop := ∀ t, ∀ c ∈ calls t, ∀ desc, c ≠ .init desc

/-! ## one thread, which also calls the com layer -/

def ComCall.body : ComCall → P Int
  | .send desc buf => raspikeComSend desc buf
  | .flush desc => raspikeComFlush desc
  | .usbBufferFlush d => do
    raspikeUsbBufferFlush d
    return 0
  | .usbSetMode mode => do
    raspikeUsbSetMode mode
    return 0

def runComCall (c : ComCall) : P Unit := do
  tick (.comCall c)
  let r ← c.body
  tick (.comReturned c r)

inductive Op where
  | api (c : Call)
  | com (c : ComCall)
  | openUsb (d : Nat) (fd : Option Nat)
  deriving DecidableEq

def Op.run : Op → P Unit
  | .api c => runCall c
  | .com c => runComCall c
  | .openUsb d fd => do
    let _ ← raspikeOpenUsbCommunication d fd

def solo (m : Mem) (ops : List Op) : Sys Unit where
  mem := m
  own := fun _ => none
  trace := []
  thr := fun _ => forEach ops Op.run

end RaspikeArt
