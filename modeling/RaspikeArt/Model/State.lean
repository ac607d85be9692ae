import RaspikeArt.Threads.Prog
import RaspikeArt.Model.Wire

/-!
# The state of the library

The global variables of `raspike_protocol.c` and `raspike_com.c` (`Mem`), the mutexes and condition
variables, and the history labels.

What the outside does is a script in the memory, so that a run has no other source of choice than
the schedule: `rx` and `tx` say what the device answers to every `poll`, `read` and `write` on a
descriptor and when a deadline has passed, `discards` what `tcflush` finds, `callocFails` whether
memory is left.
-/

namespace RaspikeArt

/-! ## the outside: a serial device -/

/-- the `errno` of a failed call -/
abbrev Errno := { e : Nat // 0 < e }

def Errno.int (e : Errno) : Int := e.val

inductive PollItem where
  | fail (e : Errno)
  | timeout
  | hup
  deriving DecidableEq

/-- what the device does next on the reading side -/
inductive RxItem where
  /-- the deadline of the caller has passed when it next reads the clock -/
  | late
  | poll (p : PollItem)
  | fail (e : Errno)
  /-- bytes have arrived; none at all is the end of the stream -/
  | data (bs : List Byte)
  deriving DecidableEq

/-- what the device does next on the writing side -/
inductive TxItem where
  | late
  | poll (p : PollItem)
  | fail (e : Errno)
  /-- at most `n` bytes are accepted -/
  | accept (n : Nat)
  deriving DecidableEq

def rpComTypeUsb : Nat := 1
def rpSendBufferSize : Nat := 4096

/-- `RPComDescriptor`, with the device behind it -/
structure RPComDescriptor where
  type : Nat
  /-- the file descriptor, `-1` once closed -/
  desc : Int
  rx : List RxItem
  tx : List TxItem
  /-- the bytes the device has accepted -/
  wire : List Byte
  /-- for each `tcflush`: it fails, or drops that many items of `rx` -/
  discards : List (Except Errno Nat)

inductive UsbMode where
  | normal
  | buffered
  deriving DecidableEq, Repr

structure ComState where
  fgSendBuffer : List Byte
  fgSendMode : UsbMode
  desc : Nat → RPComDescriptor

/-! ## the saved status -/

/-- `sizeof(RPProtocolSpikeStatus)` -/
def spikeStatusSize : Nat := 136
/-- `sizeof(RPRuntimeTelemetry)` -/
def runtimeTelemetrySize : Nat := 68
/-- `sizeof(RPDriveTelemetry)` -/
def driveTelemetrySize : Nat := 34

/-- `RPProtocolSpikeStatus`, byte by byte: 40 bytes of hub fields, then six ports of 16 bytes -/
abbrev SpikeStatus := Fin 136 → Byte

def SpikeStatus.ofBytes (bs : List Byte) : SpikeStatus := fun i => bs.getD i 0

/-- offset of `ports[port]` -/
def portOffset (port : Nat) : Nat := 40 + 16 * port
/-- offset of `cmd` in a port entry -/
def cmdOffset : Nat := 1
/-- offset of `data` in a port entry -/
def dataOffset : Nat := 4

def SpikeStatus.byte (s : SpikeStatus) (i : Nat) : Byte := if h : i < 136 then s ⟨i, h⟩ else 0

/-- `ports[port].cmd` -/
def SpikeStatus.cmd (s : SpikeStatus) (port : Byte) : Byte :=
  s.byte (portOffset port.toNat + cmdOffset)

/-- `n` bytes of the record from offset `off` -/
def SpikeStatus.bytes (s : SpikeStatus) (off n : Nat) : List Byte :=
  (List.range n).map fun i => s.byte (off + i)

/-- `memcpy` of `bs` to offset `off` of the record -/
def SpikeStatus.write (s : SpikeStatus) (off : Nat) (bs : List Byte) : SpikeStatus :=
  fun i => if off ≤ i.val ∧ i.val < off + bs.length then bs.getD (i.val - off) 0 else s i

/-! ## ports -/

/-- `struct _pup_device_t` -/
structure PupDevice where
  portId : Byte
  deviceType : Byte
  cmd : Byte
  power : Int
  deriving DecidableEq, Repr

def PupDevice.zero : PupDevice := ⟨0, 0, 0, 0⟩

/-- `RPPortDevice`, without its locks -/
structure RPPortDevice where
  device : PupDevice
  pendingSequence : U32
  ackSequence : U32
  ackSession : U32
  ackCmd : Int
  ackData : Int
  pending : Bool
  deriving DecidableEq, Repr

def RPPortDevice.zero : RPPortDevice := ⟨.zero, 0, 0, 0, 0, 0, false⟩

inductive Mutex where
  /-- `request_mutex`, `device_mutex` and `mutex` of a port -/
  | request (i : Port)
  | device (i : Port)
  | port (i : Port)
  | fgSend
  | fgLifecycle
  | fgStatus
  | fgSequence
  | fgLinkStats
  | fgRuntimeTelemetry
  /-- `fg_send_mutex` of the com layer -/
  | comSend
  deriving DecidableEq, Repr

inductive CondVar where
  | port (i : Port)
  | fgStatus
  | fgLifecycle
  deriving DecidableEq, Repr

/-! ## the globals -/

inductive Stat where
  | txFrames | rxFrames | rxLegacyFrames | crcErrors | framingErrors | sessionErrors
  | requestTimeouts | requestRetries | staleAcks
  deriving DecidableEq, Repr

/-- `RPInternalLinkStats`: 64-bit counters -/
abbrev LinkStats := Stat → BitVec 64

structure Mem where
  com : ComState
  gPortDevices : Port → RPPortDevice
  fgDesc : Option Nat
  fgHandshakeComplete : Bool
  fgStopCommunication : Bool
  fgPortSynchronizationInitialized : Bool
  fgUseProtocolV2 : Bool
  fgSessionId : U32
  fgCapabilities : Byte
  fgActiveReceivers : Int
  fgNextSequence : U32
  fgVersionMajor : Byte
  fgVersionMinor : Byte
  fgVersionPatch : Byte
  fgLinkStats : LinkStats
  fgRuntimeTelemetry : List Byte
  /-- the pointer to the saved status -/
  fgStatus : Option Nat
  /-- the records allocated so far and not freed -/
  heap : Nat → Option SpikeStatus
  heapNext : Nat
  callocFails : Bool

def Mem.setPort (m : Mem) (i : Port) (f : RPPortDevice → RPPortDevice) : Mem :=
  { m with gPortDevices := Function.update m.gPortDevices i (f (m.gPortDevices i)) }

def Mem.setDesc (m : Mem) (d : Nat) (f : RPComDescriptor → RPComDescriptor) : Mem :=
  { m with com := { m.com with desc := Function.update m.com.desc d (f (m.com.desc d)) } }

/-! ## history -/

/-- how `raspike_request` came to its result -/
inductive Branch where
  | cancelled
  | acked
  | timedOut
  | failed
  deriving DecidableEq, Repr

inductive Io where
  | receive
  | send (buf : List Byte)
  | flush
  deriving DecidableEq, Repr

/-- the API functions, as calls a thread can make -/
inductive Call where
  | init (desc : Option Nat)
  | shutdown
  | receive
  | send (port cmd : Byte) (buf : Buf) (size : Int)
  | sendPriority (port cmd : Byte) (buf : Buf) (size : Int)
  | request (port cmd : Byte) (data : Buf) (size : Int)
  | getDevice (deviceType port : Byte)
  | waitPortCmdChange (port cmd : Byte)
  | portComChangeIfNeeded (port cmd : Byte)
  | readStatusSnapshot
  | sensor (pdev : Option Port) (index size : Nat)
  | delayedSensor (pdev : Option Port) (cmd : Byte) (size : Nat)
  | motorResetCount (motor : Option Port)
  deriving DecidableEq

/-- the functions of `raspike_com.h` that send, as calls a thread can make -/
inductive ComCall where
  | send (desc : Option Nat) (buf : List Byte)
  | flush (desc : Option Nat)
  | usbBufferFlush (d : Nat)
  | usbSetMode (mode : UsbMode)
  deriving DecidableEq

inductive Ret where
  | int (r : Int)
  | handle (p : Option Port)
  | bytes (bs : List Byte)
  deriving DecidableEq

/-- Labels of the history.  They record what an access did; no program reads them. -/
inductive Event where
  | call (c : Call)
  | returned (c : Call) (r : Ret)
  | comCall (c : ComCall)
  | comReturned (c : ComCall) (r : Int)
  /-- `next_sequence` -/
  | drawn (s : U32)
  /-- a request marks its port pending -/
  | pend (i : Port) (cmd : Byte) (s : U32)
  /-- a request leaves its loop uncompleted: it has looked at `pending` for the last time, or its
  send has failed -/
  | gaveUp (i : Port) (s : U32) (result : Int)
  /-- the final section of a request -/
  | finish (i : Port) (cmd : Byte) (s : U32) (completed : Bool) (b : Branch) (r : Int)
  /-- `process_command` accepts an ACK -/
  | ack (i : Port) (sequence session : U32) (ackCmd ackData : Int)
  /-- `reset_port_state` cancels a pending request -/
  | cancel (i : Port) (error : Int)
  /-- `reset_port_state` clears an idle port -/
  | clear (i : Port)
  | devReset (i : Port)
  | session (s : U32)
  | useV2 (b : Bool)
  | capabilities (c : Byte)
  | runtimeTelemetry
  /-- a frame is encoded under a session and handed to `raspike_com_send` -/
  | frame (port cmd : Byte) (sequence session : U32)
  /-- a complete frame has been consumed: a v2 frame with matching checksum, or a legacy one -/
  | v2Frame (bytes : List Byte)
  | legacyFrame (bytes : List Byte)
  /-- `process_command` is entered -/
  | command (port cmd flags : Byte) (sequence session : U32) (payload : List Byte)
  /-- `process_hello_payload` has switched the session and cancelled every port -/
  | helloDone (s : U32)
  | receiverIn
  | receiverOut
  | io (d : Nat) (k : Io)
  /-- the device accepts bytes -/
  | wrote (d : Nat) (bs : List Byte)
  /-- bytes for `d` are added to the send buffer; the send buffer is emptied, to `d` -/
  | queued (d : Nat) (bs : List Byte)
  | emptied (d : Nat)
  | close (d : Nat)
  | stop
  /-- `raspike_prot_shutdown` takes `fgDesc` away -/
  | takeDesc (d : Option Nat)
  /-- `send_frame` is entered; it holds `fgSendMutex`; it returns -/
  | sendBegin
  | sendLocked
  | sendEnd (r : Int)
  /-- the pointer to the saved status is read, or tested, outside `fgStatusMutex` -/
  | statusFetch (p : Option Nat)
  /-- the saved status is read or written through a pointer -/
  | statusUse (p : Option Nat)
  | statusFree (p : Option Nat)
  /-- a waiter for a status is awake again, with this code, and holds `fgStatusMutex` -/
  | statusWoken (r : Int)
  /-- `pup_*_get_device` goes on to configure the port; and is done with it -/
  | configure (i : Port)
  | configured (i : Port)
  deriving DecidableEq

/-- programs of the library -/
abbrev P := Threads.Prog Mutex CondVar Event Mem

end RaspikeArt
