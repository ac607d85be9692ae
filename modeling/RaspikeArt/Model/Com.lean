import RaspikeArt.Model.State

/-!
# The com layer: `raspike_com.c`

One definition for each function of the file, in its order.  A deadline (`timeout_ms`) is not a
number here: the script of the descriptor says when the clock has passed it.

* `clockLate`, `poll`, `readFd`, `writeFd`, `tcflush`  the system calls;
* `waitFd` .. `rpUsbFlush`                             the static functions;
* `raspikeOpenUsbCommunication` .. `raspikeComFlush`   the interface of `raspike_com.h`.
-/

namespace RaspikeArt
open Threads

/-! ## system calls -/

inductive Dir where
  | rx
  | tx

/-- the clock is read: is the deadline over? -/
def clockLate (d : Nat) : Dir → P Bool
  | .rx => .act (fun _ => none) (fun m => match (m.com.desc d).rx with
      | .late :: r => (true, m.setDesc d fun s => { s with rx := r })
      | _ => (false, m)) .ret
  | .tx => .act (fun _ => none) (fun m => match (m.com.desc d).tx with
      | .late :: r => (true, m.setDesc d fun s => { s with tx := r })
      | _ => (false, m)) .ret

/-- `poll` on one descriptor: `none` when it is ready -/
def poll (d : Nat) : Dir → P (Option PollItem)
  | .rx => .act (fun _ => none) (fun m => match (m.com.desc d).rx with
      | .poll p :: r => (some p, m.setDesc d fun s => { s with rx := r })
      | [] => (some .timeout, m)
      | _ => (none, m)) .ret
  | .tx => .act (fun _ => none) (fun m => match (m.com.desc d).tx with
      | .poll p :: r => (some p, m.setDesc d fun s => { s with tx := r })
      | _ => (none, m)) .ret

def eagain : Errno := ⟨11, by decide⟩

/-- `read`: an error, or at most `n` bytes -/
def readFd (d n : Nat) : P (Except Errno (List Byte)) :=
  .act (fun _ => none) (fun m => match (m.com.desc d).rx with
    | .fail e :: r => (.error e, m.setDesc d fun s => { s with rx := r })
    | .data bs :: r => (.ok (bs.take n), m.setDesc d fun s =>
        { s with rx := if bs.length ≤ n then r else .data (bs.drop n) :: r })
    | _ => (.error eagain, m)) .ret

/-- `write`: an error, or the number of bytes the device accepts -/
def writeFd (d : Nat) (buf : List Byte) : P (Except Errno Nat) :=
  .act (fun m => match (m.com.desc d).tx with
    | .fail _ :: _ => none
    | .accept n :: _ => some (.wrote d (buf.take n))
    | _ => some (.wrote d buf))
  (fun m => match (m.com.desc d).tx with
    | .fail e :: r => (.error e, m.setDesc d fun s => { s with tx := r })
    | .accept n :: r => (.ok (min n buf.length), m.setDesc d fun s =>
        { s with tx := r, wire := s.wire ++ buf.take n })
    | _ => (.ok buf.length, m.setDesc d fun s => { s with wire := s.wire ++ buf })) .ret

/-- `tcflush(fd, TCIFLUSH)` -/
def tcflush (d : Nat) : P (Option Errno) :=
  .act (fun _ => none) (fun m => match (m.com.desc d).discards with
    | .error e :: r => (some e, m.setDesc d fun s => { s with discards := r })
    | .ok n :: r => (none, m.setDesc d fun s => { s with discards := r, rx := s.rx.drop n })
    | [] => (none, m)) .ret

/-! ## the static functions -/

def getUsbFd (d : Nat) : P Int :=
  load fun m => if (m.com.desc d).type ≠ rpComTypeUsb then -1 else (m.com.desc d).desc

def waitFd (d : Nat) (events : Dir) : P Int :=
  loopFrom () fun _ => do
    match ← poll d events with
    | some (.fail e) => pure (if e.int = EINTR then .inl () else .inr (-e.int))
    | some .timeout => pure (.inr (-ETIMEDOUT))
    | some .hup => pure (.inr (- EIO))
    | none => pure (.inr 0)

/-- the loop variable is what is still to be written -/
def writeAllFd (d : Nat) (buf : List Byte) : P Int :=
  loopFrom buf fun rest => do
    if rest = [] then return .inr buf.length
    if ← clockLate d .tx then return .inr (-ETIMEDOUT)
    let ready ← waitFd d .tx
    if ready < 0 then return .inr ready
    match ← writeFd d rest with
    | .ok 0 => return .inr (- EIO)
    | .ok n => return .inl (rest.drop n)
    | .error e =>
      if e.int = EINTR ∨ e.int = EAGAIN then return .inl rest else return .inr (-e.int)

/-- the result is the error code or the bytes read -/
def readSomeFd (d n : Nat) : P (Except Int (List Byte)) := do
  if n = 0 then return .error (-EINVAL)
  let ready ← waitFd d .rx
  if ready < 0 then return .error ready
  loopFrom () fun _ => do
    match ← readFd d n with
    | .ok [] => return .inr (.error (-EPIPE))
    | .ok bs => return .inr (.ok bs)
    | .error e =>
      if e.int = EINTR then return .inl ()
      else if e.int = EAGAIN then return .inr (.error (-EAGAIN))
      else return .inr (.error (-e.int))

/-- `d` is the descriptor of the send, for the history -/
def bufferedWrite (d : Nat) (buf : List Byte) : P Int := do
  if buf.length > rpSendBufferSize then return -EINVAL
  lock .comSend
  let size ← load fun m => m.com.fgSendBuffer.length
  if size + buf.length > rpSendBufferSize then
    unlock .comSend
    return -ENOBUFS
  .act (fun _ => some (.queued d buf)) (fun m => ((),
    { m with com := { m.com with fgSendBuffer := m.com.fgSendBuffer ++ buf } })) .ret
  unlock .comSend
  return buf.length

def flushBufferLocked (d : Nat) : P Int := do
  let buf ← load fun m => m.com.fgSendBuffer
  if buf = [] then return 0
  let fd ← getUsbFd d
  if fd < 0 then return -EINVAL
  let ret ← writeAllFd d buf
  if ret < 0 then return ret
  .act (fun _ => some (.emptied d)) (fun m => ((),
    { m with com := { m.com with fgSendBuffer := [] } })) .ret
  return ret

def raspikeUsbBufferFlush (d : Nat) : P Unit := do
  tick (.io d .flush)
  lock .comSend
  let _ ← flushBufferLocked d
  unlock .comSend

def raspikeUsbSetMode (mode : UsbMode) : P Unit := do
  lock .comSend
  modify fun m => { m with com := { m.com with fgSendMode := mode } }
  unlock .comSend

def rpUsbSend (d : Nat) (buf : List Byte) : P Int := do
  lock .comSend
  let mode ← load fun m => m.com.fgSendMode
  unlock .comSend
  if mode = .buffered then bufferedWrite d buf
  else
    let fd ← getUsbFd d
    if fd < 0 then return -EINVAL
    writeAllFd d buf

def rpUsbReceive (d n : Nat) : P (Except Int (List Byte)) := do
  let fd ← getUsbFd d
  if fd < 0 then return .error (-EINVAL)
  readSomeFd d n

def rpUsbClose (d : Nat) : P Unit := do
  let fd ← getUsbFd d
  if fd < 0 then return ()
  modify fun m => m.setDesc d fun s => { s with desc := -1 }

def rpUsbFlush (d : Nat) : P Int := do
  lock .comSend
  let ret ← flushBufferLocked d
  unlock .comSend
  return if ret < 0 then ret else 0

/-! ## the interface -/

/-- `d` is the new descriptor, `fd` the file that `open` and the terminal settings give, if they do -/
def raspikeOpenUsbCommunication (d : Nat) (fd : Option Nat) : P (Option Nat) := do
  let some fd := fd | return none
  modify fun m => m.setDesc d fun s => { s with type := rpComTypeUsb, desc := fd }
  return some d

def raspikeComDiscardInput (desc : Option Nat) : P Int := do
  let some d := desc | return -EINVAL
  let fd ← getUsbFd d
  if fd < 0 then return -EINVAL
  match ← tcflush d with
  | some e => return -e.int
  | none => return 0

def raspikeComSend (desc : Option Nat) (buf : List Byte) : P Int := do
  let some d := desc | return -EINVAL
  tick (.io d (.send buf))
  rpUsbSend d buf

/-- the loop variable is what has been received; a partial read is kept until the deadline -/
def raspikeComReceiveTimeout (desc : Option Nat) (size : Nat) : P (Except Int (List Byte)) := do
  let some d := desc | return .error (-EINVAL)
  if size = 0 then return .ok []
  tick (.io d .receive)
  loopFrom [] fun received => do
    if received.length ≥ size then return .inr (.ok received)
    if ← clockLate d .rx then return .inr (.error (-ETIMEDOUT))
    match ← rpUsbReceive d (size - received.length) with
    | .ok bs => return .inl (received ++ bs)
    | .error e =>
      if e = -EAGAIN ∨ e = -EINTR then return .inl received else return .inr (.error e)

/-- closes and frees the descriptor -/
def raspikeComClose (d : Nat) : P Unit := do
  tick (.close d)
  rpUsbClose d

def raspikeComFlush (desc : Option Nat) : P Int := do
  let some d := desc | return -EINVAL
  tick (.io d .flush)
  rpUsbFlush d

end RaspikeArt
