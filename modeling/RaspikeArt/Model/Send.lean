import RaspikeArt.Model.Com

/-!
# Sending and requests: `raspike_protocol.c`, lines 80 to 233 and 464 to 562

* `statsIncrement`, `resetPortState`, `nextSequence`;
* `sendLegacyFrame`, `sendV2Frame`, `sendFrame` and the two public senders;
* `raspikeRequest`, cut at its loop: `requestWait` is one condition wait, `requestAttempts` the
  loop over the attempts, `requestFinish` the final section.
-/

namespace RaspikeArt
open Threads

def Mem.bump (m : Mem) (s : Stat) : Mem :=
  { m with fgLinkStats := Function.update m.fgLinkStats s (m.fgLinkStats s + 1) }

def statsIncrement (s : Stat) : P Unit := do
  lock .fgLinkStats
  modify fun m => m.bump s
  unlock .fgLinkStats

def allPorts : List Port := List.finRange 7

/-- `initPortDevice` leaves the locks of the port initialised, which they are from the start here -/
def initPortDevice (i : Port) : P Unit :=
  modify fun m => m.setPort i fun _ => .zero

/-- the two branches of `reset_port_state`, under the mutex of the port -/
def cancelPort (error : Int) (i : Port) : P Unit := do
  let session ← load fun m => m.fgSessionId
  .act (fun _ => some (.cancel i error)) (fun m => ((), m.setPort i fun d =>
    { d with ackData := error, ackCmd := -1, ackSequence := d.pendingSequence,
             ackSession := session, pending := false })) .ret
  broadcast (.port i)

def clearPort (i : Port) : P Unit :=
  .act (fun _ => some (.clear i)) (fun m => ((), m.setPort i fun d =>
    { d with pendingSequence := 0, ackSequence := 0, ackSession := 0, ackCmd := 0,
             ackData := 0 })) .ret

def resetSlot (error : Int) (i : Port) : P Unit := do
  lock (.port i)
  let canceled ← load fun m => (m.gPortDevices i).pending
  (if canceled then cancelPort error i else clearPort i)
  unlock (.port i)

def resetDevice (i : Port) : P Unit := do
  lock (.device i)
  .act (fun _ => some (.devReset i)) (fun m => ((), m.setPort i fun d =>
    { d with device := .zero })) .ret
  unlock (.device i)

/-- one turn of the loop of `reset_port_state` -/
def resetPort (error : Int) (clearDevices : Bool) (i : Port) : P Unit := do
  resetSlot error i
  if clearDevices then resetDevice i

def resetPortState (error : Int) (clearDevices : Bool) : P Unit :=
  forEach allPorts (resetPort error clearDevices)

def nextSequence : P U32 := do
  lock .fgSequence
  let sequence ← .act (fun m => some (.drawn m.fgNextSequence))
    (fun m => (m.fgNextSequence, { m with fgNextSequence := m.fgNextSequence + 1 })) .ret
  let next ← load fun m => m.fgNextSequence
  (if next = 0 then modify fun m => { m with fgNextSequence := 1 } else pure ())
  unlock .fgSequence
  return sequence

/-! ## frames -/

/-- `memcpy` of `size` bytes of a payload -/
def Buf.take (payload : Buf) (size : Int) : List Byte := (payload.getD []).take size.toNat

def sendLegacyFrame (port cmd : Byte) (payload : Buf) (size : Int) : P Int := do
  if !raspikeIsValidPort port || size < 0 || size > 255 || (size > 0 && payload.isNone) then
    return -EINVAL
  let desc ← load fun m => m.fgDesc
  raspikeComSend desc (legacyFrame port cmd (payload.take size))

def sendV2Frame (port cmd : Byte) (payload : Buf) (size : Int) (sequence : U32) (flags : Byte) :
    P Int := do
  if !raspikeIsValidPort port || size < 0 || size > rpV2MaxPayload
      || (size > 0 && payload.isNone) then
    return -EINVAL
  let session ← .act (fun m => some (.frame port cmd sequence m.fgSessionId))
    (fun m => (m.fgSessionId, m)) .ret
  let desc ← load fun m => m.fgDesc
  raspikeComSend desc (v2Frame port cmd flags sequence session (payload.take size))

/-- the choice of the protocol, and the flush -/
def sendFrameLocked (port cmd : Byte) (payload : Buf) (size : Int) (sequence : U32) (flags : Byte)
    (flushNow : Bool) : P Int := do
  let v2 ← load fun m => m.fgUseProtocolV2
  let ret ← (if v2 then sendV2Frame port cmd payload size sequence flags
    else sendLegacyFrame port cmd payload size)
  if ret ≥ 0 && flushNow then
    let desc ← load fun m => m.fgDesc
    let flushResult ← raspikeComFlush desc
    return if flushResult < 0 then flushResult else ret
  else return ret

def sendFrame (port cmd : Byte) (payload : Buf) (size : Int) (sequence : U32) (flags : Byte)
    (flushNow : Bool) : P Int := do
  tick .sendBegin
  lock .fgSend
  tick .sendLocked
  let down ← orElse (load fun m => m.fgDesc.isNone) (load fun m => m.fgStopCommunication)
  if down then
    unlock .fgSend
    tick (.sendEnd (-ENOTCONN))
    return -ENOTCONN
  let ret ← sendFrameLocked port cmd payload size sequence flags flushNow
  unlock .fgSend
  (if ret ≥ 0 then statsIncrement .txFrames else pure ())
  tick (.sendEnd ret)
  return ret

def raspikeProtSend (port cmdid : Byte) (buf : Buf) (size : Int) : P Int := do
  let sequence ← nextSequence
  sendFrame port cmdid buf size sequence 0 false

def raspikeProtSendPriority (port cmdid : Byte) (buf : Buf) (size : Int) : P Int := do
  let sequence ← nextSequence
  sendFrame port cmdid buf size sequence rpV2FlagHighPriority true

/-! ## requests -/

/-- `while (dev->pending)`: the loop variable is the result code -/
def requestSleep (i : Port) (result : Int) : P Int :=
  loopFrom result fun result => do
    let pending ← load fun m => (m.gPortDevices i).pending
    if !pending then return .inr result
    let waitResult ← condWait (.port i) (.port i)
    if waitResult = ETIMEDOUT then return .inr result
    if waitResult ≠ 0 ∧ waitResult ≠ EINTR then return .inr (-waitResult)
    return .inl result

/-- the wait of one attempt: the result code so far, and whether the call is completed -/
def requestWait (i : Port) (sequence : U32) (last : Bool) (result : Int) : P (Int × Bool) := do
  lock (.port i)
  let result ← requestSleep i result
  let pending ← load fun m => (m.gPortDevices i).pending
  if !pending then
    unlock (.port i)
    return (result, true)
  (if last then tick (.gaveUp i sequence result) else pure ())
  unlock (.port i)
  return (result, false)

/-- the attempts that are left -/
def requestAttempts (i : Port) (port cmd : Byte) (data : Buf) (size : Int) (sequence : U32) :
    Nat → Int → P (Int × Bool)
  | 0, result => pure (result, false)
  | n + 1, result => do
    lock (.port i)
    let stillPending ← load fun m => (m.gPortDevices i).pending
    unlock (.port i)
    if !stillPending then return (result, true)
    let sent ← sendFrame port cmd data size sequence rpV2FlagHighPriority true
    if sent < 0 then
      tick (.gaveUp i sequence sent)
      return (sent, false)
    let waited ← requestWait i sequence (n = 0) result
    if waited.2 then return waited
    (if n ≠ 0 then statsIncrement .requestRetries else pure ())
    requestAttempts i port cmd data size sequence n waited.1

/-- `!v2 || (ack_sequence == sequence && ack_session == fgSessionId)` -/
def ackIsCurrent (d : RPPortDevice) (sequence : U32) : P Bool :=
  orElse (load fun m => !m.fgUseProtocolV2)
    (if d.ackSequence = sequence then load fun m => d.ackSession == m.fgSessionId else pure false)

/-- which branch of the final section gives the result; `d` is what the mutex of the port protects -/
def requestOutcome (cmd : Byte) (sequence : U32) (result : Int) (completed : Bool)
    (d : RPPortDevice) : P (Branch × Int) := do
  if completed && d.ackCmd == -1 then return (.cancelled, d.ackData)
  let acked ← (if completed && d.ackCmd == cmd.toNat then ackIsCurrent d sequence else pure false)
  if acked then return (.acked, d.ackData)
  if result = -ETIMEDOUT then
    statsIncrement .requestTimeouts
    return (.timedOut, result)
  return (.failed, result)

/-- the final section -/
def requestFinish (i : Port) (cmd : Byte) (sequence : U32) (result : Int) (completed : Bool) :
    P Int := do
  lock (.port i)
  let d ← load fun m => m.gPortDevices i
  let outcome ← requestOutcome cmd sequence result completed d
  .act (fun _ => some (.finish i cmd sequence completed outcome.1 outcome.2))
    (fun m => ((), m.setPort i fun d => { d with pending := false })) .ret
  unlock (.port i)
  unlock (.request i)
  return outcome.2

/-- the slot is taken: the sequence number is drawn and the port marked pending -/
def requestBegin (i : Port) (cmd : Byte) : P U32 := do
  let sequence ← nextSequence
  lock (.port i)
  .act (fun _ => some (.pend i cmd sequence)) (fun m => ((), m.setPort i fun d =>
    { d with pending := true, pendingSequence := sequence, ackSequence := 0, ackSession := 0,
             ackCmd := 0, ackData := 0 })) .ret
  unlock (.port i)
  return sequence

def raspikeRequest (port cmd : Byte) (data : Buf) (size : Int) : P Int := do
  if !raspikeIsValidPort port then return -EINVAL
  match getDevice port with
  | none => return -EINVAL
  | some i =>
    lock (.request i)
    let sequence ← requestBegin i cmd
    let v2 ← load fun m => m.fgUseProtocolV2
    let waited ← requestAttempts i port cmd data size sequence (if v2 then 2 else 1) (-ETIMEDOUT)
    requestFinish i cmd sequence waited.1 waited.2

end RaspikeArt
