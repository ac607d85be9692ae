import RaspikeArt.Transport.Writing
import RaspikeArt.Transport.Handling

/-!
# A priority command

`raspike_prot_send_priority` in a session, after any calls that send, flush or change the mode.

* `Steady`             what no sender changes: the connection, the protocol, the descriptors;
* `Online d w`         a connected session on an open descriptor, and no mutex taken;
* `sending_online`     the senders keep it, whatever the device answers;
* `numberedSend_moves` one command on a device that takes everything;
* `priority_delivered` when it is the earlier bytes and then the frame that go out.
-/

namespace RaspikeArt
open Threads

structure Steady (m : Mem) (x : Option Event) (m' : Mem) : Prop where
  desc : m'.fgDesc = m.fgDesc
  stop : m'.fgStopCommunication = m.fgStopCommunication
  v2 : m'.fgUseProtocolV2 = m.fgUseProtocolV2
  usb : ∀ d, (m'.com.desc d).type = (m.com.desc d).type
  fd : ∀ d, (m'.com.desc d).desc = (m.com.desc d).desc

/-! ## the senders, whatever the device answers -/

/-- only the device of `d` moves on -/
theorem Steady.setDesc {m : Mem} {x : Option Event} {d : Nat} {f : RPComDescriptor → RPComDescriptor}
    (husb : (f (m.com.desc d)).type = (m.com.desc d).type)
    (hfd : (f (m.com.desc d)).desc = (m.com.desc d).desc) : Steady m x (m.setDesc d f) := by
  refine ⟨rfl, rfl, rfl, ?_, ?_⟩
  all_goals
    intro d'
    by_cases hd : d' = d
    · subst hd
      simpa [Mem.setDesc]
    · simp [Mem.setDesc, hd]

theorem Steady.refl (m : Mem) (x : Option Event) : Steady m x m :=
  ⟨rfl, rfl, rfl, fun _ => rfl, fun _ => rfl⟩

/-- every execution of the access is steady -/
def SteadyAcc (e : Mem → Option Event) (f : Mem → Mem) : Prop := ∀ m, Steady m (e m) (f m)

/-- a program without mutexes whose accesses are steady -/
def Calm {α : Type} (p : P α) : Prop := p.All SteadyAcc fun _ => False

section
variable {α β S : Type}

theorem Calm.bind {p : P α} {q : α → P β} (hp : Calm p) (hq : ∀ a, Calm (q a)) : Calm (p >>= q) :=
  Prog.All.bind hp hq

theorem Calm.pure (a : α) : Calm (Pure.pure a : P α) := trivial

theorem Calm.act {e : Mem → Option Event} {f : Mem → α × Mem} (h : ∀ m, Steady m (e m) (f m).2) :
    Calm (.act e f .ret : P α) := ⟨h, fun _ => trivial⟩

theorem Calm.load {f : Mem → α} : Calm (load f : P α) := Calm.act fun m => Steady.refl m _

theorem Calm.loopFrom {s : S} {body : S → P (S ⊕ β)} (h : ∀ s, Calm (body s)) :
    Calm (loopFrom s body) := ⟨h, fun _ => trivial⟩

theorem clockLate_calm (d : Nat) : Calm (clockLate d .tx) := by
  apply Calm.act
  intro m
  split <;> dsimp only
  · exact Steady.setDesc rfl rfl
  · exact Steady.refl m _

theorem waitFd_calm (d : Nat) : Calm (waitFd d .tx) := by
  apply Calm.loopFrom
  intro _
  apply Calm.bind
  · apply Calm.act
    intro m
    split <;> dsimp only
    · exact Steady.setDesc rfl rfl
    · exact Steady.refl m _
  · intro r
    split <;> exact Calm.pure _

theorem writeFd_calm (d : Nat) (buf : List Byte) : Calm (writeFd d buf) := by
  apply Calm.act
  intro m
  split <;> dsimp only
  · exact Steady.setDesc rfl rfl
  · exact Steady.setDesc rfl rfl
  · exact Steady.setDesc rfl rfl

theorem writeAllFd_calm (d : Nat) (buf : List Byte) : Calm (writeAllFd d buf) := by
  apply Calm.loopFrom
  intro rest
  split
  case isTrue => exact Calm.pure _
  apply (clockLate_calm d).bind
  intro late
  split
  case isTrue => exact Calm.pure _
  apply (waitFd_calm d).bind
  intro ready
  split
  case isTrue => exact Calm.pure _
  apply (writeFd_calm d rest).bind
  intro r
  split
  · exact Calm.pure _
  · exact Calm.pure _
  · split <;> exact Calm.pure _

theorem flushBufferLocked_calm (d : Nat) : Calm (flushBufferLocked d) := by
  apply Calm.load.bind
  intro buf
  split
  case isTrue => exact Calm.pure _
  apply Calm.load.bind
  intro fd
  split
  case isTrue => exact Calm.pure _
  apply (writeAllFd_calm d buf).bind
  intro ret
  split
  case isTrue => exact Calm.pure _
  apply Calm.bind _ fun _ => Calm.pure _
  exact Calm.act fun m => ⟨rfl, rfl, rfl, fun _ => rfl, fun _ => rfl⟩

/-! ## their mutexes -/

/-- from the mutex owners `O` to the owners `O'`, by steady accesses -/
abbrev Sends (O : Mutex → Option Unit) (p : P α) (O' : Mutex → Option Unit) : Prop :=
  Leaves Steady O p O'

variable {O : Mutex → Option Unit}

theorem Calm.sends {p : P α} (h : Calm p) : Sends O p O := Leaves.of_all (fun _ _ h => h) h

theorem sends_load {f : Mem → α} : Sends O (load f) O := Calm.load.sends

theorem sends_tick {e : Event} : Sends O (tick e) O := Leaves.act fun m => Steady.refl m _

theorem sends_orElse {f g : Mem → Bool} : Sends O (orElse (load f) (load g)) O := by
  apply sends_load.bind
  intro b
  cases b with
  | true => exact Leaves.pure true
  | false => exact sends_load

theorem statsIncrement_sends (hl : O .fgLinkStats = none) (s : Stat) : Sends O (statsIncrement s) O := by
  apply Leaves.lock.bind
  intro _
  apply Leaves.bind (Leaves.act fun m => ⟨rfl, rfl, rfl, fun _ => rfl, fun _ => rfl⟩)
  exact fun _ => Leaves.unlock hl

theorem nextSequence_sends (hl : O .fgSequence = none) : Sends O nextSequence O := by
  apply Leaves.lock.bind
  intro _
  apply Leaves.bind (Leaves.act fun m => ⟨rfl, rfl, rfl, fun _ => rfl, fun _ => rfl⟩)
  intro sequence
  apply sends_load.bind
  intro next
  apply Leaves.bind
  · split
    · exact Leaves.act fun m => ⟨rfl, rfl, rfl, fun _ => rfl, fun _ => rfl⟩
    · exact Leaves.pure _
  intro _
  exact (Leaves.unlock hl).bind fun _ => Leaves.pure _

section
variable (hl : O .comSend = none)
include hl

theorem bufferedWrite_sends (d : Nat) (buf : List Byte) : Sends O (bufferedWrite d buf) O := by
  unfold bufferedWrite
  split
  case isTrue => exact Leaves.pure _
  apply Leaves.lock.bind
  intro _
  apply sends_load.bind
  intro size
  split
  case isTrue => exact (Leaves.unlock hl).bind fun _ => Leaves.pure _
  apply Leaves.bind (Leaves.act fun m => ⟨rfl, rfl, rfl, fun _ => rfl, fun _ => rfl⟩)
  exact fun _ => (Leaves.unlock hl).bind fun _ => Leaves.pure _

theorem raspikeComSend_sends (desc : Option Nat) (buf : List Byte) : Sends O (raspikeComSend desc buf) O := by
  cases desc with
  | none => exact Leaves.pure _
  | some d =>
  apply sends_tick.bind
  intro _
  apply Leaves.lock.bind
  intro _
  apply sends_load.bind
  intro mode
  apply (Leaves.unlock hl).bind
  intro _
  split
  case isTrue => exact bufferedWrite_sends hl d buf
  apply sends_load.bind
  intro fd
  split
  case isTrue => exact Leaves.pure _
  case isFalse => exact (writeAllFd_calm d buf).sends

theorem raspikeComFlush_sends (desc : Option Nat) : Sends O (raspikeComFlush desc) O := by
  cases desc with
  | none => exact Leaves.pure _
  | some d =>
  apply sends_tick.bind
  intro _
  apply Leaves.lock.bind
  intro _
  apply (flushBufferLocked_calm d).sends.bind
  exact fun ret => (Leaves.unlock hl).bind fun _ => Leaves.pure _

theorem raspikeUsbBufferFlush_sends (d : Nat) : Sends O (raspikeUsbBufferFlush d) O := by
  apply sends_tick.bind
  intro _
  apply Leaves.lock.bind
  intro _
  apply (flushBufferLocked_calm d).sends.bind
  exact fun _ => Leaves.unlock hl

theorem raspikeUsbSetMode_sends (mode : UsbMode) : Sends O (raspikeUsbSetMode mode) O := by
  apply Leaves.lock.bind
  intro _
  apply Leaves.bind (Leaves.act fun m => ⟨rfl, rfl, rfl, fun _ => rfl, fun _ => rfl⟩)
  exact fun _ => Leaves.unlock hl

theorem sendFrameLocked_sends (port cmd : Byte) (payload : Buf) (size : Int) (sequence : U32)
    (flags : Byte) (flushNow : Bool) :
    Sends O (sendFrameLocked port cmd payload size sequence flags flushNow) O := by
  apply sends_load.bind
  intro v2
  apply Leaves.bind
  · split
    · unfold sendV2Frame
      split
      case isTrue => exact Leaves.pure _
      apply Leaves.bind (Leaves.act fun m => Steady.refl m _)
      intro session
      exact sends_load.bind fun desc => raspikeComSend_sends hl desc _
    · unfold sendLegacyFrame
      split
      case isTrue => exact Leaves.pure _
      exact sends_load.bind fun desc => raspikeComSend_sends hl desc _
  intro ret
  split
  case isFalse => exact Leaves.pure _
  apply sends_load.bind
  intro desc
  exact (raspikeComFlush_sends hl desc).bind fun _ => Leaves.pure _

end

theorem sendFrame_sends (port cmd : Byte) (payload : Buf) (size : Int) (sequence : U32) (flags : Byte)
    (flushNow : Bool) :
    Sends noneHeld (sendFrame port cmd payload size sequence flags flushNow) noneHeld := by
  apply sends_tick.bind
  intro _
  apply Leaves.lock.bind
  intro _
  apply sends_tick.bind
  intro _
  apply sends_orElse.bind
  intro down
  split
  case isTrue =>
    apply (Leaves.unlock rfl).bind
    exact fun _ => sends_tick.bind fun _ => Leaves.pure _
  apply (sendFrameLocked_sends rfl port cmd payload size sequence flags flushNow).bind
  intro ret
  apply (Leaves.unlock rfl).bind
  intro _
  apply Leaves.bind
  · split
    · exact statsIncrement_sends rfl _
    · exact Leaves.pure _
  exact fun _ => sends_tick.bind fun _ => Leaves.pure _

end

/-! ## the states of a session -/

/-- the calls that send, flush or change the mode -/
def Op.isSending : Op → Bool
  | .api (.send ..) | .api (.sendPriority ..) => true
  | .com (.flush _) | .com (.usbBufferFlush _) | .com (.usbSetMode _) => true
  | _ => false

theorem sending_sends {op : Op} (h : op.isSending) : Sends noneHeld op.run noneHeld := by
  cases op with
  | openUsb => cases h
  | api c =>
    apply sends_tick.bind
    intro _
    cases c with
    | send port cmd buf size =>
      apply Leaves.bind _ fun _ => sends_tick
      apply Leaves.bind _ fun _ => Leaves.pure _
      exact (nextSequence_sends rfl).bind fun _ => sendFrame_sends _ _ _ _ _ _ _
    | sendPriority port cmd buf size =>
      apply Leaves.bind _ fun _ => sends_tick
      apply Leaves.bind _ fun _ => Leaves.pure _
      exact (nextSequence_sends rfl).bind fun _ => sendFrame_sends _ _ _ _ _ _ _
    | _ => cases h
  | com c =>
    apply sends_tick.bind
    intro _
    cases c with
    | send => cases h
    | flush desc => exact (raspikeComFlush_sends rfl desc).bind fun _ => sends_tick
    | usbBufferFlush d =>
      apply Leaves.bind _ fun _ => sends_tick
      exact (raspikeUsbBufferFlush_sends rfl d).bind fun _ => Leaves.pure _
    | usbSetMode mode =>
      apply Leaves.bind _ fun _ => sends_tick
      exact (raspikeUsbSetMode_sends rfl mode).bind fun _ => Leaves.pure _

/-- a session on an open descriptor, between two calls -/
structure Online (d : Nat) (w : Solo) : Prop where
  desc : w.mem.fgDesc = some d
  running : w.mem.fgStopCommunication = false
  v2 : w.mem.fgUseProtocolV2 = true
  usb : (w.mem.com.desc d).type = rpComTypeUsb
  fd : 0 ≤ (w.mem.com.desc d).desc
  free : w.own = noneHeld

section
variable {d : Nat} {w w' : Solo}

theorem Online.path (h : Online d w) (hp : Path Steady w w') (hown : w'.own = noneHeld) : Online d w' := by
  have hmem : ∀ {w₁ : Solo}, Path Steady w w₁ → Online d { w₁ with own := noneHeld } := by
    intro w₁ hp
    induction hp with
    | refl => exact ⟨h.desc, h.running, h.v2, h.usb, h.fd, rfl⟩
    | own _ own ih => exact ⟨ih.desc, ih.running, ih.v2, ih.usb, ih.fd, rfl⟩
    | act _ hA ih =>
      exact ⟨hA.desc.trans ih.desc, hA.stop.trans ih.running, hA.v2.trans ih.v2,
        (hA.usb d).trans ih.usb, hA.fd d ▸ ih.fd, rfl⟩
  have h' := hmem hp
  exact ⟨h'.desc, h'.running, h'.v2, h'.usb, h'.fd, hown⟩

/-- **Sessions**: the senders keep the connection, whatever the device answers -/
theorem sending_online (h : Online d w) {ops : List Op} (hops : ∀ op ∈ ops, op.isSending)
    (he : Ends (forEach ops Op.run) w () w') : Online d w' := by
  have hsends : Sends noneHeld (forEach ops Op.run) noneHeld :=
    Leaves.forEach fun op hop => sending_sends (hops op hop)
  obtain ⟨hown, hp⟩ := hsends w () w' he h.free
  exact h.path hp hown

/-! ## one priority command -/

theorem nextSequence_moves (hl : w.own .fgSequence = none) (hdev : ∀ x ∈ w.tx d, Willing x) :
    Finishes nextSequence w fun sequence w' =>
      sequence = w.mem.fgNextSequence ∧ Moved d w [] w.mem.com.fgSendBuffer w' := by
  have hstay : Moved d w [] w.mem.com.fgSendBuffer w := Moved.refl hdev
  apply finish_bind
  apply finish_lock hl
  apply finish_bind
  apply finish_act
  apply finish_bind
  apply finish_load
  apply finish_bind
  split
  case isTrue =>
    apply finish_modify
    apply finish_bind
    apply finish_unlock
    apply finish_pure
    exact ⟨rfl, hstay.of_com rfl rfl rfl rfl rfl (release_acquired hl rfl)⟩
  case isFalse =>
    apply finish_pure
    apply finish_bind
    apply finish_unlock
    apply finish_pure
    exact ⟨rfl, hstay.of_com rfl rfl rfl rfl rfl (release_acquired hl rfl)⟩

/-- the bytes on their way and in the buffer, after the flush if there is one -/
def flushing : Bool → List Byte → List Byte → List Byte × List Byte
  | true, out, B => (out ++ B, [])
  | false, out, B => (out, B)

/-- what `send_frame` leaves -/
structure FrameOut (d : Nat) (flush : Bool) (frame : List Byte) (w : Solo) (r : Int) (w' : Solo) : Prop where
  normal : w.mem.com.fgSendMode = .normal → 0 ≤ r ∧
    Moved d w (flushing flush frame w.mem.com.fgSendBuffer).1
      (flushing flush frame w.mem.com.fgSendBuffer).2 w'
  room : w.mem.com.fgSendMode = .buffered →
    w.mem.com.fgSendBuffer.length + frame.length ≤ rpSendBufferSize → 0 ≤ r ∧
    Moved d w (flushing flush [] (w.mem.com.fgSendBuffer ++ frame)).1
      (flushing flush [] (w.mem.com.fgSendBuffer ++ frame)).2 w'
  full : w.mem.com.fgSendMode = .buffered →
    ¬ w.mem.com.fgSendBuffer.length + frame.length ≤ rpSendBufferSize →
    r < 0 ∧ Moved d w [] w.mem.com.fgSendBuffer w'

theorem FrameOut.own {flush : Bool} {frame : List Byte} {r : Int} (h : FrameOut d flush frame w r w') :
    w'.own = w.own := by
  cases hmode : w.mem.com.fgSendMode with
  | normal => exact (h.normal hmode).2.own
  | buffered =>
    by_cases hroom : w.mem.com.fgSendBuffer.length + frame.length ≤ rpSendBufferSize
    · exact (h.room hmode hroom).2.own
    · exact (h.full hmode hroom).2.own

/-- a part of a call, seen from the whole of it -/
theorem FrameOut.mono {w₁ w₂ : Solo} {flush : Bool} {frame : List Byte} {r : Int}
    (h : FrameOut d flush frame w₁ r w₂) (hmode : w₁.mem.com.fgSendMode = w.mem.com.fgSendMode)
    (hbuf : w₁.mem.com.fgSendBuffer = w.mem.com.fgSendBuffer)
    (hm : ∀ out B, Moved d w₁ out B w₂ → Moved d w out B w') : FrameOut d flush frame w r w' := by
  obtain ⟨hnormal, hroom, hfull⟩ := h
  rw [hmode, hbuf] at hnormal hroom hfull
  exact ⟨fun h => ⟨(hnormal h).1, hm _ _ (hnormal h).2⟩, fun h hr => ⟨(hroom h hr).1, hm _ _ (hroom h hr).2⟩,
    fun h hr => ⟨(hfull h hr).1, hm _ _ (hfull h hr).2⟩⟩

/-- the flush is only made after a send that has succeeded -/
theorem flushed_moves {w₁ : Solo} {out B : List Byte} {r : Int} (h : Linked d w)
    (hdesc : w.mem.fgDesc = some d) (hl : w.own .comSend = none) (hr : 0 ≤ r) (hm : Moved d w out B w₁)
    (flush : Bool) :
    Finishes (if r ≥ 0 && flush then do
        let desc ← load fun m => m.fgDesc
        let flushResult ← raspikeComFlush desc
        return if flushResult < 0 then flushResult else r
      else return r : P Int) w₁ fun r' w' =>
        0 ≤ r' ∧ Moved d w (flushing flush out B).1 (flushing flush out B).2 w' := by
  cases flush with
  | false =>
    rw [if_neg (by simp)]
    exact finish_pure ⟨hr, hm⟩
  | true =>
    rw [if_pos (by simpa using hr)]
    apply finish_bind
    apply finish_load
    rw [hm.desc.trans hdesc]
    apply finish_seq (raspikeComFlush_moves (hm.linked h) ((congrFun hm.own .comSend).trans hl))
    rintro r₂ w₂ ⟨hr₂, hm₂⟩
    rw [if_neg (Int.not_lt.mpr hr₂)]
    exact finish_pure ⟨hr, hm.buffer ▸ hm.trans hm₂⟩

theorem sendFrameLocked_moves {port : Byte} {payload : Buf} {size : Int} (cmd flags : Byte) (sequence : U32)
    (flush : Bool) (h : Linked d w) (hdesc : w.mem.fgDesc = some d) (hv2 : w.mem.fgUseProtocolV2 = true)
    (hl : w.own .comSend = none) (hs : Sendable port payload size) :
    Finishes (sendFrameLocked port cmd payload size sequence flags flush) w
      (FrameOut d flush (v2Frame port cmd flags sequence w.mem.fgSessionId (payload.take size)) w) := by
  apply finish_bind
  apply finish_load
  rw [hv2]
  apply finish_seq (sendV2Frame_moves cmd flags sequence h hdesc hl hs)
  intro r w₁ hout
  cases hmode : w.mem.com.fgSendMode with
  | normal =>
    obtain ⟨rfl, hm⟩ := hout.normal hmode
    apply finish_mono (flushed_moves h hdesc hl (Int.natCast_nonneg _) hm flush)
    intro r' w' h'
    exact ⟨fun _ => h', fun h => (nomatch hmode.symm.trans h), fun h => (nomatch hmode.symm.trans h)⟩
  | buffered =>
    by_cases hroom : w.mem.com.fgSendBuffer.length +
        (v2Frame port cmd flags sequence w.mem.fgSessionId (payload.take size)).length ≤ rpSendBufferSize
    · obtain ⟨rfl, hm⟩ := hout.room hmode hroom
      apply finish_mono (flushed_moves h hdesc hl (Int.natCast_nonneg _) hm flush)
      intro r' w' h'
      exact ⟨fun h => (nomatch hmode.symm.trans h), fun _ _ => h', fun _ h => (h hroom).elim⟩
    · obtain ⟨hr, hm⟩ := hout.full hmode hroom
      rw [if_neg (by simpa using fun h => (Int.not_lt.mpr h hr).elim)]
      exact finish_pure ⟨fun h => (nomatch hmode.symm.trans h), fun _ h => (hroom h).elim, fun _ _ => ⟨hr, hm⟩⟩

theorem sendFrame_moves (h : Online d w) (hdev : ∀ x ∈ w.tx d, Willing x) {port : Byte}
    {payload : Buf} {size : Int} (cmd flags : Byte) (sequence : U32) (flush : Bool) (hs : Sendable port payload size) :
    Finishes (sendFrame port cmd payload size sequence flags flush) w
      (FrameOut d flush (v2Frame port cmd flags sequence w.mem.fgSessionId (payload.take size)) w) := by
  have hfree : ∀ l, w.own l = none := fun l => congrFun h.free l
  apply finish_bind
  apply finish_tick
  apply finish_bind
  apply finish_lock
  case hl => exact hfree _
  apply finish_bind
  apply finish_tick
  apply finish_bind
  apply finish_orElse
  apply finish_load
  show if w.mem.fgDesc.isNone = true then _ else _
  rw [h.desc, if_neg (show ¬ (some d).isNone = true from Bool.false_ne_true)]
  apply finish_load
  show Finishes (if w.mem.fgStopCommunication = true then _ else _) _ _
  rw [h.running, if_neg Bool.false_ne_true]
  let w₁ : Solo := Solo.log ((Solo.log w .sendBegin).acquire () .fgSend) .sendLocked
  apply finish_seq (sendFrameLocked_moves (w := w₁) cmd flags sequence flush ⟨h.usb, h.fd, hdev⟩ h.desc h.v2
    (hfree _) hs)
  intro r w₂ hout
  -- the end of `send_frame` counts, and leaves the rest alone
  have hend : ∀ {w' : Solo}, w'.mem.com = w₂.mem.com → w'.mem.fgDesc = w₂.mem.fgDesc →
      w'.mem.fgStopCommunication = w₂.mem.fgStopCommunication →
      w'.mem.fgUseProtocolV2 = w₂.mem.fgUseProtocolV2 → w'.mem.fgSessionId = w₂.mem.fgSessionId →
      w'.own = (w₂.release .fgSend).own →
      FrameOut d flush (v2Frame port cmd flags sequence w.mem.fgSessionId (payload.take size)) w r w' := by
    intro w' hcom hdesc hstop hv2 hsession hown
    apply hout.mono (w := w) rfl rfl
    intro out B hm
    have hsection : Moved d w out B (w₂.release .fgSend) :=
      (Moved.released (w := Solo.log w .sendBegin) (hfree _) hm.unlog).unlog
    exact hsection.of_com hcom hdesc hstop hv2 hsession (hown.trans hsection.own)
  have hown : (w₂.release .fgSend).own = w.own := release_acquired (hfree _) hout.own
  apply finish_bind
  apply finish_unlock
  apply finish_bind
  split
  case isTrue =>
    apply statsIncrement_finishes ((congrFun hown _).trans (hfree _))
    apply finish_bind
    apply finish_tick
    exact finish_pure (hend rfl rfl rfl rfl rfl rfl)
  case isFalse =>
    apply finish_pure
    apply finish_bind
    apply finish_tick
    exact finish_pure (hend rfl rfl rfl rfl rfl rfl)

/-- `raspike_prot_send` and `raspike_prot_send_priority` -/
theorem numberedSend_moves (h : Online d w) (hdev : ∀ x ∈ w.tx d, Willing x) {port : Byte}
    {buf : Buf} {size : Int} (cmd flags : Byte) (flush : Bool) (hs : Sendable port buf size) :
    Finishes (do
        let sequence ← nextSequence
        sendFrame port cmd buf size sequence flags flush) w
      (FrameOut d flush
        (v2Frame port cmd flags w.mem.fgNextSequence w.mem.fgSessionId (buf.take size)) w) := by
  apply finish_seq (nextSequence_moves (congrFun h.free _) hdev)
  rintro _ w₁ ⟨rfl, hm⟩
  have hlinked : Linked d w₁ := hm.linked ⟨h.usb, h.fd, hdev⟩
  have honline : Online d w₁ := ⟨hm.desc.trans h.desc, hm.stop.trans h.running, hm.v2.trans h.v2,
    hlinked.usb, hlinked.fd, hm.own.trans h.free⟩
  apply finish_mono (sendFrame_moves honline hlinked.willing cmd flags _ flush hs)
  intro r w' hout
  rw [hm.session] at hout
  exact hout.mono hm.mode hm.buffer fun _ _ hm' => hm.trans hm'

/-- the frame of a priority command -/
def priorityFrame (m : Mem) (port cmd : Byte) (buf : Buf) (size : Int) : List Byte :=
  v2Frame port cmd rpV2FlagHighPriority m.fgNextSequence m.fgSessionId (buf.take size)

/-- when the frame gets out behind what is buffered -/
def GetsOut (m : Mem) (frame : List Byte) : Prop :=
  (m.com.fgSendMode = .buffered ∧ m.com.fgSendBuffer.length + frame.length ≤ rpSendBufferSize) ∨
    (m.com.fgSendMode = .normal ∧ m.com.fgSendBuffer ++ frame = frame ++ m.com.fgSendBuffer)

/-- the call has succeeded, and what was buffered and then the frame are on the wire -/
def GotOut (d : Nat) (w : Solo) (frame : List Byte) (r : Int) (w' : Solo) : Prop :=
  0 ≤ r ∧ w'.mem.wire d = w.mem.wire d ++ w.mem.com.fgSendBuffer ++ frame

theorem FrameOut.gotOut {frame : List Byte} {r : Int} (h : FrameOut d true frame w r w') :
    GotOut d w frame r w' ↔ GetsOut w.mem frame := by
  unfold GotOut GetsOut
  cases hmode : w.mem.com.fgSendMode with
  | normal =>
    obtain ⟨hr, hm⟩ := h.normal hmode
    rw [hm.wire, List.append_assoc, List.append_cancel_left_eq]
    constructor
    · exact fun h => .inr ⟨rfl, h.2.symm⟩
    · rintro (⟨h, -⟩ | ⟨-, h⟩)
      · cases h
      · exact ⟨hr, h.symm⟩
  | buffered =>
    by_cases hroom : w.mem.com.fgSendBuffer.length + frame.length ≤ rpSendBufferSize
    · obtain ⟨hr, hm⟩ := h.room hmode hroom
      constructor
      · exact fun _ => .inl ⟨rfl, hroom⟩
      · intro _
        rw [hm.wire, List.append_assoc]
        exact ⟨hr, rfl⟩
    · obtain ⟨hr, -⟩ := h.full hmode hroom
      constructor
      · exact fun h => (Int.not_lt.mpr h.1 hr).elim
      · rintro (⟨-, h⟩ | ⟨h, -⟩)
        · exact (hroom h).elim
        · cases h

/-- the world in which a client starts -/
def idle (m : Mem) : Solo := ⟨m, noneHeld, []⟩

/-- **A priority command gets out** behind what is buffered exactly when the mode is buffered and the
frame fits behind it, or the mode is normal and the order does not matter. -/
theorem priority_delivered {d : Nat} {m : Mem} (hm : Online d (idle m)) {ops : List Op}
    (hops : ∀ op ∈ ops, op.isSending) {w : Solo} (hrun : Ends (forEach ops Op.run) (idle m) () w)
    (hdev : ∀ x ∈ w.tx d, Willing x) {port cmd : Byte} {buf : Buf} {size : Int}
    (hs : Sendable port buf size) :
    (∃ r w', Ends (raspikeProtSendPriority port cmd buf size) w r w') ∧
      ∀ r w', Ends (raspikeProtSendPriority port cmd buf size) w r w' →
        (GotOut d w (priorityFrame w.mem port cmd buf size) r w' ↔
          GetsOut w.mem (priorityFrame w.mem port cmd buf size)) := by
  have hsend := numberedSend_moves (sending_online hm hops hrun) hdev cmd rpV2FlagHighPriority true hs
  constructor
  · obtain ⟨r, w', he, -⟩ := hsend
    exact ⟨r, w', he⟩
  · exact fun r w' he => (hsend.ends he).gotOut

/-! a send buffer with no room left -/

/-- a session in the buffered mode -/
structure Buffering (d n : Nat) (w : Solo) : Prop where
  online : Online d w
  willing : ∀ x ∈ w.tx d, Willing x
  mode : w.mem.com.fgSendMode = .buffered
  length : w.mem.com.fgSendBuffer.length = n

/-- a message of the hub port -/
def noteSend (payload : List Byte) : Op :=
  .api (.send rpPortNone rpCmdIdLinkStats (some payload) payload.length)

theorem note_sendable {payload : List Byte} (h : payload.length ≤ rpV2MaxPayload) :
    Sendable rpPortNone (some payload) payload.length :=
  ⟨by decide, Int.natCast_nonneg _, Int.ofNat_le.mpr h, fun _ => rfl⟩

theorem noteSend_buffers {n : Nat} {payload : List Byte} (hp : payload.length ≤ rpV2MaxPayload)
    (h : Buffering d n w) (hn : n + (16 + payload.length) ≤ rpSendBufferSize) :
    Finishes (noteSend payload).run w fun _ w' => Buffering d (n + (16 + payload.length)) w' := by
  apply finish_bind
  apply finish_tick
  apply finish_bind
  apply finish_bind
  let w₁ : Solo := Solo.log w (.call (.send rpPortNone rpCmdIdLinkStats (some payload) payload.length))
  have honline : Online d w₁ := ⟨h.online.desc, h.online.running, h.online.v2, h.online.usb, h.online.fd,
    h.online.free⟩
  apply finish_mono (numberedSend_moves (w := w₁) honline h.willing _ _ _ (note_sendable hp))
  intro r w' hout
  have hlen : ∀ sequence session, (v2Frame rpPortNone rpCmdIdLinkStats 0 sequence session
      (Buf.take (some payload) payload.length)).length = 16 + payload.length := by
    intro sequence session
    have htake : Buf.take (some payload) payload.length = payload := List.take_length
    rw [htake]
    exact Decoded.frame_length ⟨rpPortNone, rpCmdIdLinkStats, 0, sequence, session, payload⟩
  have hbuf : w₁.mem.com.fgSendBuffer.length = n := h.length
  obtain ⟨-, hm⟩ := hout.room h.mode (by rwa [hlen, hbuf])
  have hlinked := hm.linked ⟨h.online.usb, h.online.fd, h.willing⟩
  apply finish_pure
  apply finish_tick
  refine ⟨⟨hm.desc.trans h.online.desc, hm.stop.trans h.online.running, hm.v2.trans h.online.v2,
    hlinked.usb, hlinked.fd, hm.own.trans h.online.free⟩, hlinked.willing, hm.mode.trans h.mode, ?_⟩
  show w'.mem.com.fgSendBuffer.length = _
  rw [hm.buffer]
  show (w₁.mem.com.fgSendBuffer ++ _).length = _
  rw [List.length_append, hlen, hbuf]

theorem noteSends_buffer {payload : List Byte} (hp : payload.length ≤ rpV2MaxPayload) {n : Nat} (k : Nat)
    (h : Buffering d n w) (hn : n + k * (16 + payload.length) ≤ rpSendBufferSize) :
    Finishes (forEach (List.replicate k (noteSend payload)) Op.run) w fun _ w' =>
      Buffering d (n + k * (16 + payload.length)) w' := by
  induction k generalizing n w with
  | zero =>
    apply finish_pure
    rwa [Nat.zero_mul, Nat.add_zero]
  | succ k ih =>
    have hsum : n + (k + 1) * (16 + payload.length) =
        n + (16 + payload.length) + k * (16 + payload.length) := by
      rw [Nat.succ_mul]
      omega
    rw [hsum] at hn ⊢
    apply finish_seq (noteSend_buffers hp h (Nat.le_trans (Nat.le_add_right ..) hn))
    exact fun _ w₁ h₁ => ih h₁ hn

theorem setMode_buffers (h : Online d w) (hdev : ∀ x ∈ w.tx d, Willing x) :
    Finishes (Op.run (.com (.usbSetMode .buffered))) w fun _ w' =>
      Buffering d w.mem.com.fgSendBuffer.length w' := by
  have hback : (Function.update (Function.update w.own .comSend (some ())) .comSend none) = noneHeld := by
    rw [h.free, Function.update_idem]
    exact Function.update_eq_self _ _
  apply finish_bind
  apply finish_tick
  apply finish_bind
  apply finish_bind
  apply finish_bind
  apply finish_lock
  case hl => exact congrFun h.free .comSend
  apply finish_bind
  apply finish_modify
  apply finish_unlock
  apply finish_pure
  apply finish_tick
  exact ⟨⟨h.desc, h.running, h.v2, h.usb, h.fd, hback⟩, hdev, rfl, rfl⟩

end

/-- sixteen frames of 256 bytes -/
def crowd : List Op :=
  .com (.usbSetMode .buffered) :: List.replicate 16 (noteSend (List.replicate rpV2MaxPayload 0))

theorem crowd_sending : ∀ op ∈ crowd, op.isSending := by
  intro op hop
  obtain rfl | hop := List.mem_cons.mp hop
  · rfl
  · rw [List.eq_of_mem_replicate hop]
    rfl

theorem freshMem_online : Online 0 (idle (freshMem [] [])) := ⟨rfl, rfl, rfl, rfl, by decide, rfl⟩

/-- the send buffer is full -/
theorem crowd_buffers : Finishes (forEach crowd Op.run) (idle (freshMem [] [])) fun _ w =>
    Buffering 0 rpSendBufferSize w := by
  have hlen : (List.replicate rpV2MaxPayload (0 : Byte)).length = 240 := List.length_replicate
  apply finish_seq (setMode_buffers freshMem_online fun x hx => absurd hx List.not_mem_nil)
  intro _ w hw
  have hrun := noteSends_buffer (Nat.le_of_eq hlen) 16 hw (by rw [hlen]; decide)
  rw [hlen] at hrun
  exact hrun

theorem priority_delivered_crowd : ∃ w, Ends (forEach crowd Op.run) (idle (freshMem [] [])) () w ∧
    (∃ r w', Ends (raspikeProtSendPriority rpPortNone rpCmdIdLinkStats none 0) w r w') ∧
      ∀ r w', Ends (raspikeProtSendPriority rpPortNone rpCmdIdLinkStats none 0) w r w' →
        (GotOut 0 w (priorityFrame w.mem rpPortNone rpCmdIdLinkStats none 0) r w' ↔
          GetsOut w.mem (priorityFrame w.mem rpPortNone rpCmdIdLinkStats none 0)) := by
  obtain ⟨_, w, hrun, hw⟩ := crowd_buffers
  have hs : Sendable rpPortNone none 0 := ⟨by decide, by decide, by decide, fun h => absurd h (by decide)⟩
  exact ⟨w, hrun, priority_delivered freshMem_online crowd_sending hrun hw.willing hs⟩

/-- A full buffer refuses the frame, although the flush that follows would make room for it. -/
theorem priority_refused : ¬ ∀ (d : Nat) (m : Mem), Online d (idle m) → ∀ ops : List Op,
    (∀ op ∈ ops, op.isSending) → ∀ w, Ends (forEach ops Op.run) (idle m) () w →
    (∀ x ∈ Solo.tx w d, Willing x) → ∀ (port cmd : Byte) (buf : Buf) (size : Int), Sendable port buf size →
    ∀ r w', Ends (raspikeProtSendPriority port cmd buf size) w r w' →
      GotOut d w (priorityFrame w.mem port cmd buf size) r w' := by
  intro hclaim
  obtain ⟨_, w, hrun, hw⟩ := crowd_buffers
  have hs : Sendable rpPortNone none 0 := ⟨by decide, by decide, by decide, fun h => absurd h (by decide)⟩
  obtain ⟨r, w', he, hout⟩ := numberedSend_moves hw.online hw.willing rpCmdIdLinkStats
    rpV2FlagHighPriority true hs
  have hgot := hclaim 0 _ freshMem_online crowd crowd_sending w hrun hw.willing _ rpCmdIdLinkStats _ _ hs r w' he
  obtain ⟨hr, -⟩ := hout.full hw.mode (by
    rw [hw.length]
    have hlen := Decoded.frame_length ⟨rpPortNone, rpCmdIdLinkStats, rpV2FlagHighPriority,
      w.mem.fgNextSequence, w.mem.fgSessionId, Buf.take none 0⟩
    have hframe : (v2Frame rpPortNone rpCmdIdLinkStats rpV2FlagHighPriority w.mem.fgNextSequence
      w.mem.fgSessionId (Buf.take none 0)).length = 16 := hlen
    omega)
  exact Int.not_lt.mpr hgot.1 hr

end RaspikeArt
