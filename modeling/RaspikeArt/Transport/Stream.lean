import RaspikeArt.Transport.Handling
import RaspikeArt.Transport.Flips

/-!
# Transport, part 14: a stream of segments

* `Segment`          what arrives: a frame, a damaged slot, a junk byte;
* `receive_segment`  one call of `raspike_prot_receive` consumes one segment, however its bytes are
                     split over reads;
* `stream_decoded`   so that a run of calls decodes the frames of a stream, in order, and nothing
                     else.
-/

namespace RaspikeArt
open Threads

inductive Segment where
  /-- what `send_v2_frame` produces -/
  | frame (c : Decoded)
  /-- a slot with the rest of its header, and payload and checksum -/
  | damaged (header rest : List Byte)
  | junk (b : Byte)

namespace Segment

/-- the version, the size or the checksum of a damaged slot is wrong -/
def Valid : Segment → Prop
  | .frame c => raspikeIsValidPort c.port = true ∧ c.payload.length ≤ rpV2MaxPayload
  | .damaged header rest => header.length = 13 ∧ rest.length = (header.getD 4 0).toNat + 2 ∧
      (header.getD 0 0 ≠ rpV2Version ∨ (header.getD 4 0).toNat > rpV2MaxPayload ∨
        rpV2GetU16 (rest.drop (header.getD 4 0).toNat) ≠
          rpV2Crc16 (header ++ rest.take (header.getD 4 0).toNat))
  | .junk b => b ≠ rpCmdStart ∧ b ≠ rpV2Start

def bytes : Segment → List Byte
  | .frame c => v2Frame c.port c.cmd c.flags c.sequence c.session c.payload
  | .damaged header rest => rpV2Start :: (header ++ rest)
  | .junk b => [b]

/-- what `process_command` is to be called for -/
def commands : Segment → List Decoded
  | .frame c => [c]
  | .damaged _ _ | .junk _ => []

end Segment

/-! ## one slot after its start byte -/

section
variable {d : Nat} {w : Solo} {more : List Byte}

theorem v2Header_ofV2 (c : Decoded) : Decoded.ofV2
    (v2Header c.port c.cmd c.flags c.payload.length c.sequence c.session) c.payload = c := by
  show (⟨c.port, c.cmd, c.flags, rpV2GetU32 (rpV2PutU32 c.sequence ++ rpV2PutU32 c.session),
    rpV2GetU32 (rpV2PutU32 c.session), c.payload⟩ : Decoded) = c
  rw [rpV2GetU32_put]
  show (⟨c.port, c.cmd, c.flags, rpV2GetU32 (rpV2PutU32 c.sequence), _, _⟩ : Decoded) = c
  rw [rpV2GetU32_put]

theorem receiveV2Frame_frame {c : Decoded} (hlen : c.payload.length ≤ rpV2MaxPayload)
    (ha : Attached d w) (hrx : arrives (w.rx d) = (Segment.frame c).bytes.tail ++ more) :
    Finishes receiveV2Frame w fun _ w' => Handled d w (Segment.frame c).bytes.tail [c] w' := by
  have hbytes : (Segment.frame c).bytes.tail =
      v2Header c.port c.cmd c.flags c.payload.length c.sequence c.session ++
        (c.payload ++ rpV2PutU16 (rpV2Crc16
          (v2Body c.port c.cmd c.flags c.sequence c.session c.payload))) := by
    show v2Header .. ++ c.payload ++ _ = _
    rw [List.append_assoc]
  have hsize : ((v2Header c.port c.cmd c.flags c.payload.length c.sequence c.session).getD 4 0).toNat
      = c.payload.length := by
    show (BitVec.ofNat 8 c.payload.length).toNat = _
    rw [BitVec.toNat_ofNat, Nat.mod_eq_of_lt (Nat.lt_of_le_of_lt hlen (by decide))]
  rw [hbytes] at hrx ⊢
  rw [List.append_assoc] at hrx
  apply finish_mono (receiveV2Frame_accepted ha rfl ?_ hrx rfl (hsize.trans_le hlen) ?_)
  · intro r w' hh
    rw [hsize, List.take_left, v2Header_ofV2] at hh
    exact hh
  · rw [hsize, List.length_append]
    rfl
  · rw [hsize, List.drop_left, List.take_left, rpV2GetU16_put]
    rfl

theorem receiveV2Frame_damaged {header rest : List Byte} (hv : (Segment.damaged header rest).Valid)
    (ha : Attached d w) (hrx : arrives (w.rx d) = header ++ rest ++ more) :
    Finishes receiveV2Frame w fun _ w' => Handled d w (header ++ rest) [] w' := by
  obtain ⟨hlen, hrest, hbad⟩ := hv
  rw [List.append_assoc] at hrx
  have hdone : ∀ {code : Int}, Finishes receiveV2Frame w
      (fun r w' => r = code ∧ Heard d w (header ++ rest) w') →
      Finishes receiveV2Frame w fun _ w' => Handled d w (header ++ rest) [] w' := fun h =>
    finish_mono h fun _ _ hh => hh.2.handled ha
  by_cases hver : header.getD 0 0 = rpV2Version
  · by_cases hsize : (header.getD 4 0).toNat > rpV2MaxPayload
    · exact hdone (receiveV2Frame_oversize ha hlen hrest hrx hver hsize)
    · have hcrc := (hbad.resolve_left (not_not.mpr hver)).resolve_left hsize
      exact hdone (receiveV2Frame_crc ha hlen hrest hrx hver (Nat.le_of_not_lt hsize) hcrc)
  · exact hdone (receiveV2Frame_version ha hlen hrest hrx hver)

/-! ## one call -/

/-- a library that receives: connected to `d`, with `rest` still to arrive and `cs` handled -/
structure Receiving (d : Nat) (rest : List Byte) (cs : List Decoded) (w : Solo) : Prop where
  attached : Attached d w
  stop : w.mem.fgStopCommunication = false
  handshake : w.mem.fgHandshakeComplete = true
  bytes : arrives (w.rx d) = rest
  commands : commandsOf w.trace = cs

theorem Handled.receiving {bs : List Byte} {cs cs' : List Decoded} {w' : Solo}
    (h : Handled d w bs cs' w') (hr : Receiving d (bs ++ more) cs w) :
    Receiving d more (cs ++ cs') w' :=
  ⟨h.attached, h.stop.trans hr.stop, h.handshake.trans hr.handshake,
    List.append_cancel_left (h.bytes.symm.trans hr.bytes), by rw [h.commands, hr.commands]⟩

/-- an access that leaves all of it alone, possibly under a mutex -/
theorem Receiving.same {rest : List Byte} {cs : List Decoded} (h : Receiving d rest cs w) {w' : Solo}
    (hcom : w'.mem.com = w.mem.com) (hdesc : w'.mem.fgDesc = w.mem.fgDesc)
    (hstop : w'.mem.fgStopCommunication = w.mem.fgStopCommunication)
    (hhs : w'.mem.fgHandshakeComplete = w.mem.fgHandshakeComplete)
    (hcmd : commandsOf w'.trace = commandsOf w.trace) (hfree : ∀ l, w'.own l = none) :
    Receiving d rest cs w' := by
  have hrx : w'.rx d = w.rx d := by rw [Solo.rx, hcom, Solo.rx]
  have hl := h.attached.listening
  refine ⟨⟨⟨?_, ?_, ?_⟩, hdesc.trans h.attached.desc, hfree⟩, hstop.trans h.stop,
    hhs.trans h.handshake, ?_, hcmd.trans h.commands⟩
  · rw [hcom]
    exact hl.usb
  · rw [hcom]
    exact hl.fd
  · rw [hrx]
    exact hl.ready
  · rw [hrx]
    exact h.bytes

theorem Receiving.log {rest : List Byte} {cs : List Decoded} (h : Receiving d rest cs w) (e : Event)
    (he : e.decoded = none) : Receiving d rest cs (w.log e) := by
  have hcmd : commandsOf (((), e) :: w.trace) = commandsOf w.trace := by
    rw [commandsOf_cons, he]
    exact List.append_nil _
  exact h.same rfl rfl rfl rfl hcmd h.attached.free

theorem Receiving.bump {rest : List Byte} {cs : List Decoded} (h : Receiving d rest cs w) (s : Stat) :
    Receiving d rest cs (w.bump s) :=
  h.same rfl rfl rfl rfl rfl h.attached.free

/-- what has been handled is of the kind `P`, and `rest` is still to arrive -/
def Left (d : Nat) (rest : List Byte) (P : List Decoded → Prop) (w : Solo) : Prop :=
  ∃ cs, P cs ∧ Receiving d rest cs w

theorem left_eq {rest : List Byte} {cs : List Decoded} : Left d rest (· = cs) w ↔ Receiving d rest cs w := by
  constructor
  · rintro ⟨_, rfl, h⟩
    exact h
  · exact fun h => ⟨cs, rfl, h⟩

/-- the frame part of a call, with a start byte at hand -/
theorem receiveFrame_from {cs : List Decoded} {P : List Decoded → Prop} {start : Byte}
    {bs : List Byte} (h : Receiving d (start :: bs) cs w)
    (hk : ∀ w', Receiving d bs cs w' →
      Finishes (receiveStarted start) w' fun _ => Left d more P) :
    Finishes receiveFrame w fun _ => Left d more P := by
  have hbytes : Receiving d ([start] ++ bs) cs w := h
  apply receive_finishes h.attached hbytes.bytes rfl (Nat.succ_pos _)
  intro w₁ hh
  have hr := (hh.handled h.attached).receiving hbytes
  rw [List.append_nil] at hr
  apply finish_seq (hk w₁ hr)
  rintro result w₂ ⟨cs', hP, hr₂⟩
  apply finish_bind
  split
  case isTrue =>
    apply statsIncrement_finishes (hr₂.attached.free _)
    exact finish_pure ⟨cs', hP, hr₂.bump _⟩
  case isFalse => exact finish_pure (finish_pure ⟨cs', hP, hr₂⟩)

theorem receiveFrame_started {cs cs' : List Decoded} {start : Byte} {bs : List Byte}
    (h : Receiving d (start :: bs ++ more) cs w)
    (hk : ∀ w', Receiving d (bs ++ more) cs w' →
      Finishes (receiveStarted start) w' fun _ => Receiving d more (cs ++ cs')) :
    Finishes receiveFrame w fun _ => Receiving d more (cs ++ cs') := by
  apply finish_mono (receiveFrame_from h fun w' hr => finish_mono (hk w' hr) fun _ _ => left_eq.mpr)
  exact fun _ _ => left_eq.mp

theorem receiveFrame_segment {s : Segment} (hs : s.Valid) {cs : List Decoded}
    (h : Receiving d (s.bytes ++ more) cs w) :
    Finishes receiveFrame w fun _ => Receiving d more (cs ++ s.commands) := by
  cases s with
  | frame c =>
    apply receiveFrame_started (show Receiving d (rpV2Start :: (Segment.frame c).bytes.tail ++ more) cs w
      from h)
    intro w₁ hr
    apply finish_mono (receiveV2Frame_frame hs.2 hr.attached hr.bytes)
    intro _ w₂ hh
    exact hh.receiving hr
  | damaged header rest =>
    apply receiveFrame_started (show Receiving d (rpV2Start :: (header ++ rest) ++ more) cs w from h)
    intro w₁ hr
    apply finish_mono (receiveV2Frame_damaged hs hr.attached hr.bytes)
    intro _ w₂ hh
    exact hh.receiving hr
  | junk b =>
    apply receiveFrame_started (show Receiving d (b :: [] ++ more) cs w from h)
    intro w₁ hr
    unfold receiveStarted
    rw [if_neg hs.2, if_neg hs.1]
    apply finish_bind
    apply statsIncrement_finishes (hr.attached.free _)
    apply finish_pure
    show Receiving d more (cs ++ []) _
    rw [List.append_nil]
    exact hr.bump _

/-- nothing is left to arrive -/
theorem receiveFrame_empty {cs : List Decoded} (h : Receiving d [] cs w) :
    Finishes receiveFrame w fun _ => Receiving d [] cs := by
  apply finish_bind
  apply finish_load
  rw [h.attached.desc]
  apply finish_seq (raspikeComReceiveTimeout_finishes (by decide) h.attached.listening)
  intro r w₁ hr
  have hnil : ∀ {bs : List Byte}, Took d (w.log (.io d .receive)) bs w₁ → bs = [] := fun ht =>
    (List.append_eq_nil_iff.mp (ht.bytes.symm.trans h.bytes)).1
  cases hr with
  | ok ht hlen =>
    rw [hnil ht] at hlen
    cases hlen
  | short ht =>
    rw [hnil ht] at ht
    have hr := (ht.heard.handled h.attached).receiving (show Receiving d ([] ++ []) cs w from h)
    rw [List.append_nil] at hr
    exact finish_pure hr

/-- after a section under a mutex no mutex is held -/
theorem released_free {w w' : Solo} {l : Mutex} (hfree : ∀ k, w.own k = none)
    (h : w'.own = (w.acquire () l).own) (k : Mutex) : (w'.release l).own k = none := by
  rw [World.release_own, h, World.acquire_own]
  split
  · rfl
  · exact hfree k

/-- the `done` section -/
theorem receiveDone_finishes {rest : List Byte} {cs : List Decoded} (h : Receiving d rest cs w) :
    Finishes receiveDone w fun _ => Receiving d rest cs := by
  have hend : ∀ m, m.com = w.mem.com → m.fgDesc = w.mem.fgDesc →
      m.fgStopCommunication = w.mem.fgStopCommunication →
      m.fgHandshakeComplete = w.mem.fgHandshakeComplete →
      Receiving d rest cs (({ w.acquire () .fgLifecycle with
        mem := m, trace := ((), .receiverOut) :: w.trace } : Solo).release .fgLifecycle) := by
    intro m hcom hdesc hstop hhs
    apply (h.log .receiverOut rfl).same
    · exact hcom
    · exact hdesc
    · exact hstop
    · exact hhs
    · rfl
    · exact released_free h.attached.free rfl
  apply finish_bind
  apply finish_lock (h.attached.free _)
  apply finish_bind
  apply finish_act
  apply finish_bind
  apply finish_load
  apply finish_bind
  split
  case isTrue =>
    apply finish_broadcast
    apply finish_unlock
    exact hend _ rfl rfl rfl rfl
  case isFalse =>
    apply finish_pure
    apply finish_unlock
    exact hend _ rfl rfl rfl rfl

/-- the entry section of the call, the frame part, and the `done` section -/
theorem raspikeProtReceive_around {rest rest' : List Byte} {cs : List Decoded}
    {P : List Decoded → Prop} (h : Receiving d rest cs w)
    (hk : ∀ w', Receiving d rest cs w' → Finishes receiveFrame w' fun _ => Left d rest' P) :
    Finishes raspikeProtReceive w fun _ => Left d rest' P := by
  have hdesc : w.mem.fgDesc.isNone = false := by
    rw [h.attached.desc]
    rfl
  apply finish_bind
  apply finish_lock (h.attached.free _)
  apply finish_bind
  apply finish_orElse
  apply finish_load
  rw [World.acquire_mem, h.stop]
  apply finish_orElse
  apply finish_load
  rw [World.acquire_mem, hdesc]
  apply finish_load
  rw [World.acquire_mem, h.handshake]
  apply finish_bind
  apply finish_act
  apply finish_bind
  apply finish_unlock
  apply finish_seq (hk _ ?_)
  · rintro result w₁ ⟨cs', hP, hr⟩
    apply finish_bind
    apply finish_mono (receiveDone_finishes hr)
    intro _ w₂ hr₂
    exact finish_pure ⟨cs', hP, hr₂⟩
  · apply (h.log .receiverIn rfl).same
    case hfree => exact released_free h.attached.free rfl
    all_goals rfl

theorem raspikeProtReceive_finishes {rest rest' : List Byte} {cs cs' : List Decoded}
    (h : Receiving d rest cs w)
    (hk : ∀ w', Receiving d rest cs w' →
      Finishes receiveFrame w' fun _ => Receiving d rest' cs') :
    Finishes raspikeProtReceive w fun _ => Receiving d rest' cs' := by
  apply finish_mono (raspikeProtReceive_around h fun w' hr => finish_mono (hk w' hr) fun _ _ => left_eq.mpr)
  exact fun _ _ => left_eq.mp

/-! ## a run of calls -/

/-- one call of the thread: a segment, or nothing more -/
theorem receiveCall_finishes {segs : List Segment} (hs : ∀ s ∈ segs, s.Valid) {cs : List Decoded}
    (h : Receiving d (segs.flatMap Segment.bytes) cs w) :
    Finishes (Op.run (.api .receive)) w fun _ =>
      Receiving d ((segs.drop 1).flatMap Segment.bytes)
        (cs ++ (segs.take 1).flatMap Segment.commands) := by
  apply finish_bind
  apply finish_tick
  apply finish_bind
  apply finish_bind
  have hcall := h.log (.call .receive) rfl
  have hbody : Finishes raspikeProtReceive (w.log (.call .receive)) fun _ =>
      Receiving d ((segs.drop 1).flatMap Segment.bytes)
        (cs ++ (segs.take 1).flatMap Segment.commands) := by
    apply raspikeProtReceive_finishes hcall
    intro w₁ hr
    cases segs with
    | nil =>
      show Finishes _ _ fun _ => Receiving d [] (cs ++ [])
      rw [List.append_nil]
      exact receiveFrame_empty hr
    | cons s segs =>
      show Finishes _ _ fun _ => Receiving d (segs.flatMap Segment.bytes) (cs ++ (s.commands ++ []))
      rw [List.append_nil]
      exact receiveFrame_segment (hs s List.mem_cons_self) hr
  apply finish_mono hbody
  intro r w₁ hr
  apply finish_pure
  apply finish_tick
  exact hr.log _ rfl

theorem receiveCalls_finishes {segs : List Segment} (hs : ∀ s ∈ segs, s.Valid) {cs : List Decoded}
    (k : Nat) (h : Receiving d (segs.flatMap Segment.bytes) cs w) :
    Finishes (forEach (List.replicate k (.api .receive)) Op.run) w fun _ =>
      Receiving d ((segs.drop k).flatMap Segment.bytes)
        (cs ++ (segs.take k).flatMap Segment.commands) := by
  induction k generalizing segs cs w with
  | zero =>
    show Finishes _ _ fun _ => Receiving d (segs.flatMap Segment.bytes) (cs ++ [])
    rw [List.append_nil]
    exact finish_pure h
  | succ k ih =>
    apply finish_seq (receiveCall_finishes hs h)
    intro _ w₁ hr
    apply finish_mono (ih (fun s hmem => hs s (List.mem_of_mem_drop hmem)) hr)
    intro _ w₂ hr₂
    rw [List.drop_drop, List.append_assoc, ← List.flatMap_append, ← List.take_add,
      Nat.add_comm 1 k] at hr₂
    exact hr₂

/-- what a successful `raspike_prot_init` leaves of what a receiver looks at -/
structure Tuned (d : Nat) (m : Mem) : Prop where
  desc : m.fgDesc = some d
  stop : m.fgStopCommunication = false
  handshake : m.fgHandshakeComplete = true
  usb : (m.com.desc d).type = rpComTypeUsb
  fd : 0 ≤ (m.com.desc d).desc

/-- **The stream is decoded**: after `k` calls of `raspike_prot_receive`, `process_command` has been
called for the frames among the first `k` segments, in order, each with what it encodes. -/
theorem stream_decoded {segs : List Segment} (hs : ∀ s ∈ segs, s.Valid) {m : Mem} (hm : Tuned d m)
    (hready : ∀ x ∈ (m.com.desc d).rx, Ready x)
    (hrx : arrives (m.com.desc d).rx = segs.flatMap Segment.bytes) (k : Nat) :
    ∃ n c, exec (solo m (List.replicate k (.api .receive))) (steps n ()) = some c ∧
      c.thr () = .ret () ∧ commandsOf c.trace = (segs.take k).flatMap Segment.commands := by
  have hstart : Receiving d (segs.flatMap Segment.bytes) [] ⟨m, fun _ => none, []⟩ :=
    ⟨⟨⟨hm.usb, hm.fd, hready⟩, hm.desc, fun _ => rfl⟩, hm.stop, hm.handshake, hrx, rfl⟩
  obtain ⟨_, w', hends, hr⟩ := receiveCalls_finishes hs k hstart
  obtain ⟨n, hn⟩ := hends.exec .ret
  rw [Prog.bind_ret] at hn
  exact ⟨n, ⟨w', fun _ => .ret ()⟩, hn, rfl, hr.commands⟩

end

/-- a junk byte, a slot of another version, and a frame -/
def mixedStream : List Segment :=
  [.junk 0x55, .damaged (List.replicate 13 0) [1, 2], .frame ⟨0, rpCmdIdAck, 0, 1, 7, [5, 6]⟩]

/-- the device interrupts a read, delivers two bytes, has nothing for a moment, and delivers the rest -/
def mixedRx : List RxItem :=
  [.fail ⟨4, by decide⟩, .data ((mixedStream.flatMap Segment.bytes).take 2), .fail eagain,
    .data ((mixedStream.flatMap Segment.bytes).drop 2)]

theorem stream_decoded_mixed : ∃ n c,
    exec (solo (freshMem mixedRx []) (List.replicate 3 (.api .receive))) (steps n ()) = some c ∧
      c.thr () = .ret () ∧
      commandsOf c.trace = (mixedStream.take 3).flatMap Segment.commands := by
  apply stream_decoded (d := 0)
  · intro s hs
    obtain rfl | rfl | rfl : s = .junk 0x55 ∨ s = .damaged (List.replicate 13 0) [1, 2] ∨
        s = .frame ⟨0, rpCmdIdAck, 0, 1, 7, [5, 6]⟩ := by
      simpa [mixedStream] using hs
    · exact ⟨by decide, by decide⟩
    · exact ⟨rfl, rfl, .inl (by decide)⟩
    · exact ⟨by decide, by decide⟩
  · exact ⟨rfl, rfl, rfl, rfl, (by decide : (0 : Int) ≤ 3)⟩
  · intro x hx
    obtain rfl | rfl | rfl | rfl : x = .fail ⟨4, by decide⟩ ∨
        x = .data ((mixedStream.flatMap Segment.bytes).take 2) ∨ x = .fail eagain ∨
        x = .data ((mixedStream.flatMap Segment.bytes).drop 2) := by
      simpa [mixedRx, freshMem] using hx
    · exact .inl rfl
    · exact (by decide +kernel : (mixedStream.flatMap Segment.bytes).take 2 ≠ [])
    · exact .inr rfl
    · exact (by decide +kernel : (mixedStream.flatMap Segment.bytes).drop 2 ≠ [])
  · decide +kernel

end RaspikeArt
