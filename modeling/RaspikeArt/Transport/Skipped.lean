import RaspikeArt.Transport.Stream

/-!
# Transport, part 15: what one call consumes

* `WireFrame`        a frame of either format that is complete on the wire, whatever it contains;
* `Skipped f`        it is a v2 frame, or its port is valid, or it has no payload;
* `frame_consumed`   the call that reads the start byte of a frame consumes this frame and nothing
                     else, exactly if it is `Skipped`: `receive_v2_frame` discards what it refuses,
                     `receive_legacy_frame` returns before the payload of an invalid port;
* `stray_payload`    such a payload is taken for a frame by the next call.
-/

namespace RaspikeArt
open Threads

inductive WireFrame where
  | legacy (cmd port : Byte) (payload : List Byte) (hlen : payload.length < 256)
  /-- the rest of the header; payload and checksum -/
  | v2 (header rest : List Byte) (hlen : header.length = 13)
      (hrest : rest.length = (header.getD 4 0).toNat + 2)

namespace WireFrame

def bytes : WireFrame → List Byte
  | legacy cmd port payload _ => legacyFrame port cmd payload
  | v2 header rest _ _ => rpV2Start :: (header ++ rest)

def Skipped : WireFrame → Prop
  | legacy _ port payload _ => raspikeIsValidPort port = true ∨ payload = []
  | v2 .. => True

end WireFrame

section
variable {d : Nat} {w : Solo} {more : List Byte} {cs : List Decoded}

/-! ## a v2 frame -/

theorem receiveV2Frame_consumes {header rest : List Byte} (hlen : header.length = 13)
    (hrest : rest.length = (header.getD 4 0).toNat + 2) (ha : Attached d w)
    (hrx : arrives (w.rx d) = header ++ rest ++ more) :
    Finishes receiveV2Frame w fun _ w' => ∃ cs, Handled d w (header ++ rest) cs w' := by
  by_cases hvalid : (Segment.damaged header rest).Valid
  · apply finish_mono (receiveV2Frame_damaged hvalid ha hrx)
    exact fun _ _ hh => ⟨[], hh⟩
  · have hgood : header.getD 0 0 = rpV2Version ∧ (header.getD 4 0).toNat ≤ rpV2MaxPayload ∧
        rpV2GetU16 (rest.drop (header.getD 4 0).toNat) =
          rpV2Crc16 (header ++ rest.take (header.getD 4 0).toNat) := by
      by_contra hbad
      apply hvalid
      refine ⟨hlen, hrest, ?_⟩
      simpa only [not_and_or, Nat.not_le] using hbad
    rw [List.append_assoc] at hrx
    apply finish_mono (receiveV2Frame_accepted ha hlen hrest hrx hgood.1 hgood.2.1 hgood.2.2)
    exact fun _ _ hh => ⟨_, hh⟩

/-! ## a legacy frame -/

section
variable {header payload : List Byte}

/-- `receive_legacy_frame` with its header at hand -/
theorem receiveLegacyFrame_header {Q : Int → Solo → Prop} (hlen : header.length = 3)
    (h : Receiving d (header ++ more) cs w)
    (hk : ∀ w', Receiving d more cs w' → Finishes (receiveLegacyBody header) w' Q) :
    Finishes receiveLegacyFrame w Q := by
  apply receive_finishes h.attached h.bytes hlen (by decide)
  intro w₁ hh
  have hr := (hh.handled h.attached).receiving h
  rw [List.append_nil] at hr
  exact hk w₁ hr

/-- the header of a frame for no port is all that is read -/
theorem receiveLegacyFrame_refused (hlen : header.length = 3)
    (hport : raspikeIsValidPort (header.getD 2 0) = false)
    (h : Receiving d (header ++ more) cs w) :
    Finishes receiveLegacyFrame w fun r w' => r = -EPROTO ∧ Receiving d more cs w' := by
  apply receiveLegacyFrame_header hlen h
  intro w₁ hr
  unfold receiveLegacyBody
  rw [if_pos (.inr (by rw [hport]; rfl))]
  apply finish_bind
  apply statsIncrement_finishes (hr.attached.free _)
  exact finish_pure ⟨rfl, hr.bump _⟩

/-- `process_command` from the receiver -/
theorem processCommand_receiving (port cmd flags : Byte) (sequence session : U32)
    (h : Receiving d more cs w) :
    Finishes (processCommand port cmd flags sequence session payload) w fun _ =>
      Receiving d more (cs ++ [⟨port, cmd, flags, sequence, session, payload⟩]) := by
  apply finish_mono (processCommand_finishes h.attached.free port cmd flags sequence session payload)
  rintro _ w' ⟨hfree, hb⟩
  have hcalled : commandsOf (w.log (.command port cmd flags sequence session payload)).trace =
      cs ++ [⟨port, cmd, flags, sequence, session, payload⟩] := by
    rw [Solo.log, commandsOf_cons, h.commands]
    rfl
  have hcommand : Receiving d more (cs ++ [⟨port, cmd, flags, sequence, session, payload⟩])
      (w.log (.command port cmd flags sequence session payload)) :=
    ⟨⟨⟨h.attached.listening.usb, h.attached.listening.fd, h.attached.listening.ready⟩,
      h.attached.desc, h.attached.free⟩, h.stop, h.handshake, h.bytes, hcalled⟩
  exact hcommand.same hb.com hb.desc hb.stop hb.handshake hb.commands hfree

theorem receiveLegacyFrame_taken (hlen : header.length = 3)
    (hsize : (header.getD 1 0).toNat = payload.length)
    (hport : raspikeIsValidPort (header.getD 2 0) = true)
    (h : Receiving d (header ++ (payload ++ more)) cs w) :
    Finishes receiveLegacyFrame w fun _ w' => ∃ session,
      Receiving d more (cs ++ [⟨header.getD 2 0, header.getD 0 0, 0, 0, session, payload⟩]) w' := by
  have hend : ∀ w', Receiving d more cs w' → Finishes (do
      tick (.legacyFrame (rpCmdStart :: header ++ payload))
      statsIncrement .rxLegacyFrames
      let session ← load fun m => m.fgSessionId
      processCommand (header.getD 2 0) (header.getD 0 0) 0 0 session payload) w' fun _ w' => ∃ session,
        Receiving d more (cs ++ [⟨header.getD 2 0, header.getD 0 0, 0, 0, session, payload⟩]) w' := by
    intro w₂ hr
    have hlog := hr.log (.legacyFrame (rpCmdStart :: header ++ payload)) rfl
    apply finish_bind
    apply finish_tick
    apply finish_bind
    apply statsIncrement_finishes (hlog.attached.free _)
    apply finish_bind
    apply finish_load
    apply finish_mono (processCommand_receiving _ _ _ _ _ (hlog.bump _))
    exact fun _ _ hr' => ⟨_, hr'⟩
  apply receiveLegacyFrame_header hlen h
  intro w₁ hr
  have hsmall : ¬ ((header.getD 1 0).toNat > rpProtocolBufmax ∨
      (!raspikeIsValidPort (header.getD 2 0)) = true) := by
    rw [hport]
    rintro (hbig | hbad)
    · have hlt := (header.getD 1 0).isLt
      have hmax : rpProtocolBufmax = 256 := rfl
      omega
    · cases hbad
  unfold receiveLegacyBody
  rw [if_neg hsmall]
  apply finish_bind
  by_cases hpos : payload.length > 0
  · rw [if_pos (by rwa [hsize])]
    apply finish_bind
    apply finish_load
    rw [hr.attached.desc, hsize]
    apply finish_mono (raspikeComReceiveTimeout_gets (List.ne_nil_of_length_pos hpos)
      hr.attached.listening hr.bytes)
    rintro r w₂ ⟨rfl, ht⟩
    have hr₂ := (ht.heard.handled hr.attached).receiving hr
    rw [List.append_nil] at hr₂
    exact hend w₂ hr₂
  · rw [if_neg (by rwa [hsize])]
    obtain rfl : payload = [] := List.length_eq_zero_iff.mp (by omega)
    exact finish_pure (hend w₁ hr)

end

/-! ## one call -/

/-- a call that finds a start byte -/
theorem raspikeProtReceive_from {start : Byte} {bs : List Byte} {P : List Decoded → Prop}
    (h : Receiving d (start :: bs) cs w)
    (hk : ∀ w', Receiving d bs cs w' → Finishes (receiveStarted start) w' fun _ => Left d more P) :
    Finishes raspikeProtReceive w fun _ => Left d more P := by
  apply raspikeProtReceive_around h
  intro w₁ hr
  exact receiveFrame_from hr hk

/-- the bytes that are left after the frame -/
def WireFrame.leaves (more : List Byte) : WireFrame → List Byte
  | .legacy _ port payload _ => if raspikeIsValidPort port then more else payload ++ more
  | .v2 .. => more

theorem WireFrame.leaves_eq (f : WireFrame) : f.leaves more = more ↔ f.Skipped := by
  cases f with
  | v2 => exact ⟨fun _ => trivial, fun _ => rfl⟩
  | legacy cmd port payload hlen =>
    show (if raspikeIsValidPort port then more else payload ++ more) = more ↔ _
    split
    case isTrue hport => exact ⟨fun _ => .inl hport, fun _ => rfl⟩
    case isFalse hport =>
      constructor
      · intro h
        have hsize := congrArg List.length h
        rw [List.length_append] at hsize
        exact .inr (List.length_eq_zero_iff.mp (by omega))
      · rintro (hvalid | rfl)
        · exact (hport hvalid).elim
        · rfl

theorem frame_leaves (f : WireFrame) (h : Receiving d (f.bytes ++ more) cs w) :
    Finishes raspikeProtReceive w fun _ => Left d (f.leaves more) fun _ => True := by
  cases f with
  | v2 header rest hlen hrest =>
    have hstart : Receiving d (rpV2Start :: (header ++ rest ++ more)) cs w := h
    apply raspikeProtReceive_from hstart
    intro w₁ hr
    apply finish_mono (receiveV2Frame_consumes hlen hrest hr.attached hr.bytes)
    rintro _ w₂ ⟨cs', hh⟩
    exact ⟨_, trivial, hh.receiving hr⟩
  | legacy cmd port payload hlen =>
    let header : List Byte := [cmd, BitVec.ofNat 8 payload.length, port]
    have hsize : (header.getD 1 0).toNat = payload.length := by
      show (BitVec.ofNat 8 payload.length).toNat = _
      rw [BitVec.toNat_ofNat, Nat.mod_eq_of_lt hlen]
    have hstart : Receiving d (rpCmdStart :: (header ++ (payload ++ more))) cs w := h
    apply raspikeProtReceive_from hstart
    intro w₁ hr
    show Finishes _ w₁ fun _ =>
      Left d (if raspikeIsValidPort port then more else payload ++ more) fun _ => True
    split
    case isTrue hport =>
      apply finish_mono (receiveLegacyFrame_taken rfl hsize hport hr)
      rintro _ w₂ ⟨session, hr₂⟩
      exact ⟨_, trivial, hr₂⟩
    case isFalse hport =>
      have hrefused : raspikeIsValidPort (header.getD 2 0) = false := eq_false_of_ne_true hport
      apply finish_mono (receiveLegacyFrame_refused rfl hrefused hr)
      rintro _ w₂ ⟨-, hr₂⟩
      exact ⟨_, trivial, hr₂⟩

/-- **Whole frames.**  The call that reads the start byte of a frame consumes the bytes of this
frame, and only these, exactly if the frame is not a legacy frame with a payload and no port. -/
theorem frame_consumed (f : WireFrame) (h : Receiving d (f.bytes ++ more) cs w) :
    Finishes raspikeProtReceive w fun _ (w' : Solo) =>
      arrives (w.rx d) = f.bytes ++ arrives (w'.rx d) ↔ f.Skipped := by
  apply finish_mono (frame_leaves f h)
  rintro _ w' ⟨_, -, hr⟩
  rw [h.bytes, hr.bytes, List.append_cancel_left_eq, ← f.leaves_eq]
  exact eq_comm

end

/-! ## a payload that is taken for a frame -/

theorem deviceWorld_receiving {bs : List Byte} (h : bs ≠ []) : Receiving 0 bs [] (deviceWorld bs) :=
  ⟨deviceWorld_attached h, rfl, rfl, List.append_nil bs, rfl⟩

/-- the hub reports an ACK for port 2 -/
def legacyAck : WireFrame := .legacy rpCmdIdAck 2 [1, 0, 0, 0, 1, 0, 0, 0] (by decide)

theorem frame_consumed_ack : Finishes raspikeProtReceive (deviceWorld legacyAck.bytes) fun _ (w' : Solo) =>
    arrives ((deviceWorld legacyAck.bytes).rx 0) = legacyAck.bytes ++ arrives (w'.rx 0) ↔
      legacyAck.Skipped :=
  have hstart : Receiving 0 (legacyAck.bytes ++ []) [] (deviceWorld legacyAck.bytes) :=
    deviceWorld_receiving (List.cons_ne_nil _ _)
  frame_consumed legacyAck hstart

/-- a frame for port 9, which there is not; its payload reads as a frame of its own -/
def strayFrame : WireFrame := .legacy 1 9 (legacyFrame 255 rpCmdIdLinkStats []) (by decide)

/-- **The payload of a refused frame** is the start of what the next call takes. -/
theorem stray_payload :
    Finishes raspikeProtReceive (deviceWorld strayFrame.bytes) (fun _ (w' : Solo) =>
      ¬ arrives ((deviceWorld strayFrame.bytes).rx 0) = strayFrame.bytes ++ arrives (w'.rx 0)) ∧
    Finishes (do let _ ← raspikeProtReceive; raspikeProtReceive) (deviceWorld strayFrame.bytes)
      fun _ w' => ∃ session, commandsOf w'.trace = [⟨255, rpCmdIdLinkStats, 0, 0, session, []⟩] := by
  have hstart : Receiving 0 (strayFrame.bytes ++ []) [] (deviceWorld strayFrame.bytes) :=
    deviceWorld_receiving (List.cons_ne_nil _ _)
  have hfirst : Finishes raspikeProtReceive (deviceWorld strayFrame.bytes) fun _ =>
      Receiving 0 (legacyFrame 255 rpCmdIdLinkStats []) [] := by
    apply raspikeProtReceive_finishes hstart
    intro w₁ hr
    have hframe : Receiving 0 (rpCmdStart :: ([1, 4, 9] ++ legacyFrame 255 rpCmdIdLinkStats [])) [] w₁ :=
      hr
    apply receiveFrame_started hframe
    intro w₂ hr₂
    apply finish_mono (receiveLegacyFrame_refused rfl rfl hr₂)
    exact fun _ _ h => h.2
  constructor
  · apply finish_mono hfirst
    intro _ w₁ hr
    rw [hstart.bytes, hr.bytes]
    decide
  · apply finish_seq hfirst
    intro _ w₁ hr
    have hsecond : Finishes raspikeProtReceive w₁ fun _ => Left 0 [] fun cs => ∃ session,
        cs = [⟨255, rpCmdIdLinkStats, 0, 0, session, []⟩] := by
      have hstart₂ : Receiving 0 (rpCmdStart :: [rpCmdIdLinkStats, 0, 255]) [] w₁ := hr
      apply raspikeProtReceive_from hstart₂
      intro w₂ hr₂
      have hheader : Receiving 0 ([rpCmdIdLinkStats, 0, 255] ++ ([] ++ [])) [] w₂ := hr₂
      apply finish_mono (receiveLegacyFrame_taken rfl rfl rfl hheader)
      rintro _ w₃ ⟨session, hr₃⟩
      exact ⟨_, ⟨session, rfl⟩, hr₃⟩
    apply finish_mono hsecond
    rintro _ w₂ ⟨_, ⟨session, rfl⟩, hr₂⟩
    exact ⟨session, hr₂.commands⟩

end RaspikeArt
