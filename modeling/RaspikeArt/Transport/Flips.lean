import RaspikeArt.Transport.Handling
import RaspikeArt.Checksum.Crc

/-!
# Transport, part 13: flipped bits

A v2 frame of which bits other than those of the start byte and the size byte are flipped on the
way: the receiver still finds the slot.  `receiveV2Frame_flipped` says when `process_command` is
called for it all the same.

* `few_flips`   never for one, two or three flips, or an odd number;
* `burst`       never for a burst before the checksum or in it; one that crosses from the one into
                the other gets through exactly if its two parts cancel.
-/

namespace RaspikeArt
open Threads

/-- the thirteen bytes between the start byte and the payload -/
def v2Header (port cmd flags : Byte) (size : Nat) (sequence session : U32) : List Byte :=
  [rpV2Version, flags, cmd, port, BitVec.ofNat 8 size] ++ rpV2PutU32 sequence ++ rpV2PutU32 session

/-- the flips `e` leave the start byte and the size byte of a frame alone -/
structure Spares (e frame : List Byte) : Prop where
  length : e.length = frame.length
  start : e.getD 0 0 = 0
  size : e.getD 5 0 = 0

/-- the flips before the checksum, and in it -/
def bodyFlips (e : List Byte) : List Byte := (e.drop 1).take (e.length - 3)
def checksumFlips (e : List Byte) : List Byte := e.drop (e.length - 2)

section
variable {port cmd flags : Byte} {sequence session : U32} {payload e : List Byte}

/-- the parts of the flips: header, payload and checksum -/
structure Parts (payload e eh ep ec : List Byte) : Prop where
  eq : e = 0 :: (eh ++ ep ++ ec)
  header : eh.length = 13
  payload : ep.length = payload.length
  checksum : ec.length = 2
  size : eh.getD 4 0 = 0

theorem Parts.body {eh ep ec : List Byte} (h : Parts payload e eh ep ec) : bodyFlips e = eh ++ ep := by
  have hlen : e.length - 3 = (eh ++ ep).length := by
    rw [h.eq, List.length_cons, List.length_append, h.checksum]
    omega
  rw [bodyFlips, hlen, h.eq]
  show (eh ++ ep ++ ec).take _ = _
  exact List.take_left

theorem Parts.checksum_eq {eh ep ec : List Byte} (h : Parts payload e eh ep ec) :
    checksumFlips e = ec := by
  have hlen : e.length - 2 = (eh ++ ep).length + 1 := by
    rw [h.eq, List.length_cons, List.length_append, h.checksum]
    omega
  rw [checksumFlips, hlen, h.eq]
  show (eh ++ ep ++ ec).drop _ = _
  exact List.drop_left

theorem Spares.parts (h : Spares e (v2Frame port cmd flags sequence session payload)) :
    ∃ eh ep ec, Parts payload e eh ep ec := by
  have hlen : e.length = 16 + payload.length := by
    rw [h.length]
    simp only [v2Frame, v2Body, rpV2PutU16, rpV2PutU32, List.length_append, List.length_cons,
      List.length_nil]
    omega
  cases e with
  | nil =>
    rw [List.length_nil] at hlen
    omega
  | cons x e =>
    obtain rfl : x = 0 := h.start
    rw [List.length_cons] at hlen
    refine ⟨e.take 13, (e.drop 13).take payload.length, (e.drop 13).drop payload.length, ?_, ?_, ?_,
      ?_, ?_⟩
    · rw [List.append_assoc, List.take_append_drop, List.take_append_drop]
    · rw [List.length_take]
      omega
    · rw [List.length_take, List.length_drop]
      omega
    · rw [List.length_drop, List.length_drop]
      omega
    · have hsize : e.getD 4 0 = 0 := h.size
      rwa [List.getD_eq_getElem?_getD, List.getElem?_take_of_lt (by omega),
        ← List.getD_eq_getElem?_getD]

/-- the bytes after the start byte, as they arrive -/
theorem Parts.tail {eh ep ec : List Byte} (h : Parts payload e eh ep ec) :
    (flip (v2Frame port cmd flags sequence session payload) e).tail =
      flip (v2Header port cmd flags payload.length sequence session) eh ++
        (flip payload ep ++
          flip (rpV2PutU16 (rpV2Crc16 (v2Body port cmd flags sequence session payload))) ec) := by
  rw [h.eq]
  show flip (v2Header port cmd flags payload.length sequence session ++ payload ++ _)
    (eh ++ ep ++ ec) = _
  rw [flip_append, flip_append h.header, List.append_assoc]
  · rw [List.length_append, List.length_append, h.header, h.payload]
    rfl

theorem flip_getD {data e : List Byte} (h : data.length = e.length) (i : Nat) :
    (flip data e).getD i 0 = data.getD i 0 ^^^ e.getD i 0 := by
  simp only [flip, List.getD_eq_getElem?_getD, List.getElem?_zipWith]
  by_cases hi : i < data.length
  · rw [List.getElem?_eq_getElem hi, List.getElem?_eq_getElem (h ▸ hi)]
    rfl
  · rw [List.getElem?_eq_none (by omega), List.getElem?_eq_none (by omega)]
    rfl

/-- the flips that the receiver does not see: the version is intact, and the checksum is hit by the
remainder of the flips before it -/
def Missed (e : List Byte) : Prop :=
  e.getD 1 0 = 0 ∧ rpV2GetU16 (checksumFlips e) = syndrome (bodyFlips e)

/-- a flipped slot, as the receiver reads it -/
structure Slot (e header rest : List Byte) : Prop where
  header_length : header.length = 13
  size : (header.getD 4 0).toNat ≤ rpV2MaxPayload
  rest_length : rest.length = (header.getD 4 0).toNat + 2
  version : header.getD 0 0 = rpV2Version ↔ e.getD 1 0 = 0
  crc : rpV2GetU16 (rest.drop (header.getD 4 0).toNat) =
      rpV2Crc16 (header ++ rest.take (header.getD 4 0).toNat) ↔
    rpV2GetU16 (checksumFlips e) = syndrome (bodyFlips e)

theorem Spares.slot (hs : Spares e (v2Frame port cmd flags sequence session payload))
    (hpay : payload.length ≤ rpV2MaxPayload) : ∃ header rest, Slot e header rest ∧
      (flip (v2Frame port cmd flags sequence session payload) e).tail = header ++ rest := by
  obtain ⟨eh, ep, ec, hp⟩ := hs.parts
  have hh : (v2Header port cmd flags payload.length sequence session).length = eh.length :=
    hp.header.symm
  have hlen : (flip payload ep).length = payload.length := flip_length hp.payload
  have hsize : ((flip (v2Header port cmd flags payload.length sequence session) eh).getD 4 0).toNat =
      payload.length := by
    rw [flip_getD hh, hp.size]
    show (BitVec.ofNat 8 payload.length ^^^ 0#8).toNat = _
    rw [BitVec.xor_zero, BitVec.toNat_ofNat, Nat.mod_eq_of_lt (Nat.lt_of_le_of_lt hpay (by decide))]
  refine ⟨_, _, ?_, hp.tail⟩
  constructor
  · rw [flip_length hh.symm, hh, hp.header]
  · rwa [hsize]
  · rw [hsize, List.length_append, hlen, flip_length hp.checksum]
    rfl
  · have hver : e.getD 1 0 = eh.getD 0 0 := by
      rw [hp.eq]
      show (eh ++ ep ++ ec).getD 0 0 = _
      rw [List.append_assoc, List.getD_eq_getElem?_getD, List.getD_eq_getElem?_getD,
        List.getElem?_append_left (by rw [hp.header]; decide)]
    rw [flip_getD hh, hver]
    show rpV2Version ^^^ _ = rpV2Version ↔ _
    exact (by decide +kernel : ∀ x : Byte, rpV2Version ^^^ x = rpV2Version ↔ x = 0) _
  · rw [hsize, ← hlen, List.drop_left, List.take_left, hlen, hp.body, hp.checksum_eq,
      ← flip_append hh.symm]
    apply checksum_blind (e := eh ++ ep) _ hp.checksum
    rw [List.length_append, ← hh, hp.payload]
    exact List.length_append

/-! ## what the receiver does with it -/

variable {d : Nat} {w : Solo} {more : List Byte}

/-- the slot is rejected and counted, and nothing else has changed -/
def Rejected (d : Nat) (w : Solo) (bs : List Byte) (r : Int) (w' : Solo) : Prop :=
  (r = -EBADMSG ∨ r = -EPROTONOSUPPORT) ∧ Heard d w bs w' ∧ commandsOf w'.trace = commandsOf w.trace

theorem receiveV2Frame_seen (hpay : payload.length ≤ rpV2MaxPayload)
    (hs : Spares e (v2Frame port cmd flags sequence session payload)) (ha : Attached d w)
    (hrx : arrives (w.rx d) = (flip (v2Frame port cmd flags sequence session payload) e).tail ++ more)
    (hseen : ¬Missed e) :
    Finishes receiveV2Frame w
      (Rejected d w (flip (v2Frame port cmd flags sequence session payload) e).tail) := by
  obtain ⟨header, rest, hslot, htail⟩ := hs.slot hpay
  rw [htail] at hrx ⊢
  rw [List.append_assoc] at hrx
  by_cases hv : e.getD 1 0 = 0
  · apply finish_mono (receiveV2Frame_crc ha hslot.header_length hslot.rest_length hrx
      (hslot.version.mpr hv) hslot.size fun hcrc => hseen ⟨hv, hslot.crc.mp hcrc⟩)
    rintro r w' ⟨rfl, hh⟩
    exact ⟨.inl rfl, hh, hh.commands⟩
  · apply finish_mono (receiveV2Frame_version ha hslot.header_length hslot.rest_length hrx
      fun hv' => hv (hslot.version.mp hv'))
    rintro r w' ⟨rfl, hh⟩
    exact ⟨.inr rfl, hh, hh.commands⟩

theorem receiveV2Frame_missed (hpay : payload.length ≤ rpV2MaxPayload)
    (hs : Spares e (v2Frame port cmd flags sequence session payload)) (ha : Attached d w)
    (hrx : arrives (w.rx d) = (flip (v2Frame port cmd flags sequence session payload) e).tail ++ more)
    (hmissed : Missed e) :
    Finishes receiveV2Frame w fun _ w' => ∃ c, commandsOf w'.trace = commandsOf w.trace ++ [c] := by
  obtain ⟨header, rest, hslot, htail⟩ := hs.slot hpay
  rw [htail, List.append_assoc] at hrx
  apply finish_mono (receiveV2Frame_accepted ha hslot.header_length hslot.rest_length hrx
    (hslot.version.mpr hmissed.1) hslot.size (hslot.crc.mpr hmissed.2))
  intro r w' hh
  exact ⟨_, hh.commands⟩

/-! ## few flips, and bursts -/

/-- a connected library whose device has sent `bs` -/
def deviceWorld (bs : List Byte) : Solo := ⟨freshMem [.data bs] [], fun _ => none, []⟩

theorem deviceWorld_attached {bs : List Byte} (h : bs ≠ []) : Attached 0 (deviceWorld bs) := by
  refine ⟨⟨rfl, (by decide : (0 : Int) ≤ 3), ?_⟩, rfl, fun _ => rfl⟩
  intro x hx
  obtain rfl : x = .data bs := List.mem_singleton.mp hx
  exact h

theorem deviceWorld_arrives (bs : List Byte) : arrives ((deviceWorld bs).rx 0) = bs ++ [] := rfl

theorem Parts.weight {eh ep ec : List Byte} (h : Parts payload e eh ep ec) :
    RaspikeArt.weight e = RaspikeArt.weight (bodyFlips e) + RaspikeArt.weight (checksumFlips e) := by
  have h0 : RaspikeArt.weight [(0 : Byte)] = 0 := by decide
  rw [h.body, h.checksum_eq, h.eq, weight_cons, weight_append, h0, Nat.zero_add]

/-- **Few flips never get through.** -/
theorem few_flips (hpay : payload.length ≤ rpV2MaxPayload)
    (hs : Spares e (v2Frame port cmd flags sequence session payload))
    (hw : 0 < weight e ∧ weight e ≤ 3 ∨ weight e % 2 = 1) (ha : Attached d w)
    (hrx : arrives (w.rx d) =
      (flip (v2Frame port cmd flags sequence session payload) e).tail ++ more) :
    Finishes receiveV2Frame w
      (Rejected d w (flip (v2Frame port cmd flags sequence session payload) e).tail) := by
  apply receiveV2Frame_seen hpay hs ha hrx
  rintro ⟨-, hcrc⟩
  obtain ⟨eh, ep, ec, hp⟩ := hs.parts
  have hlen : (bodyFlips e).length ≤ 253 := by
    rw [hp.body, List.length_append, hp.header, hp.payload]
    exact Nat.add_le_add_left hpay 13
  rw [hp.weight] at hw
  refine few_flips_seen hlen ?_ (by omega) hcrc
  rw [hp.checksum_eq, hp.checksum]

/-- one flip in the flags and two in the checksum -/
theorem few_flips_three :
    Finishes receiveV2Frame (deviceWorld (flip (v2Frame 0 rpCmdIdAck 0 1 7 [5])
        ([0, 0, 1] ++ List.replicate 12 0 ++ [0x80, 1])).tail)
      (Rejected 0 (deviceWorld (flip (v2Frame 0 rpCmdIdAck 0 1 7 [5])
        ([0, 0, 1] ++ List.replicate 12 0 ++ [0x80, 1])).tail)
        (flip (v2Frame 0 rpCmdIdAck 0 1 7 [5]) ([0, 0, 1] ++ List.replicate 12 0 ++ [0x80, 1])).tail) :=
  few_flips (by decide) ⟨by decide, rfl, rfl⟩ (by decide +kernel) (deviceWorld_attached (by decide))
    (deviceWorld_arrives _)

/-- a burst that stays on one side of the checksum's first bit is seen -/
theorem Spares.burst_seen (hs : Spares e (v2Frame port cmd flags sequence session payload))
    (hb : Burst 16 (bits e)) (hside : weight (bodyFlips e) = 0 ∨ weight (checksumFlips e) = 0) :
    ¬Missed e := by
  rintro ⟨-, hcrc⟩
  obtain ⟨eh, ep, ec, hp⟩ := hs.parts
  have hbits : bits e = bits [0] ++ bits (bodyFlips e) ++ bits (checksumFlips e) := by
    rw [hp.body, hp.checksum_eq, hp.eq, ← bits_append, ← bits_append]
    rfl
  have hzero : true ∉ bits [0] := by decide
  obtain hside | hside := hside
  · rw [syndrome_zero hside, hp.checksum_eq] at hcrc
    rw [hbits] at hb
    have hmem := hb.1
    match ec, hp.checksum with
    | [x, y], _ =>
      obtain ⟨rfl, rfl⟩ := u16_eq_zero hcrc
      rw [hp.checksum_eq, List.mem_append, List.mem_append] at hmem
      have hbody : true ∉ bits (bodyFlips e) := List.count_eq_zero.mp hside
      have hfield : true ∉ bits [(0 : Byte), 0] := by decide
      tauto
  · have hfield : true ∉ bits (checksumFlips e) := List.count_eq_zero.mp hside
    rw [hbits] at hb
    apply RaspikeArt.burst_seen (hb.middle hzero hfield)
    rw [← hcrc]
    match hc : checksumFlips e, (hp.checksum_eq ▸ hp.checksum : (checksumFlips e).length = 2) with
    | [x, y], _ =>
      rw [hc, weight_cons] at hside
      rw [weight_byte_zero x (by omega), weight_byte_zero y (by omega)]
      rfl

/-- **Bursts** before the checksum or in it never get through, and one that crosses from the one
into the other does exactly if its two parts cancel. -/
theorem burst (hpay : payload.length ≤ rpV2MaxPayload)
    (hs : Spares e (v2Frame port cmd flags sequence session payload)) (hb : Burst 16 (bits e))
    (ha : Attached d w) (hrx : arrives (w.rx d) =
      (flip (v2Frame port cmd flags sequence session payload) e).tail ++ more) :
    (weight (bodyFlips e) = 0 ∨ weight (checksumFlips e) = 0 → ¬Missed e) ∧
    (¬Missed e → Finishes receiveV2Frame w
      (Rejected d w (flip (v2Frame port cmd flags sequence session payload) e).tail)) ∧
    (Missed e → Finishes receiveV2Frame w fun _ w' =>
      ∃ c, commandsOf w'.trace = commandsOf w.trace ++ [c]) :=
  ⟨hs.burst_seen hb, receiveV2Frame_seen hpay hs ha hrx, receiveV2Frame_missed hpay hs ha hrx⟩

end

/-- thirteen bits from the last bit of the payload into the checksum -/
def crossing : List Byte := List.replicate 14 0 ++ [0x01, 0x21, 0x10]

theorem crossing_burst : Burst 16 (bits crossing) := by
  have hwin : ∀ i < 136, (bits crossing)[i]? = some true → 119 ≤ i ∧ i < 119 + 16 := by
    decide +kernel
  refine ⟨by decide +kernel, 119, fun i hi => ?_⟩
  have hlt := (List.getElem?_eq_some_iff.mp hi).1
  rw [bits_length] at hlt
  exact hwin i hlt hi

theorem crossing_missed : Missed crossing := by
  unfold Missed
  decide +kernel

theorem burst_crossing :
    (weight (bodyFlips crossing) = 0 ∨ weight (checksumFlips crossing) = 0 → ¬Missed crossing) ∧
    (¬Missed crossing → Finishes receiveV2Frame
      (deviceWorld (flip (v2Frame 0 rpCmdIdAck 0 1 7 [5]) crossing).tail)
      (Rejected 0 (deviceWorld (flip (v2Frame 0 rpCmdIdAck 0 1 7 [5]) crossing).tail)
        (flip (v2Frame 0 rpCmdIdAck 0 1 7 [5]) crossing).tail)) ∧
    (Missed crossing → Finishes receiveV2Frame
      (deviceWorld (flip (v2Frame 0 rpCmdIdAck 0 1 7 [5]) crossing).tail) fun _ w' =>
      ∃ c, commandsOf w'.trace = commandsOf ([] : Trace Unit) ++ [c]) :=
  burst (by decide) ⟨by decide, rfl, rfl⟩ crossing_burst (deviceWorld_attached (by decide))
    (deviceWorld_arrives _)

/-- a burst of thirteen bits for which `process_command` is called -/
theorem burst_gets_through :
    Spares crossing (v2Frame 0 rpCmdIdAck 0 1 7 [5]) ∧ Burst 16 (bits crossing) ∧
    Finishes receiveV2Frame (deviceWorld (flip (v2Frame 0 rpCmdIdAck 0 1 7 [5]) crossing).tail)
      fun _ w' => ∃ c, commandsOf w'.trace = [c] :=
  ⟨⟨by decide, rfl, rfl⟩, crossing_burst, receiveV2Frame_missed (by decide) ⟨by decide, rfl, rfl⟩
    (deviceWorld_attached (by decide)) (deviceWorld_arrives _) crossing_missed⟩

end RaspikeArt
