import Mathlib.Data.List.GetD
import RaspikeArt.Model.Bounds
import RaspikeArt.Model.Effects
import RaspikeArt.Transport.Consumed

/-!
# Transport, part 20: the buffers of the receiver

The receiver with checked indices takes the steps of the receiver, and no check fails: one lemma per
function of `Model/Bounds`.
-/

namespace RaspikeArt
open Threads

namespace Checked

variable {r : Region} {xs : List Byte} {i n : Nat}

theorem index_ok {size : Nat} (h : i < size) : index r size i = .ok () := if_pos h

theorem byte_ok (h : i < xs.length) : byte r xs i = .ok (xs.getD i 0) := by
  rw [byte, dif_pos h, List.getD_eq_getElem?_getD, List.getElem?_eq_getElem h, Option.getD_some]

theorem bytes_ok (h : i + n ≤ xs.length) : bytes r xs i n = .ok ((xs.drop i).take n) := if_pos h

theorem put_ok {bs : List Byte} (h : i + bs.length ≤ xs.length) :
    put r xs i bs = .ok (xs.take i ++ bs ++ xs.drop (i + bs.length)) := if_pos h

/-- a part of the first of two arrays that follow each other, and of the second -/
theorem slice_left {ys : List Byte} (h : i + n ≤ xs.length) :
    ((xs ++ ys).drop i).take n = (xs.drop i).take n := by
  have hlen : n ≤ (xs.drop i).length := by
    rw [List.length_drop]
    omega
  rw [List.drop_append_of_le_length (by omega), List.take_append_of_le_length hlen]

theorem slice_right {ys zs : List Byte} (h : i + n ≤ ys.length) :
    ((xs ++ (ys ++ zs)).drop (xs.length + i)).take n = (ys.drop i).take n := by
  rw [List.drop_length_add_append, slice_left h]

theorem getD_take (h : i < n) : (xs.take n).getD i 0 = xs.getD i 0 := by
  rw [List.getD_eq_getElem?_getD, List.getElem?_take, if_pos h, List.getD_eq_getElem?_getD]

theorem getU16_take (h : 2 ≤ n) : rpV2GetU16 (xs.take n) = rpV2GetU16 xs := by
  unfold rpV2GetU16
  rw [getD_take (by omega), getD_take (by omega)]

theorem getU32_take (h : 4 ≤ n) : rpV2GetU32 (xs.take n) = rpV2GetU32 xs := by
  unfold rpV2GetU32
  rw [getD_take (by omega), getD_take (by omega), getD_take (by omega), getD_take (by omega)]

/-- what a receive into `xs` leaves in it -/
def filled (xs : List Byte) (i : Nat) (bs : List Byte) : List Byte := xs.take i ++ bs ++ xs.drop (i + bs.length)

theorem filled_whole {bs : List Byte} (h : bs.length = xs.length) : filled xs 0 bs = bs := by
  rw [filled, Nat.zero_add, h, List.drop_length, List.append_nil]
  rfl

/-- the start of the array -/
theorem filled_front {bs : List Byte} (h : bs.length = n) :
    ((filled xs 0 bs).drop 0).take n = bs := by
  rw [filled, List.append_assoc]
  exact List.take_left' h

theorem filled_length {bs : List Byte} (h : i + bs.length ≤ xs.length) :
    (filled xs i bs).length = xs.length := by
  rw [filled, List.length_append, List.length_append, List.length_take, List.length_drop]
  omega

/-! ## a receive into an array -/

/-- the same error, or the bytes received and the array with them -/
def Into (xs : List Byte) (i n : Nat) (x y : Except Int (List Byte)) : Prop :=
  (∃ e, x = .error e ∧ y = .error e) ∨ ∃ bs, bs.length = n ∧ x = .ok (filled xs i bs) ∧ y = .ok bs

theorem receive_into (h : i + n ≤ xs.length) : Tracks (receive r xs i n)
    (Threads.load (fun m => m.fgDesc) >>= fun desc => raspikeComReceiveTimeout desc n) (Into xs i n) := by
  apply Tracks.step
  intro desc
  apply Tracks.checked (bytes_ok h)
  apply Tracks.bind_pure (Tracks.lift (raspikeComReceiveTimeout_yields desc n))
  rintro (e | bs) _ ⟨rfl, hlen⟩
  · exact Tracks.pure (.inl ⟨e, rfl, rfl⟩)
  · have hbs : bs.length = n := hlen bs rfl
    apply Tracks.checked (put_ok (hbs ▸ h))
    exact Tracks.pure (.inr ⟨bs, hbs, rfl, rfl⟩)

theorem receive_tracks {α β : Type} {R : α → β → Prop} {f : Except Int (List Byte) → Checked α}
    {q : Except Int (List Byte) → P β} (h : i + n ≤ xs.length)
    (herr : ∀ e, Tracks (f (.error e)) (q (.error e)) R)
    (hok : ∀ bs, bs.length = n → Tracks (f (.ok (filled xs i bs))) (q (.ok bs)) R) :
    Tracks (receive r xs i n >>= f)
      (Threads.load (fun m => m.fgDesc) >>= fun desc => raspikeComReceiveTimeout desc n >>= q) R := by
  have hq : (Threads.load (fun m => m.fgDesc) >>= fun desc => raspikeComReceiveTimeout desc n >>= q) =
      (Threads.load (fun m => m.fgDesc) >>= fun desc => raspikeComReceiveTimeout desc n) >>= q :=
    (Prog.bind_assoc _ _ _).symm
  rw [hq]
  apply Tracks.bind (receive_into h)
  rintro _ _ (⟨e, rfl, rfl⟩ | ⟨bs, hbs, rfl, rfl⟩)
  · exact herr e
  · exact hok bs hbs

/-! ## the ports and the saved status -/

theorem portDevice_ok (i : Port) : portDevice i.val = .ok i := dif_pos i.isLt

theorem getDevice_ok (port : Byte) : getDevice port = .ok (RaspikeArt.getDevice port) := by
  unfold getDevice RaspikeArt.getDevice
  split
  · rfl
  · by_cases h : port.toNat < 6
    · have hslot : ¬ port.toNat ≥ rpDevicePortCount := Nat.not_le_of_lt h
      rw [if_neg hslot, dif_pos h, portDevice, dif_pos (by omega)]
      rfl
    · have hslot : port.toNat ≥ rpDevicePortCount := Nat.le_of_not_lt h
      rw [if_pos hslot, dif_neg h]
      rfl

theorem resetPortState_tracks (error : Int) (clearDevices : Bool) :
    Tracks (resetPortState error clearDevices) (RaspikeArt.resetPortState error clearDevices) fun _ _ => True := by
  apply Tracks.forEach (r := fun i (j : Port) => i = j.val)
  · decide
  · rintro _ j rfl
    apply Tracks.checked (portDevice_ok j)
    exact (Tracks.lift Prog.Yields.trivial).mono fun _ _ _ => trivial

theorem writeStatus_tracks {f : SpikeStatus → Except OutOfBounds SpikeStatus} {f' : SpikeStatus → SpikeStatus}
    (h : ∀ s, f s = .ok (f' s)) : Tracks (writeStatus f) (RaspikeArt.writeStatus f') fun _ _ => True := by
  apply Tracks.step
  intro status 𝓛 Q g hp m hR
  obtain ⟨hA, hQ⟩ := hp m hR
  cases status with
  | none => exact ⟨hA, (), (), rfl, trivial, hQ⟩
  | some p =>
    dsimp only at hA hQ ⊢
    cases hheap : m.heap p with
    | none =>
      have hsame : Function.update m.heap p ((m.heap p).map f') = m.heap := by
        rw [hheap]
        show Function.update m.heap p none = m.heap
        rw [← hheap, Function.update_eq_self]
      rw [hsame] at hA hQ
      exact ⟨hA, (), (), rfl, trivial, hQ⟩
    | some s =>
      rw [hheap] at hA hQ
      dsimp only
      rw [h s]
      exact ⟨hA, (), (), rfl, trivial, hQ⟩

theorem updateStatus_tracks {f : SpikeStatus → Except OutOfBounds SpikeStatus} {f' : SpikeStatus → SpikeStatus}
    (h : ∀ s, f s = .ok (f' s)) : Tracks (updateStatus f) (RaspikeArt.updateStatus f') (· = ·) := by
  apply Tracks.step
  intro _
  apply Tracks.bind (writeStatus_tracks h)
  intro _ _ _
  apply Tracks.step
  intro _
  apply Tracks.step
  intro _
  exact Tracks.pure rfl

theorem processHelloPayload_tracks (buf : List Byte) :
    Tracks (processHelloPayload buf) (RaspikeArt.processHelloPayload buf) fun _ _ => True := by
  unfold processHelloPayload RaspikeArt.processHelloPayload
  by_cases hlen : buf.length = rpV2HelloPayloadSize
  case neg =>
    rw [if_pos hlen, if_pos (.inl hlen)]
    exact Tracks.pure trivial
  have hsize : buf.length = 12 := hlen
  rw [if_neg (not_not.mpr hlen)]
  apply Tracks.checked (byte_ok (by omega))
  by_cases hversion : buf.getD 0 0 = rpV2Version
  case neg =>
    rw [if_pos hversion, if_pos (.inr hversion)]
    exact Tracks.pure trivial
  rw [if_neg (not_not.mpr hversion), if_neg (not_or.mpr ⟨not_not.mpr hlen, not_not.mpr hversion⟩)]
  apply Tracks.checked (bytes_ok (by omega))
  dsimp only
  rw [getU32_take (Nat.le_refl 4)]
  apply Tracks.step
  intro old
  split
  case isTrue => exact Tracks.pure trivial
  apply Tracks.step
  intro _
  apply Tracks.checked (byte_ok (by omega))
  apply Tracks.step
  intro _
  apply Tracks.bind (resetPortState_tracks _ _)
  intro _ _ _
  apply Tracks.step
  intro _
  apply Tracks.step
  intro _
  exact (Tracks.lift Prog.Yields.trivial).mono fun _ _ _ => trivial

/-! ## drive telemetry -/

section
variable {t : List Byte} (ht : t.length = driveTelemetrySize)
include ht

theorem motorSlot_ok {base width slot : Nat} (hslot : slot < 2) (h : base + width * 2 ≤ driveTelemetrySize) :
    motorSlot t base width slot = .ok ((t.drop (base + width * slot)).take width) := by
  have hend : base + width * slot + width ≤ t.length := by
    have hle : width * slot + width ≤ width * 2 := by
      rw [← Nat.mul_succ]
      exact Nat.mul_le_mul_left width hslot
    omega
  rw [motorSlot, index_ok hslot]
  exact bytes_ok hend

omit ht in
theorem putData_ok {s : SpikeStatus} {base i : Nat} {bs : List Byte} (h : i + bs.length ≤ 12) :
    putData s base i bs = .ok (s.write (base + dataOffset + i) bs) := if_pos h

theorem driveMotor_ok {slot : Nat} (hslot : slot < 2) (s : SpikeStatus) :
    driveMotor t slot s = .ok (RaspikeArt.driveMotor t slot s) := by
  have hlen : t.length = 34 := ht
  have hport : ((t.drop (30 + 1 * slot)).take 1).getD 0 0 = t.getD (30 + slot) 0 := by
    rw [getD_take Nat.one_pos, List.getD_eq_getElem?_getD, List.getElem?_drop, Nat.one_mul,
      List.getD_eq_getElem?_getD]
    rfl
  have hwidth : ∀ a n, ((t.drop a).take n).length ≤ n := fun a n => List.length_take_le ..
  unfold driveMotor RaspikeArt.driveMotor
  rw [byte_ok (by omega)]
  by_cases hflag : t.getD 33 0 &&& 1 <<< slot = 0
  case pos =>
    rw [if_pos (.inl hflag)]
    exact if_pos hflag
  refine (if_neg hflag).trans ?_
  rw [motorSlot_ok ht hslot (by decide)]
  show (if (((t.drop (30 + 1 * slot)).take 1).getD 0 0).toNat ≥ rpDevicePortCount then _ else _) = _
  rw [hport]
  by_cases hdevice : (t.getD (30 + slot) 0).toNat ≥ rpDevicePortCount
  case pos =>
    rw [if_pos hdevice, if_pos (.inr hdevice)]
    rfl
  have hentry : (t.getD (30 + slot) 0).toNat < 6 := Nat.lt_of_not_le hdevice
  rw [if_neg hdevice, if_neg (not_or.mpr ⟨hflag, hdevice⟩), index_ok hentry]
  rw [motorSlot_ok ht hslot (by decide), motorSlot_ok ht hslot (by decide), motorSlot_ok ht hslot (by decide)]
  show (putData _ _ 0 _ >>= _) = _
  rw [putData_ok (by have := hwidth (8 + 4 * slot) 4; omega)]
  show (putData _ _ 4 _ >>= _) = _
  rw [putData_ok (by have := hwidth (16 + 4 * slot) 4; omega)]
  show putData _ _ 8 _ = _
  rw [putData_ok (by have := hwidth (24 + 2 * slot) 2; omega)]
  rfl

theorem driveColor_ok (s : SpikeStatus) : driveColor t s = .ok (RaspikeArt.driveColor t s) := by
  have hlen : t.length = 34 := ht
  unfold driveColor RaspikeArt.driveColor reflectionBytes
  rw [byte_ok (by omega), byte_ok (by omega)]
  by_cases hflag : t.getD 33 0 &&& 4 = 0
  case pos =>
    rw [if_pos (.inl hflag)]
    exact if_pos hflag
  refine (if_neg hflag).trans ?_
  by_cases hdevice : (t.getD 32 0).toNat ≥ rpDevicePortCount
  case pos =>
    rw [if_pos (.inr hdevice)]
    exact if_pos hdevice
  refine (if_neg hdevice).trans ?_
  have hentry : (t.getD 32 0).toNat < 6 := Nat.lt_of_not_le hdevice
  rw [if_neg (not_or.mpr ⟨hflag, hdevice⟩), index_ok hentry, bytes_ok (by omega)]
  show putData _ _ 0 (rpV2PutU32 ((rpV2GetU16 ((t.drop 28).take 2)).signExtend 32)) = _
  rw [getU16_take (Nat.le_refl 2), putData_ok (show 0 + 4 ≤ 12 by decide)]
  rfl

theorem driveMerge_ok (s : SpikeStatus) : driveMerge t s = .ok (RaspikeArt.driveMerge t s) := by
  rw [driveMerge, driveMotor_ok ht (by decide)]
  show (driveMotor t 1 (RaspikeArt.driveMotor t 0 s) >>= _) = _
  rw [driveMotor_ok ht (by decide)]
  exact driveColor_ok ht _

end

/-! ## one decoded frame -/

theorem processCommand_tracks (port cmd flags : Byte) (sequence session : U32) (buf : List Byte) :
    Tracks (processCommand port cmd flags sequence session buf)
      (RaspikeArt.processCommand port cmd flags sequence session buf) (· = ·) := by
  have hret : ∀ x : Int, Tracks (pure x : Checked Int) (pure x : P Int) (· = ·) := fun _ => Tracks.pure rfl
  unfold processCommand RaspikeArt.processCommand
  apply Tracks.step
  intro _
  split
  case isTrue =>
    apply Tracks.bind (processHelloPayload_tracks buf)
    exact fun _ _ _ => hret _
  split
  case isTrue =>
    apply Tracks.step
    exact fun _ => hret _
  apply Tracks.bind (R := (· = ·))
  · apply Tracks.step
    intro v2
    split
    case isTrue => exact (Tracks.lift Prog.Yields.trivial).mono fun _ _ h => h.1
    case isFalse => exact Tracks.pure rfl
  rintro stale _ rfl
  split
  case isTrue =>
    apply Tracks.step
    exact fun _ => hret _
  split
  case isTrue =>
    split
    case isTrue => exact hret _
    case isFalse hlen =>
      have hlen : buf.length = spikeStatusSize := not_not.mp hlen
      apply updateStatus_tracks
      intro s
      rw [bytes_ok (by omega), List.drop_zero, ← hlen, List.take_length]
      rfl
  split
  case isTrue =>
    split
    case isTrue => exact hret _
    case isFalse hlen =>
      have hlen : buf.length = runtimeTelemetrySize := not_not.mp hlen
      apply Tracks.step
      intro _
      apply Tracks.checked (bytes_ok (by omega))
      rw [List.drop_zero, ← hlen, List.take_length]
      apply Tracks.step
      intro _
      apply Tracks.step
      exact fun _ => hret _
  split
  case isTrue =>
    split
    case isTrue => exact hret _
    case isFalse hlen =>
      have hlen : buf.length = driveTelemetrySize := not_not.mp hlen
      apply Tracks.checked (bytes_ok (by omega))
      rw [List.drop_zero, ← hlen, List.take_length]
      exact updateStatus_tracks (driveMerge_ok hlen)
  split
  case isTrue =>
    split
    case isTrue => exact hret _
    case isFalse hlen =>
      have hlen : buf.length = 8 := not_not.mp hlen
      apply Tracks.checked (getDevice_ok port)
      cases RaspikeArt.getDevice port with
      | none => exact hret _
      | some i =>
        apply Tracks.checked (bytes_ok (by omega))
        apply Tracks.checked (bytes_ok (by omega))
        have hwhole : (buf.drop 0).take 4 ++ (buf.drop 4).take 4 = buf := by
          have hdata : (buf.drop 4).take 4 = buf.drop 4 := by
            apply List.take_of_length_le
            rw [List.length_drop]
            omega
          rw [hdata]
          exact List.take_append_drop 4 buf
        rw [hwhole]
        exact (Tracks.lift Prog.Yields.trivial).mono fun _ _ h => h.1
  split <;> exact hret _

/-! ## reading a frame -/

theorem receiveLegacyFrame_tracks (locals : Locals) :
    Tracks (receiveLegacyFrame locals) RaspikeArt.receiveLegacyFrame (· = ·) := by
  have hret : ∀ x : Int, Tracks (pure x : Checked Int) (pure x : P Int) (· = ·) := fun _ => Tracks.pure rfl
  have hlocal : locals.payload.toList.length = 256 := locals.payload.length_toList
  apply receive_tracks (by simp)
  · exact hret
  intro header hheader
  rw [filled_whole (by simp [hheader])]
  apply Tracks.checked (byte_ok (by omega))
  apply Tracks.checked (byte_ok (by omega))
  apply Tracks.checked (byte_ok (by omega))
  show Tracks _ (receiveLegacyBody header) _
  unfold receiveLegacyBody
  dsimp only
  split
  case isTrue =>
    apply Tracks.step
    exact fun _ => hret _
  case isFalse hok =>
  have hsize : (header.getD 1 0).toNat ≤ 256 := Nat.le_of_not_lt fun h => hok (.inl h)
  -- the size is the length of what is received, also when nothing is
  have hrest : ∀ {payload bs : List Byte}, bs.length = (header.getD 1 0).toNat → payload.length = 256 →
      (payload.drop 0).take (header.getD 1 0).toNat = bs → Tracks (do
        let buf ← bytes .payload payload 0 (header.getD 1 0).toNat
        tick (.legacyFrame (rpCmdStart :: header ++ buf))
        statsIncrement .rxLegacyFrames
        let session ← load fun m => m.fgSessionId
        processCommand (header.getD 2 0) (header.getD 0 0) 0 0 session buf : Checked Int) (do
        Threads.tick (.legacyFrame (rpCmdStart :: header ++ bs))
        statsIncrement .rxLegacyFrames
        let session ← Threads.load fun m => m.fgSessionId
        RaspikeArt.processCommand (header.getD 2 0) (header.getD 0 0) 0 0 session bs : P Int) (· = ·) := by
    intro payload bs hbs hpayload hbuf
    apply Tracks.checked (bytes_ok (by omega))
    rw [hbuf]
    apply Tracks.step
    intro _
    apply Tracks.step
    intro _
    apply Tracks.step
    exact fun session => processCommand_tracks _ _ _ _ _ _
  by_cases hpos : (header.getD 1 0).toNat > 0
  case pos =>
    rw [if_pos hpos, if_pos hpos]
    apply Tracks.bind (receive_into (by omega))
    rintro _ _ (⟨e, rfl, rfl⟩ | ⟨bs, hbs, rfl, rfl⟩)
    · exact hret e
    · exact hrest hbs ((filled_length (by omega)).trans hlocal) (filled_front hbs)
  case neg =>
    rw [if_neg hpos, if_neg hpos]
    apply Tracks.bind (R := fun x y => x = .ok locals.payload.toList ∧ y = .ok [])
    · exact Tracks.pure ⟨rfl, rfl⟩
    rintro _ _ ⟨rfl, rfl⟩
    have hnone : (header.getD 1 0).toNat = 0 := Nat.eq_zero_of_not_pos hpos
    exact hrest hnone.symm hlocal (by rw [hnone, List.take_zero])

theorem discardReceiveBytes_tracks {scratch : List Byte} (h : scratch.length = 64) (size : Nat) :
    Tracks (discardReceiveBytes scratch size) (RaspikeArt.discardReceiveBytes size) (· = ·) := by
  apply Tracks.loop (· = ·) rfl
  rintro size _ rfl
  split
  case isTrue => exact Tracks.pure rfl
  apply receive_tracks (by omega)
  · exact fun _ => Tracks.pure rfl
  intro bs hbs
  dsimp only
  rw [hbs]
  exact Tracks.pure rfl

section
variable {header rest junk : List Byte} {size : Nat}

theorem receiveV2Checked_tracks (hheader : header.length = 13) (hrest : rest.length = size + 2)
    (hsize : (header.getD 4 0).toNat = size) :
    Tracks (receiveV2Checked ((rpV2Start :: header) ++ (rest ++ junk)) size)
      (RaspikeArt.receiveV2Checked header rest) (· = ·) := by
  have hfront : (rpV2Start :: header).length = 14 := congrArg Nat.succ hheader
  have hlen : ((rpV2Start :: header) ++ (rest ++ junk)).length = 14 + (size + 2 + junk.length) := by
    rw [List.length_append, List.length_append, hfront, hrest]
  have hbyte : ∀ i < 13, ((rpV2Start :: header) ++ (rest ++ junk)).getD (i + 1) 0 = header.getD i 0 := by
    intro i hi
    exact List.getD_append _ _ _ _ (by omega)
  have hlow : ∀ i n, i + n ≤ 13 →
      (((rpV2Start :: header) ++ (rest ++ junk)).drop (i + 1)).take n = (header.drop i).take n :=
    fun i n h => slice_left (by omega)
  have hhigh : ∀ i n, i + n ≤ size + 2 →
      (((rpV2Start :: header) ++ (rest ++ junk)).drop (14 + i)).take n = (rest.drop i).take n :=
    fun i n h => hfront ▸ slice_right (by omega)
  have hcrc : (((rpV2Start :: header) ++ (rest ++ junk)).drop 1).take (13 + size) = header ++ rest.take size := by
    show (header ++ (rest ++ junk)).take (13 + size) = _
    rw [← hheader, List.take_length_add_append, List.take_append_of_le_length (by omega)]
  have hframe : (((rpV2Start :: header) ++ (rest ++ junk)).drop 0).take (14 + size + 2) =
      rpV2Start :: header ++ rest := by
    rw [List.drop_zero, Nat.add_assoc, ← hfront, ← hrest, List.take_length_add_append, List.take_left]
  have hheaderSize : rpV2HeaderSize = 14 := rfl
  have hcrcSize : rpV2CrcSize = 2 := rfl
  unfold receiveV2Checked RaspikeArt.receiveV2Checked
  rw [hsize, hheaderSize, hcrcSize]
  apply Tracks.checked (bytes_ok (by omega))
  apply Tracks.checked (bytes_ok (by omega))
  dsimp only
  rw [hhigh size 2 (Nat.le_refl _), getU16_take (Nat.le_refl 2), hcrc]
  split
  case isTrue =>
    apply Tracks.step
    exact fun _ => Tracks.pure rfl
  apply Tracks.checked (bytes_ok (by omega))
  rw [hframe]
  apply Tracks.step
  intro _
  apply Tracks.checked (byte_ok (by omega))
  apply Tracks.checked (byte_ok (by omega))
  apply Tracks.checked (byte_ok (by omega))
  apply Tracks.checked (bytes_ok (by omega))
  apply Tracks.checked (bytes_ok (by omega))
  apply Tracks.checked (bytes_ok (by omega))
  rw [hbyte 1 (by omega), hbyte 2 (by omega), hbyte 3 (by omega), hlow 5 4 (by omega), hlow 9 4 (by omega),
    getU32_take (Nat.le_refl 4), getU32_take (Nat.le_refl 4), hhigh 0 size (by omega), List.drop_zero]
  exact processCommand_tracks _ _ _ _ _ _

end

theorem receiveV2Frame_tracks (locals : Locals) :
    Tracks (receiveV2Frame locals) RaspikeArt.receiveV2Frame (· = ·) := by
  have hret : ∀ x : Int, Tracks (pure x : Checked Int) (pure x : P Int) (· = ·) := fun _ => Tracks.pure rfl
  have hlocal : locals.frame.toList.length = 256 := locals.frame.length_toList
  have hscratch : locals.scratch.toList.length = 64 := locals.scratch.length_toList
  have hheaderSize : rpV2HeaderSize - 1 = 13 := rfl
  have hcrcSize : rpV2CrcSize = 2 := rfl
  have hmax : rpV2MaxPayload = 240 := rfl
  have hdrop : (locals.frame.toList.drop 1).length = 255 := by rw [List.length_drop, hlocal]
  apply Tracks.checked (put_ok (by rw [hlocal]; decide))
  show Tracks (receive .frame (rpV2Start :: locals.frame.toList.drop 1) 1 13 >>= _) _ _
  apply receive_tracks (by rw [List.length_cons, hdrop]; decide)
  · exact hret
  intro header hheader
  have hheader : header.length = 13 := hheader
  obtain ⟨junk, hjunk, hfilled⟩ : ∃ junk, junk.length = 242 ∧
      filled (rpV2Start :: locals.frame.toList.drop 1) 1 header = (rpV2Start :: header) ++ junk := by
    refine ⟨(locals.frame.toList.drop 1).drop header.length, ?_, ?_⟩
    · rw [List.length_drop, hdrop, hheader]
    · show [rpV2Start] ++ header ++ _ = _
      rw [Nat.add_comm 1 header.length]
      rfl
  rw [hfilled]
  have hfront : (rpV2Start :: header).length = 14 := congrArg Nat.succ hheader
  have hlen : ((rpV2Start :: header) ++ junk).length = 256 := by rw [List.length_append, hfront, hjunk]
  have hbyte : ∀ i < 13, ((rpV2Start :: header) ++ junk).getD (i + 1) 0 = header.getD i 0 :=
    fun i hi => List.getD_append _ _ _ _ (by omega)
  apply Tracks.checked (byte_ok (by omega))
  apply Tracks.checked (byte_ok (by omega))
  rw [hbyte 4 (by omega), hbyte 0 (by omega)]
  show Tracks _ (receiveV2Body header) _
  unfold receiveV2Body
  dsimp only
  split
  case isTrue =>
    apply Tracks.bind (discardReceiveBytes_tracks hscratch _)
    intro _ _ _
    apply Tracks.step
    exact fun _ => hret _
  split
  case isTrue =>
    apply Tracks.bind (discardReceiveBytes_tracks hscratch _)
    intro _ _ _
    apply Tracks.step
    exact fun _ => hret _
  case isFalse hsize =>
    apply receive_tracks (by omega)
    · exact hret
    intro rest hrest
    have hfilled' : filled ((rpV2Start :: header) ++ junk) 14 rest =
        (rpV2Start :: header) ++ (rest ++ junk.drop rest.length) := by
      rw [filled, List.take_left' hfront, ← hfront, List.drop_length_add_append, List.append_assoc]
    rw [hfilled']
    exact receiveV2Checked_tracks hheader hrest rfl

theorem receiveFrame_tracks (locals : Locals) :
    Tracks (receiveFrame locals) RaspikeArt.receiveFrame (· = ·) := by
  apply receive_tracks (by decide)
  · exact fun _ => Tracks.pure rfl
  intro start hstart
  rw [filled_whole hstart]
  apply Tracks.checked (byte_ok (by omega))
  apply Tracks.bind (R := (· = ·))
  · unfold receiveStarted RaspikeArt.receiveStarted
    split
    case isTrue => exact receiveV2Frame_tracks locals
    split
    case isTrue => exact receiveLegacyFrame_tracks locals
    apply Tracks.step
    exact fun _ => Tracks.pure rfl
  rintro result _ rfl
  apply Tracks.step
  exact fun _ => Tracks.pure rfl

theorem raspikeProtReceive_tracks (locals : Locals) :
    Tracks (raspikeProtReceive locals) RaspikeArt.raspikeProtReceive (· = ·) := by
  apply Tracks.step
  intro _
  apply Tracks.step
  intro down
  split
  case isTrue =>
    apply Tracks.step
    exact fun _ => Tracks.pure rfl
  apply Tracks.step
  intro _
  apply Tracks.step
  intro _
  apply Tracks.bind (receiveFrame_tracks locals)
  rintro result _ rfl
  apply Tracks.step
  exact fun _ => Tracks.pure rfl

/-! ## the bytes discarded -/

/-- reads of these sizes, up to the first that fails -/
def discardChunks : List Nat → P Int
  | [] => pure 0
  | chunk :: chunks => do
    let desc ← Threads.load fun m => m.fgDesc
    match ← raspikeComReceiveTimeout desc chunk with
    | .error e => return e
    | .ok _ => discardChunks chunks

/-- `size` bytes in chunks of the scratch array -/
def chunks (size : Nat) : List Nat :=
  if size = 0 then [] else min size 64 :: chunks (size - min size 64)
termination_by size

theorem chunks_sum (size : Nat) : (chunks size).sum = size := by
  induction size using Nat.strong_induction_on with
  | _ size ih =>
    rw [chunks]
    split
    case isTrue h => exact h.symm
    case isFalse h =>
      rw [List.sum_cons, ih _ (by omega)]
      omega

theorem discardReceiveBytes_chunks {scratch : List Byte} (h : scratch.length = 64) (size : Nat) :
    Tracks (discardReceiveBytes scratch size) (discardChunks (chunks size)) (· = ·) := by
  intro 𝓛 Q g hp
  apply along_loop (fun size g => along 𝓛 (discardChunks (chunks size)) Q g) hp
  intro size g hp
  by_cases hsize : size = 0
  case pos =>
    subst hsize
    rw [chunks, if_pos rfl] at hp
    exact ⟨0, 0, rfl, rfl, hp⟩
  rw [chunks, if_neg hsize] at hp
  have hreceive : along 𝓛 (Threads.load (fun m => m.fgDesc) >>= fun desc => raspikeComReceiveTimeout desc (min size 64))
      (fun x g' => along 𝓛 (match x with
        | .error e => pure e
        | .ok _ => discardChunks (chunks (size - min size 64)) : P Int) Q g') g := by
    apply along_bind
    exact along_mono (fun _ _ h => along_bind_iff.mp h) (along_bind_iff.mp hp)
  have hinto : along 𝓛 (receive .scratch scratch 0 (min size 64)).run _ g :=
    receive_into (by omega) 𝓛 _ g hreceive
  dsimp only
  rw [if_neg hsize]
  apply along_seq (B := fun r g' => match r with
    | .ok (.inl size) => along 𝓛 (discardChunks (chunks size)) Q g'
    | .ok (.inr x) => Q x g'
    | .error _ => False)
  · apply along_seq hinto
    rintro _ g' ⟨_, _, rfl, ⟨e, rfl, rfl⟩ | ⟨bs, -, rfl, rfl⟩, hq⟩
    · exact hq
    · exact hq
  · rintro (e | size | x) g' hr
    · exact hr.elim
    · exact hr
    · exact ⟨x, x, rfl, rfl, hr⟩

/-- a receive into an array ends, whatever the device does -/
theorem receive_ends (h : i + n ≤ xs.length) {w : World Unit Mutex Event Mem} :
    Finishes (receive r xs i n).run w fun x _ => ∃ y, x = .ok y ∧ ∀ e, y = .error e → e < 0 := by
  apply finish_lift
  apply finish_load
  apply finish_checked (bytes_ok h)
  apply finish_lift
  have hends := finish_yields (finish_yields (raspikeComReceiveTimeout_ends (w := w) w.mem.fgDesc n) (raspikeComReceiveTimeout_yields w.mem.fgDesc n))
    (raspikeComReceiveTimeout_fails w.mem.fgDesc n)
  apply finish_mono hends
  rintro (e | bs) w' ⟨⟨-, hlen⟩, herr⟩
  · exact finish_pure ⟨_, rfl, herr⟩
  · have hbs : bs.length = n := hlen bs rfl
    apply finish_checked (put_ok (hbs ▸ h))
    exact finish_pure ⟨_, rfl, by rintro _ ⟨⟩⟩

/-- a discard ends, whatever the device does: every turn but the last leaves less to discard -/
theorem discardReceiveBytes_ends {scratch : List Byte} (h : scratch.length = 64) (size : Nat)
    {w : World Unit Mutex Event Mem} :
    Finishes (discardReceiveBytes scratch size).run w fun r _ => ∃ x, r = .ok x ∧ x ≤ 0 := by
  apply finish_loop (fun _ _ => True) (fun size _ => size) trivial
  rintro size w₁ -
  dsimp only
  by_cases hsize : size = 0
  · rw [if_pos hsize]
    exact finish_pure ⟨0, rfl, Int.le_refl 0⟩
  rw [if_neg hsize]
  have hturn : Finishes (receive .scratch scratch 0 (min size 64) >>= fun y => match y with
      | .error e => pure (.inr e)
      | .ok _ => pure (.inl (size - min size 64)) : Checked (Nat ⊕ Int)).run w₁ fun x _ =>
        ∃ y, x = .ok y ∧ (y = .inl (size - min size 64) ∨ ∃ e ≤ 0, y = .inr e) := by
    have hroom : 0 + min size 64 ≤ scratch.length := by omega
    apply finish_seq (receive_ends hroom)
    rintro _ w₂ ⟨e | bs, rfl, herr⟩
    · exact finish_pure ⟨_, rfl, .inr ⟨e, Int.le_of_lt (herr e rfl), rfl⟩⟩
    · exact finish_pure ⟨_, rfl, .inl rfl⟩
  apply finish_seq hturn
  rintro _ w₂ ⟨_, rfl, rfl | ⟨e, he, rfl⟩⟩
  · exact finish_pure ⟨trivial, by omega⟩
  · exact finish_pure ⟨e, rfl, he⟩

theorem discardChunks_reads {d : Nat} {sizes : List Nat} : ∀ {ss : List OwnStep},
    along (recording (fun m => m.fgDesc = some d) fun _ _ => True) (discardChunks sizes) (fun r ss' =>
      ∃ bs, Reads d ss bs ss' ∧ (r = 0 ∧ bs.length = sizes.sum ∨ r < 0 ∧ bs.length ≤ sizes.sum)) ss := by
  induction sizes with
  | nil => exact fun {ss} => ⟨[], .refl d ss, .inl ⟨rfl, rfl⟩⟩
  | cons size sizes ih =>
    intro ss
    apply along_seq (B := fun desc ss' => desc = some d ∧ Reads d ss [] ss')
    · exact along_act fun m hm => ⟨trivial, hm, Reads.act rfl rfl⟩
    rintro _ ss₁ ⟨rfl, h₁⟩
    have hread : along (recording (fun m => m.fgDesc = some d) fun _ _ => True)
        (raspikeComReceiveTimeout (some d) size) (fun r ss' => ∃ bs, Reads d ss₁ bs ss' ∧
          bs.length ≤ size ∧ ∀ bs', r = .ok bs' → bs' = bs ∧ bs.length = size) ss₁ :=
      raspikeComReceiveTimeout_reads fun _ _ _ => trivial
    apply along_seq (along_yields hread (raspikeComReceiveTimeout_fails (some d) size))
    rintro (e | bs) ss₂ ⟨⟨bs', h₂, hle, hok⟩, herr⟩
    · refine ⟨bs', h₁.trans h₂, .inr ⟨herr e rfl, ?_⟩⟩
      rw [List.sum_cons]
      exact Nat.le_add_right_of_le hle
    · obtain ⟨rfl, hlen⟩ := hok bs rfl
      apply along_mono _ ih
      rintro r ss₃ ⟨bs', h₃, hr⟩
      refine ⟨bs ++ bs', (h₁.trans h₂).trans h₃, ?_⟩
      rw [List.length_append, List.sum_cons]
      obtain ⟨hr, hlen'⟩ | ⟨hr, hle'⟩ := hr
      · exact .inl ⟨hr, by omega⟩
      · exact .inr ⟨hr, by omega⟩

end Checked

/-- **In bounds.**  The receiver with every index checked takes the steps of the receiver, and no
check fails, whatever the device sends and whatever the other threads do.  A discard ends: it takes the
bytes it is asked for, or ends with the first read that fails. -/
theorem receive_in_bounds (locals : Locals) :
    Tracks (Checked.raspikeProtReceive locals) raspikeProtReceive (· = ·) ∧
    (∀ (T : Type) [DecidableEq T] (t : T) (c c' : Sys T) (k : Except OutOfBounds Int → P Unit)
      (ss : List OwnStep), c.thr t = (Checked.raspikeProtReceive locals).run.bind k → Follows t c ss c' →
      (∃ p', c'.thr t = p'.bind k ∧ NeverFails p') ∨
        ∃ r c₁ ss₁ ss₂, ss = ss₂ ++ ss₁ ∧ c₁.thr t = k (.ok r) ∧ Follows t c₁ ss₂ c') ∧
    ∀ size, Tracks (Checked.discardReceiveBytes locals.scratch.toList size)
        (Checked.discardChunks (Checked.chunks size)) (· = ·) ∧
      (Checked.chunks size).sum = size ∧
      (∀ w, Finishes (Checked.discardReceiveBytes locals.scratch.toList size).run w fun r _ => ∃ x, r = .ok x ∧ x ≤ 0) ∧
      ∀ (d : Nat) (ss : List OwnStep), along (recording (fun m => m.fgDesc = some d) fun _ _ => True)
        (Checked.discardReceiveBytes locals.scratch.toList size).run (fun r ss' => ∃ x bs, r = .ok x ∧
          Reads d ss bs ss' ∧ (x = 0 ∧ bs.length = size ∨ x < 0 ∧ bs.length ≤ size)) ss := by
  have hchunks : ∀ size, Tracks (Checked.discardReceiveBytes locals.scratch.toList size)
      (Checked.discardChunks (Checked.chunks size)) (· = ·) :=
    Checked.discardReceiveBytes_chunks locals.scratch.length_toList
  refine ⟨Checked.raspikeProtReceive_tracks locals, ?_, fun size => ⟨hchunks size, Checked.chunks_sum size,
    fun w => Checked.discardReceiveBytes_ends locals.scratch.length_toList size, ?_⟩⟩
  · intro T _ t c c' k ss hc hf
    obtain h | ⟨r, _, c₁, ss₁, ss₂, hss, -, hc₁, hf₂⟩ := (Checked.raspikeProtReceive_tracks locals).passes hf hc
    · exact .inl h
    · exact .inr ⟨r, c₁, ss₁, ss₂, hss, hc₁, hf₂⟩
  · intro d ss
    apply along_mono _ (hchunks size _ _ ss Checked.discardChunks_reads)
    rintro r ss' ⟨x, _, rfl, rfl, bs, hreads, hlen⟩
    rw [Checked.chunks_sum] at hlen
    exact ⟨x, bs, rfl, hreads, hlen⟩

/-- a frame of another version that announces 255 bytes arrives -/
def foreignStart : Sys Unit where
  mem := freshMem [.data ([rpV2Start, 9, 0, 0, 0, 255] ++ List.replicate 265 0)] []
  own := fun _ => none
  trace := []
  thr := fun _ => (Checked.raspikeProtReceive ⟨.replicate _ 0, .replicate _ 0, .replicate _ 0, .replicate _ 0⟩).run.bind
    fun _ => pure ()

theorem receive_in_bounds_foreign : ∃ c', exec foreignStart (steps 90 ()) = some c' ∧
    ((∃ p', c'.thr () = Prog.bind p' (fun _ => pure ()) ∧ NeverFails (ε := OutOfBounds) (α := Int) p') ∨
      ∃ c₁ ss, c₁.thr () = .ret () ∧ Follows () c₁ ss c') := by
  obtain ⟨c', he⟩ : ∃ c', exec foreignStart (steps 90 ()) = some c' :=
    Option.isSome_iff_exists.mp (by decide +kernel)
  refine ⟨c', he, ?_⟩
  obtain h | ⟨r, c₁, ss₁, ss₂, -, hc₁, hf⟩ :=
    (receive_in_bounds _).2.1 Unit () foreignStart c' _ _ rfl (exec_follows he)
  · exact .inl h
  · exact .inr ⟨c₁, ss₂, hc₁, hf⟩

end RaspikeArt
