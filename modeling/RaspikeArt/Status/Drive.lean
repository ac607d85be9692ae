import RaspikeArt.Model.Motors
import RaspikeArt.Protocol.Format
import RaspikeArt.Status.Record

/-!
# The saved status, part 2: drive telemetry

* `MotorEntry`, `ColorEntry`   what a valid slot of the message leaves in the entry of its port;
* `Covered`                    the bytes that the message writes;
* `driveMerge_merged`          the merge leaves those entries, and every other byte alone.
-/

namespace RaspikeArt

/-! ## the fields of the message -/

section
variable (t : List Byte) (slot : Nat)

def motorPort : Byte := t.getD (30 + slot) 0
def colorPort : Byte := t.getD 32 0
def driveFlags : Byte := t.getD 33 0

/-- `motor_count_deg[slot]`, `motor_speed_deg_s[slot]`, `motor_power[slot]` -/
def motorCount : List Byte := (t.drop (8 + 4 * slot)).take 4
def motorSpeed : List Byte := (t.drop (16 + 4 * slot)).take 4
def motorPower : List Byte := (t.drop (24 + 2 * slot)).take 2

/-- the flag of the motor slot is set, and its port is below 6 -/
def MotorValid : Prop :=
  driveFlags t &&& (1 <<< slot) ≠ 0 ∧ (motorPort t slot).toNat < rpDevicePortCount

def ColorValid : Prop := driveFlags t &&& 4 ≠ 0 ∧ (colorPort t).toNat < rpDevicePortCount

end

instance (t : List Byte) (slot : Nat) : Decidable (MotorValid t slot) :=
  inferInstanceAs (Decidable (_ ∧ _))

instance (t : List Byte) : Decidable (ColorValid t) := inferInstanceAs (Decidable (_ ∧ _))

variable {t : List Byte} {slot k : Nat} {s s' : SpikeStatus}

/-- the offset of an entry, and of its data -/
def entryAt (port : Byte) : Nat := portOffset port.toNat
def dataAt (port : Byte) : Nat := portOffset port.toNat + dataOffset

structure MotorEntry (t : List Byte) (slot : Nat) (s : SpikeStatus) : Prop where
  port : s.byte (entryAt (motorPort t slot)) = motorPort t slot
  count : s.bytes (dataAt (motorPort t slot) + rpMotorIndexCount) 4 = motorCount t slot
  speed : s.bytes (dataAt (motorPort t slot) + rpMotorIndexSpeed) 4 = motorSpeed t slot
  power : s.bytes (dataAt (motorPort t slot) + rpMotorIndexPower) 2 = motorPower t slot

structure ColorEntry (t : List Byte) (s : SpikeStatus) : Prop where
  port : s.byte (entryAt (colorPort t)) = colorPort t
  reflection : s.bytes (dataAt (colorPort t)) 4 = reflectionBytes t
  value : getInt32 (s.bytes (dataAt (colorPort t)) 4) = getInt16 (t.drop 28)

/-- the bytes that a valid motor slot writes: the port, and the first ten bytes of the data -/
def MotorCovers (t : List Byte) (slot k : Nat) : Prop :=
  MotorValid t slot ∧ (k = entryAt (motorPort t slot) ∨
    dataAt (motorPort t slot) ≤ k ∧ k < dataAt (motorPort t slot) + 10)

/-- the bytes that a valid color slot writes: the port, and the first four bytes of the data -/
def ColorCovers (t : List Byte) (k : Nat) : Prop :=
  ColorValid t ∧ (k = entryAt (colorPort t) ∨
    dataAt (colorPort t) ≤ k ∧ k < dataAt (colorPort t) + 4)

def Covered (t : List Byte) (k : Nat) : Prop :=
  MotorCovers t 0 k ∨ MotorCovers t 1 k ∨ ColorCovers t k

/-- the ports of the valid slots differ -/
structure Distinct (t : List Byte) : Prop where
  motors : MotorValid t 0 → MotorValid t 1 → motorPort t 0 ≠ motorPort t 1
  color : ∀ slot < 2, MotorValid t slot → ColorValid t → motorPort t slot ≠ colorPort t

/-! ## one slot -/

theorem motorCount_length (h : t.length = driveTelemetrySize) (hs : slot < 2) :
    (motorCount t slot).length = 4 := by
  simp only [motorCount, List.length_take, List.length_drop, h, driveTelemetrySize]
  omega

theorem motorSpeed_length (h : t.length = driveTelemetrySize) (hs : slot < 2) :
    (motorSpeed t slot).length = 4 := by
  simp only [motorSpeed, List.length_take, List.length_drop, h, driveTelemetrySize]
  omega

theorem motorPower_length (h : t.length = driveTelemetrySize) (hs : slot < 2) :
    (motorPower t slot).length = 2 := by
  simp only [motorPower, List.length_take, List.length_drop, h, driveTelemetrySize]
  omega

theorem reflectionBytes_length (t : List Byte) : (reflectionBytes t).length = 4 := rfl

/-- the reflection is sign-extended -/
theorem getInt32_reflection (t : List Byte) :
    getInt32 (reflectionBytes t) = getInt16 (t.drop 28) := by
  show (rpV2GetU32 (rpV2PutU32 _)).toInt = (rpV2GetU16 _).toInt
  rw [rpV2GetU32_put, BitVec.toInt_signExtend_of_le (by decide)]

theorem driveMotor_valid (h : MotorValid t slot) :
    driveMotor t slot s = (((s.write (entryAt (motorPort t slot)) [motorPort t slot]).write
      (dataAt (motorPort t slot)) (motorCount t slot)).write
      (dataAt (motorPort t slot) + 4) (motorSpeed t slot)).write
      (dataAt (motorPort t slot) + 8) (motorPower t slot) :=
  if_neg (not_or.mpr ⟨h.1, Nat.not_le.mpr h.2⟩)

theorem driveMotor_invalid (h : ¬ MotorValid t slot) : driveMotor t slot s = s := by
  apply if_pos
  by_contra hno
  obtain ⟨hflag, hport⟩ := not_or.mp hno
  exact h ⟨hflag, Nat.not_le.mp hport⟩

theorem driveColor_valid (h : ColorValid t) :
    driveColor t s = (s.write (entryAt (colorPort t)) [colorPort t]).write (dataAt (colorPort t))
      (reflectionBytes t) :=
  if_neg (not_or.mpr ⟨h.1, Nat.not_le.mpr h.2⟩)

theorem driveColor_invalid (h : ¬ ColorValid t) : driveColor t s = s := by
  apply if_pos
  by_contra hno
  obtain ⟨hflag, hport⟩ := not_or.mp hno
  exact h ⟨hflag, Nat.not_le.mp hport⟩

theorem entry_bound {port : Byte} (h : port.toNat < rpDevicePortCount) : dataAt port + 12 ≤ 136 := by
  have hend : portOffset port.toNat + 16 ≤ 136 := portOffset_le h
  simpa [dataAt, dataOffset] using hend

theorem entryAt_lt (port : Byte) : entryAt port + 4 = dataAt port := rfl

theorem driveMotor_entry (hlen : t.length = driveTelemetrySize) (hs : slot < 2)
    (h : MotorValid t slot) : MotorEntry t slot (driveMotor t slot s) := by
  have hend := entry_bound h.2
  have hentry := entryAt_lt (motorPort t slot)
  have hcount := motorCount_length hlen hs
  have hspeed := motorSpeed_length hlen hs
  have hpower := motorPower_length hlen hs
  rw [driveMotor_valid h]
  constructor
  · rw [SpikeStatus.byte_write_out (by omega), SpikeStatus.byte_write_out (by omega),
      SpikeStatus.byte_write_out (by omega),
      SpikeStatus.byte_write_in (by omega) (Nat.le_refl _) (Nat.lt_succ_self _), Nat.sub_self]
    rfl
  · show SpikeStatus.bytes _ (dataAt (motorPort t slot)) 4 = _
    rw [SpikeStatus.bytes_other (by omega), SpikeStatus.bytes_other (by omega)]
    exact hcount ▸ SpikeStatus.bytes_write (by omega)
  · show SpikeStatus.bytes _ (dataAt (motorPort t slot) + 4) 4 = _
    rw [SpikeStatus.bytes_other (by omega)]
    exact hspeed ▸ SpikeStatus.bytes_write (by omega)
  · show SpikeStatus.bytes _ (dataAt (motorPort t slot) + 8) 2 = _
    exact hpower ▸ SpikeStatus.bytes_write (by omega)

theorem driveMotor_frame (hlen : t.length = driveTelemetrySize) (hs : slot < 2)
    (hk : ¬ MotorCovers t slot k) : (driveMotor t slot s).byte k = s.byte k := by
  by_cases h : MotorValid t slot
  · have hout := not_or.mp (not_and.mp hk h)
    have hentry := entryAt_lt (motorPort t slot)
    have hcount := motorCount_length hlen hs
    have hspeed := motorSpeed_length hlen hs
    have hpower := motorPower_length hlen hs
    have hone : [motorPort t slot].length = 1 := rfl
    rw [driveMotor_valid h, SpikeStatus.byte_write_out (by omega),
      SpikeStatus.byte_write_out (by omega), SpikeStatus.byte_write_out (by omega),
      SpikeStatus.byte_write_out (by omega)]
  · rw [driveMotor_invalid h]

theorem driveColor_entry (h : ColorValid t) : ColorEntry t (driveColor t s) := by
  have hend := entry_bound h.2
  have hentry := entryAt_lt (colorPort t)
  have hlen := reflectionBytes_length t
  rw [driveColor_valid h]
  have hdata : ((s.write (entryAt (colorPort t)) [colorPort t]).write (dataAt (colorPort t))
      (reflectionBytes t)).bytes (dataAt (colorPort t)) 4 = reflectionBytes t :=
    hlen ▸ SpikeStatus.bytes_write (by omega)
  constructor
  · rw [SpikeStatus.byte_write_out (by omega),
      SpikeStatus.byte_write_in (by omega) (Nat.le_refl _) (Nat.lt_succ_self _), Nat.sub_self]
    rfl
  · exact hdata
  · rw [hdata, getInt32_reflection]

theorem driveColor_frame (hk : ¬ ColorCovers t k) : (driveColor t s).byte k = s.byte k := by
  by_cases h : ColorValid t
  · have hout := not_or.mp (not_and.mp hk h)
    have hentry := entryAt_lt (colorPort t)
    have hlen := reflectionBytes_length t
    have hone : [colorPort t].length = 1 := rfl
    rw [driveColor_valid h, SpikeStatus.byte_write_out (by omega),
      SpikeStatus.byte_write_out (by omega)]
  · rw [driveColor_invalid h]

/-! ## the merge -/

/-- the entry of a port is the same in two records -/
def SameEntry (port : Byte) (s s' : SpikeStatus) : Prop :=
  ∀ k, entryAt port ≤ k → k < entryAt port + 16 → s'.byte k = s.byte k

theorem SameEntry.bytes {port : Byte} (h : SameEntry port s s') {i n : Nat} (hin : i + n ≤ 12) :
    s'.bytes (dataAt port + i) n = s.bytes (dataAt port + i) n := by
  have hentry := entryAt_lt port
  apply SpikeStatus.bytes_congr
  intro k hk
  exact h _ (by omega) (by omega)

theorem MotorEntry.same (h : MotorEntry t slot s) (hs : SameEntry (motorPort t slot) s s') :
    MotorEntry t slot s' where
  port := (hs _ (Nat.le_refl _) (by omega)).trans h.port
  count := (hs.bytes (by decide)).trans h.count
  speed := (hs.bytes (by decide)).trans h.speed
  power := (hs.bytes (by decide)).trans h.power

theorem entries_apart {p q : Byte} (h : p ≠ q) :
    entryAt p + 16 ≤ entryAt q ∨ entryAt q + 16 ≤ entryAt p :=
  portOffset_ne fun heq => h (BitVec.eq_of_toNat_eq heq)

theorem driveMotor_same (hlen : t.length = driveTelemetrySize) (hs : slot < 2) {port : Byte}
    (h : MotorValid t slot → motorPort t slot ≠ port) : SameEntry port s (driveMotor t slot s) := by
  intro k hlow hhigh
  apply driveMotor_frame hlen hs
  rintro ⟨hvalid, hk⟩
  have hapart := entries_apart (h hvalid)
  have hentry := entryAt_lt (motorPort t slot)
  omega

theorem driveColor_same {port : Byte} (h : ColorValid t → colorPort t ≠ port) :
    SameEntry port s (driveColor t s) := by
  intro k hlow hhigh
  apply driveColor_frame
  rintro ⟨hvalid, hk⟩
  have hapart := entries_apart (h hvalid)
  have hentry := entryAt_lt (colorPort t)
  omega

/-- what the merge of a drive telemetry message makes of a saved status -/
structure DriveMerged (t : List Byte) (s s' : SpikeStatus) : Prop where
  /-- motor slot 0, motor slot 1, color -/
  order : s' = driveColor t (driveMotor t 1 (driveMotor t 0 s))
  motor : Distinct t → ∀ slot < 2, MotorValid t slot → MotorEntry t slot s'
  color : ColorValid t → ColorEntry t s'
  frame : ∀ k < 136, ¬ Covered t k → s'.byte k = s.byte k

theorem driveMerge_merged (hlen : t.length = driveTelemetrySize) (s : SpikeStatus) :
    DriveMerged t s (driveMerge t s) where
  order := rfl
  motor hd slot hs hvalid := by
    have hcolor : ∀ s₁, SameEntry (motorPort t slot) s₁ (driveColor t s₁) := fun _ =>
      driveColor_same fun hc => (hd.color slot hs hvalid hc).symm
    match slot, hs with
    | 0, hs =>
      have hother : ∀ s₁, SameEntry (motorPort t 0) s₁ (driveMotor t 1 s₁) := fun _ =>
        driveMotor_same hlen (by decide) fun h1 => (hd.motors hvalid h1).symm
      exact ((driveMotor_entry hlen hs hvalid).same (hother _)).same (hcolor _)
    | 1, hs => exact (driveMotor_entry hlen hs hvalid).same (hcolor _)
  color hvalid := driveColor_entry hvalid
  frame k _ hk := by
    obtain ⟨h0, h12⟩ := not_or.mp hk
    obtain ⟨h1, h2⟩ := not_or.mp h12
    show (driveColor t (driveMotor t 1 (driveMotor t 0 s))).byte k = s.byte k
    rw [driveColor_frame h2, driveMotor_frame hlen (by decide) h1, driveMotor_frame hlen (by decide) h0]

end RaspikeArt
