import RaspikeArt.Status.Stored
import RaspikeArt.Model.Colors

/-!
# The saved status, part 4: drive telemetry and the modes of the color sensor

The data of a port are read as its `cmd` says, but only a full status sets `cmd`; drive telemetry
writes a reflection, or the values of a motor, whatever it is.

* `carried`        the record of the latest full status;
* `PassesBy port`  no drive telemetry names the port while it is in a mode of its own;
* `other_modes`    then a getter shows what the latest full status carried.
-/

namespace RaspikeArt
open Threads

/-- a frame that `process_command` stores -/
structure StatusMessage where
  drive : Bool
  port : Byte
  flags : Byte
  sequence : U32
  payload : List Byte

namespace StatusMessage

def cmd (m : StatusMessage) : Byte :=
  if m.drive then rpCmdIdDriveTelemetry else rpCmdIdAllStatus

structure Accepted (m : StatusMessage) : Prop where
  port : raspikeIsValidPort m.port
  size : m.payload.length = if m.drive then driveTelemetrySize else spikeStatusSize

/-- what it makes of the saved status -/
def apply (m : StatusMessage) (s : SpikeStatus) : SpikeStatus :=
  if m.drive then driveMerge m.payload s else .ofBytes m.payload

/-- what it is handled with, in a session -/
def handle (session : U32) (m : StatusMessage) : P Unit := do
  let _ ← processCommand m.port m.cmd m.flags m.sequence session m.payload

end StatusMessage

/-- the record of the latest full status, `s` at first -/
def carried (s : SpikeStatus) (ms : List StatusMessage) : SpikeStatus :=
  ms.foldl (fun c m => if m.drive then c else .ofBytes m.payload) s

def stored (s : SpikeStatus) (ms : List StatusMessage) : SpikeStatus :=
  ms.foldl (fun c m => m.apply c) s

/-- a color mode other than the reflection -/
def OtherMode (cmd : Byte) : Prop := ∃ mode : ColorMode, mode ≠ .reflection ∧ mode.cmd = cmd

/-- a valid slot of the message names the port -/
def Names (t : List Byte) (port : Byte) : Prop :=
  (∃ slot < 2, MotorValid t slot ∧ motorPort t slot = port) ∨ ColorValid t ∧ colorPort t = port

instance (t : List Byte) (port : Byte) : Decidable (Names t port) :=
  inferInstanceAs (Decidable (_ ∨ _))

/-- no drive telemetry names the port while it is in another mode -/
def PassesBy (port : Byte) : SpikeStatus → List StatusMessage → Prop
  | _, [] => True
  | s, m :: ms => (m.drive = true → OtherMode (s.cmd port) → ¬ Names m.payload port) ∧
      PassesBy port (m.apply s) ms

/-! ## the entry of a port -/

section
variable {port : Byte} {s c : SpikeStatus} {t : List Byte}

theorem cmd_eq (s : SpikeStatus) (port : Byte) : s.cmd port = s.byte (entryAt port + 1) := rfl

/-- drive telemetry never writes the `cmd` of a port -/
theorem driveMerge_cmd (hlen : t.length = driveTelemetrySize) (hport : port.toNat < rpDevicePortCount) :
    (driveMerge t s).cmd port = s.cmd port := by
  have hbound := entry_bound hport
  have hentry := entryAt_lt port
  have hout : ∀ {q : Byte} {n : Nat}, n ≤ 10 →
      ¬ (entryAt port + 1 = entryAt q ∨ dataAt q ≤ entryAt port + 1 ∧ entryAt port + 1 < dataAt q + n) := by
    intro q n hn
    have hq := entryAt_lt q
    by_cases heq : port = q
    · subst heq
      omega
    · have hapart := entries_apart heq
      omega
  rw [cmd_eq, cmd_eq]
  apply (driveMerge_merged hlen s).frame _ (by omega)
  rintro (⟨-, h⟩ | ⟨-, h⟩ | ⟨-, h⟩)
  · exact hout (by decide) h
  · exact hout (by decide) h
  · exact hout (by decide) h

/-- a message that does not name a port leaves its entry alone -/
theorem driveMerge_same (hlen : t.length = driveTelemetrySize) (h : ¬ Names t port) :
    SameEntry port s (driveMerge t s) := by
  have hmotor : ∀ slot < 2, MotorValid t slot → motorPort t slot ≠ port := fun slot hs hv heq =>
    h (.inl ⟨slot, hs, hv, heq⟩)
  have h0 := driveMotor_same (s := s) hlen (by decide) (hmotor 0 (by decide))
  have h1 := driveMotor_same (s := driveMotor t 0 s) hlen (by decide) (hmotor 1 (by decide))
  have h2 := driveColor_same (s := driveMotor t 1 (driveMotor t 0 s)) fun hc heq => h (.inr ⟨hc, heq⟩)
  intro k hlow hhigh
  rw [← h0 k hlow hhigh, ← h1 k hlow hhigh, ← h2 k hlow hhigh]
  rfl

/-- the saved status still shows what the latest full status said of the port -/
structure Shown (port : Byte) (s c : SpikeStatus) : Prop where
  cmd : s.cmd port = c.cmd port
  entry : OtherMode (s.cmd port) → SameEntry port c s

theorem Shown.refl (port : Byte) (s : SpikeStatus) : Shown port s s := ⟨rfl, fun _ _ _ _ => rfl⟩

theorem Shown.step (h : Shown port s c) (hport : port.toNat < rpDevicePortCount) {m : StatusMessage}
    (hm : m.Accepted) (hl : m.drive = true → OtherMode (s.cmd port) → ¬ Names m.payload port) :
    Shown port (m.apply s) (if m.drive then c else .ofBytes m.payload) := by
  have hsize := hm.size
  unfold StatusMessage.apply
  cases hd : m.drive with
  | false => exact Shown.refl port _
  | true =>
    rw [hd] at hsize
    have hcmd : (driveMerge m.payload s).cmd port = s.cmd port := driveMerge_cmd hsize hport
    refine ⟨hcmd.trans h.cmd, fun hmode k hlow hhigh => ?_⟩
    have hmode' : OtherMode (s.cmd port) := hcmd ▸ hmode
    have hsame := driveMerge_same (s := s) hsize (hl hd hmode') k hlow hhigh
    exact hsame.trans (h.entry hmode' k hlow hhigh)

theorem Shown.carried {ms : List StatusMessage} (h : Shown port s c) (hport : port.toNat < rpDevicePortCount)
    (hms : ∀ m ∈ ms, m.Accepted) (hl : PassesBy port s ms) : Shown port (stored s ms) (carried c ms) := by
  induction ms generalizing s c with
  | nil => exact h
  | cons m ms ih =>
    have hstep := h.step hport (hms m List.mem_cons_self) hl.1
    exact ih hstep (fun m' hm' => hms m' (List.mem_cons_of_mem _ hm')) hl.2

end

/-! ## the run -/

variable {w : Solo} {p : Nat} {s : SpikeStatus} {session : U32}

theorem handle_finishes (h : Saved p s w) (hcur : Current session w) {m : StatusMessage}
    (hm : m.Accepted) : Finishes (m.handle session) w fun _ w' =>
      Saved p (m.apply s) w' ∧ w'.mem = w.mem.store p (m.apply s) := by
  have hsize := hm.size
  apply finish_bind
  unfold StatusMessage.apply StatusMessage.cmd
  cases hd : m.drive with
  | true =>
    rw [hd] at hsize
    apply finish_mono (driveTelemetry_finishes h hm.port hcur hsize)
    rintro r w' ⟨-, hsaved, hmem⟩
    exact finish_pure ⟨hsaved, hmem⟩
  | false =>
    rw [hd] at hsize
    apply finish_mono (allStatus_finishes h hm.port hcur hsize)
    rintro r w' ⟨-, hsaved, hmem⟩
    exact finish_pure ⟨hsaved, hmem⟩

theorem handleAll_finishes {ms : List StatusMessage} (h : Saved p s w) (hcur : Current session w)
    (hms : ∀ m ∈ ms, m.Accepted) : Finishes (forEach ms (StatusMessage.handle session)) w fun _ w' =>
      Saved p (stored s ms) w' ∧ w'.mem.gPortDevices = w.mem.gPortDevices := by
  induction ms generalizing s w with
  | nil => exact finish_pure ⟨h, rfl⟩
  | cons m ms ih =>
    apply finish_seq (handle_finishes h hcur (hms m List.mem_cons_self))
    rintro _ w₁ ⟨hsaved, hmem⟩
    have hcur₁ : Current session w₁ := by
      intro hv2
      rw [hmem] at hv2 ⊢
      exact hcur hv2
    apply finish_mono (ih hsaved hcur₁ fun m' hm' => hms m' (List.mem_cons_of_mem _ hm'))
    rintro _ w₂ ⟨hsaved₂, hports⟩
    refine ⟨hsaved₂, hports.trans ?_⟩
    rw [hmem]
    rfl

/-- a mode that is set already is not asked for -/
theorem raspikePortComChangeIfNeeded_finishes (h : Saved p s w) {port cmd : Byte}
    (hport : port.toNat < rpDevicePortCount) (hcmd : s.cmd port = cmd) :
    Finishes (raspikePortComChangeIfNeeded port cmd) w fun r w' =>
      r = 0 ∧ Saved p s w' ∧ w'.mem = w.mem := by
  unfold raspikePortComChangeIfNeeded
  rw [if_neg (Nat.not_le.mpr hport)]
  apply finish_bind
  apply finish_act
  rw [if_neg (by simp [h.pointer])]
  apply finish_bind
  apply finish_lock
  case hl => exact h.free _
  apply finish_bind
  apply finish_load
  apply finish_bind
  apply finish_eval (b := cmd) (m := w.mem) rfl
  · show (SpikeStatus.cmd ((w.mem.fgStatus.bind w.mem.heap).getD zeroStatus) port, w.mem) = _
    rw [h.shown, hcmd]
  apply finish_bind
  apply finish_unlock
  rw [if_pos rfl]
  exact finish_pure ⟨rfl, ⟨h.pointer, h.record, release_free h.free rfl⟩, rfl⟩

/-- a getter whose mode is set already reads the data of the port -/
theorem delayedSensorCommon_finishes (h : Saved p s w) {i : Port} {port cmd : Byte} {size : Nat}
    (hid : (w.mem.gPortDevices i).device.portId = port) (hport : port.toNat < rpDevicePortCount)
    (hcmd : s.cmd port = cmd) : Finishes (delayedSensorCommon (some i) cmd size) w fun r _ =>
      r = s.bytes (dataAt port) size := by
  have hvalid : raspikeIsValidPort port := by simp [raspikeIsValidPort, hport]
  apply finish_bind
  apply finish_load
  rw [hid, if_neg (by simp [hvalid])]
  apply finish_bind
  apply finish_load
  rw [hid]
  apply finish_seq (raspikePortComChangeIfNeeded_finishes h hport hcmd)
  rintro r w₁ ⟨rfl, h₁, -⟩
  rw [if_neg (by decide)]
  apply finish_bind
  apply finish_act
  rw [if_neg (by simp [h₁.pointer])]
  apply finish_bind
  apply finish_lock
  case hl => exact h₁.free _
  apply finish_bind
  apply finish_act
  apply finish_bind
  apply finish_unlock
  apply finish_pure
  exact congrArg (fun s' => SpikeStatus.bytes s' _ size) h₁.shown

/-- **Other modes.**  While no drive telemetry names a port that is in a color mode other than the
reflection, the getter of that mode shows what the latest full status carried for the port. -/
theorem other_modes (h : Saved p s w) (hcur : Current session w) {ms : List StatusMessage}
    (hms : ∀ m ∈ ms, m.Accepted) {i : Port} {port : Byte}
    (hid : (w.mem.gPortDevices i).device.portId = port) (hport : port.toNat < rpDevicePortCount)
    (hl : PassesBy port s ms) {mode : ColorMode} (hmode : mode ≠ .reflection) :
    Finishes (forEach ms (StatusMessage.handle session)) w fun _ w' => ∃ s', Saved p s' w' ∧
      (s'.cmd port = mode.cmd → Finishes (mode.get (some i)) w' fun r _ =>
        r = (carried s ms).bytes (dataAt port) mode.size) := by
  apply finish_mono (handleAll_finishes h hcur hms)
  rintro _ w' ⟨hsaved, hports⟩
  refine ⟨_, hsaved, fun hcmd => ?_⟩
  have hid' : (w'.mem.gPortDevices i).device.portId = port := by rw [hports, hid]
  have hkept := Shown.carried (Shown.refl port s) hport hms hl
  have hentry := hkept.entry ⟨mode, hmode, hcmd.symm⟩
  have hsize := mode.size_le
  rw [mode.get_eq]
  apply finish_mono (delayedSensorCommon_finishes hsaved hid' hport hcmd)
  rintro r _ rfl
  exact hentry.bytes (i := 0) (by omega)

/-- a full status: port 2 is in the mode of `pup_color_sensor_rgb` and shows 10, 20, 30 -/
def rgbStatus : StatusMessage where
  drive := false
  port := 255
  flags := 0
  sequence := 0
  payload := List.replicate 72 0 ++ [2, 0x21, 0, 0, 10, 0, 20, 0, 30, 0] ++ List.replicate 54 0

theorem rgbStatus_accepted : rgbStatus.Accepted :=
  ⟨by decide, by simp [rgbStatus, spikeStatusSize]⟩

/-- drive telemetry of a reflection on a port, and no motors -/
def reflectionTelemetry (port : Byte) : StatusMessage where
  drive := true
  port := 255
  flags := 0
  sequence := 0
  payload := List.replicate 28 0 ++ [0x34, 0x12, 0xff, 0xff, port, 4]

theorem reflectionTelemetry_accepted (port : Byte) : (reflectionTelemetry port).Accepted :=
  ⟨by show raspikeIsValidPort 255; decide, rfl⟩

/-- `freshWorld`, with a device on port 2 -/
def deviceOnTwo : Solo :=
  ⟨(freshMem [] []).setPort 2 fun d => { d with device := ⟨2, rpCmdTypeColor, 0, 0⟩ }, fun _ => none, []⟩

theorem deviceOnTwo_saved : Saved 0 zeroStatus deviceOnTwo := ⟨rfl, rfl, fun _ => rfl⟩
theorem deviceOnTwo_current : Current freshSession deviceOnTwo := fun _ => rfl
theorem deviceOnTwo_port : (deviceOnTwo.mem.gPortDevices 2).device.portId = 2 := rfl

theorem accepted_pair (port : Byte) :
    ∀ m ∈ [rgbStatus, reflectionTelemetry port], m.Accepted := by
  intro m hm
  simp only [List.mem_cons, List.not_mem_nil, or_false] at hm
  rcases hm with rfl | rfl
  · exact rgbStatus_accepted
  · exact reflectionTelemetry_accepted port

theorem other_modes_apart :
    Finishes (forEach [rgbStatus, reflectionTelemetry 3] (StatusMessage.handle freshSession)) deviceOnTwo
      fun _ w' => ∃ s', Saved 0 s' w' ∧ (s'.cmd 2 = ColorMode.rgb.cmd →
        Finishes (ColorMode.rgb.get (some 2)) w' fun r _ =>
          r = (carried zeroStatus [rgbStatus, reflectionTelemetry 3]).bytes (dataAt 2) 6) :=
  other_modes deviceOnTwo_saved deviceOnTwo_current (accepted_pair 3) deviceOnTwo_port (by decide)
    ⟨nofun, fun _ _ => by decide, trivial⟩ nofun

/-- a reflection on the port of the sensor: the getter of the RGB mode does not show what the full
status carried -/
theorem telemetry_corrupts :
    Finishes (forEach [rgbStatus, reflectionTelemetry 2] (StatusMessage.handle freshSession)) deviceOnTwo
      fun _ w' => ∃ s', Saved 0 s' w' ∧ s'.cmd 2 = ColorMode.rgb.cmd ∧
        Finishes (ColorMode.rgb.get (some 2)) w' fun r _ =>
          r ≠ (carried zeroStatus [rgbStatus, reflectionTelemetry 2]).bytes (dataAt 2) 6 := by
  apply finish_mono (handleAll_finishes deviceOnTwo_saved deviceOnTwo_current (accepted_pair 2))
  rintro _ w' ⟨hsaved, hports⟩
  have hid : (w'.mem.gPortDevices 2).device.portId = 2 := by
    rw [hports]
    rfl
  refine ⟨_, hsaved, by decide +kernel, ?_⟩
  rw [ColorMode.get_eq]
  apply finish_mono (delayedSensorCommon_finishes hsaved hid (by decide) (by decide +kernel))
  rintro r _ rfl
  decide +kernel

end RaspikeArt
