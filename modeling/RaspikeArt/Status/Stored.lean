import RaspikeArt.Status.Drive
import RaspikeArt.Transport.Slots

/-!
# The saved status, part 3: what the commands store

* `Saved p s`              the saved status is `s`, at `p`, and no mutex is held;
* `updateStatus_finishes`  a command replaces it or merges into it;
* `drive_telemetry`        a drive telemetry command stores the merge, and the getters show it.
-/

namespace RaspikeArt
open Threads

/-- a library with a saved status, while no thread is at work -/
structure Saved (p : Nat) (s : SpikeStatus) (w : Solo) : Prop where
  pointer : w.mem.fgStatus = some p
  record : w.mem.heap p = some s
  free : ∀ l, w.own l = none

/-- the memory with another record -/
def Mem.store (m : Mem) (p : Nat) (s : SpikeStatus) : Mem :=
  { m with heap := Function.update m.heap p (some s) }

variable {w : Solo} {p : Nat} {s : SpikeStatus}

/-- what a read through the pointer shows -/
theorem Saved.shown {w : Solo} {p : Nat} {s : SpikeStatus} (h : Saved p s w) :
    (w.mem.fgStatus.bind w.mem.heap).getD zeroStatus = s := by
  rw [h.pointer, Option.bind_some, h.record, Option.getD_some]

theorem release_free {w : Solo} (hfree : ∀ l, w.own l = none) {l : Mutex} {w' : Solo}
    (h : w'.own = (w.acquire () l).own) (k : Mutex) : (w'.release l).own k = none := by
  rw [World.release_own, h, World.acquire_own]
  split
  · rfl
  · exact hfree k

/-! ## commands -/

/-- a frame of the current session, or of a library that does not check it -/
def Current (session : U32) (w : Solo) : Prop :=
  w.mem.fgUseProtocolV2 = true → session = w.mem.fgSessionId

theorem staleCheck_finishes {session : U32} {Q : Bool → Solo → Prop} (h : Current session w)
    (hQ : Q false w) : Finishes (do
      let v2 ← load fun m => m.fgUseProtocolV2
      if v2 then load fun m => session != m.fgSessionId else pure false : P Bool) w Q := by
  apply finish_bind
  apply finish_load
  by_cases hv2 : w.mem.fgUseProtocolV2 = true
  · rw [if_pos hv2]
    apply finish_load
    have hsame : (session != w.mem.fgSessionId) = false := by simp [h hv2]
    rwa [hsame]
  · rw [if_neg hv2]
    exact finish_pure hQ

theorem writeStatus_finishes {f : SpikeStatus → SpikeStatus} {Q : Unit → Solo → Prop}
    (hp : w.mem.fgStatus = some p) (hs : w.mem.heap p = some s)
    (hQ : ∀ tr, Q () { w with mem := w.mem.store p (f s), trace := tr }) :
    Finishes (writeStatus f) w Q := by
  apply finish_bind
  apply finish_load
  apply finish_eval (b := ()) (m := w.mem.store p (f s)) rfl ?_ (hQ _)
  simp only [hp, hs, Mem.store, Option.map_some]

/-- what a section under `fgStatusMutex` leaves -/
theorem Saved.stored (h : Saved p s w) (s' : SpikeStatus) (tr : Trace Unit) :
    Saved p s' (World.release { w.acquire () .fgStatus with mem := w.mem.store p s', trace := tr }
      Mutex.fgStatus) where
  pointer := h.pointer
  record := Function.update_self ..
  free := release_free h.free rfl

theorem updateStatus_finishes (h : Saved p s w) (f : SpikeStatus → SpikeStatus) :
    Finishes (updateStatus f) w fun r w' =>
      r = 0 ∧ Saved p (f s) w' ∧ w'.mem = w.mem.store p (f s) := by
  apply finish_bind
  apply finish_lock (h.free _)
  apply finish_bind
  have hp : (w.acquire () .fgStatus).mem.fgStatus = some p := h.pointer
  apply writeStatus_finishes hp h.record
  intro tr
  apply finish_bind
  apply finish_broadcast
  apply finish_bind
  apply finish_unlock
  exact finish_pure ⟨rfl, h.stored _ _, rfl⟩

theorem allStatus_finishes (h : Saved p s w) {port flags : Byte} {sequence session : U32}
    {buf : List Byte} (hport : raspikeIsValidPort port) (hcur : Current session w)
    (hlen : buf.length = spikeStatusSize) :
    Finishes (processCommand port rpCmdIdAllStatus flags sequence session buf) w fun r w' =>
      r = 0 ∧ Saved p (.ofBytes buf) w' ∧ w'.mem = w.mem.store p (.ofBytes buf) := by
  have hlog : Saved p s (w.log (.command port rpCmdIdAllStatus flags sequence session buf)) :=
    ⟨h.pointer, h.record, h.free⟩
  have hcurrent : Current session (w.log (.command port rpCmdIdAllStatus flags sequence session buf)) :=
    hcur
  apply finish_bind
  apply finish_tick
  rw [if_neg (by decide), if_neg (by simp [hport])]
  apply finish_bind
  apply staleCheck_finishes hcurrent
  rw [if_neg (by decide), if_pos rfl, if_neg (not_not.mpr hlen)]
  exact updateStatus_finishes hlog fun _ => .ofBytes buf

theorem driveTelemetry_finishes (h : Saved p s w) {port flags : Byte} {sequence session : U32}
    {t : List Byte} (hport : raspikeIsValidPort port) (hcur : Current session w)
    (hlen : t.length = driveTelemetrySize) :
    Finishes (processCommand port rpCmdIdDriveTelemetry flags sequence session t) w fun r w' =>
      r = 0 ∧ Saved p (driveMerge t s) w' ∧ w'.mem = w.mem.store p (driveMerge t s) := by
  have hlog : Saved p s (w.log (.command port rpCmdIdDriveTelemetry flags sequence session t)) :=
    ⟨h.pointer, h.record, h.free⟩
  have hcurrent : Current session
      (w.log (.command port rpCmdIdDriveTelemetry flags sequence session t)) := hcur
  apply finish_bind
  apply finish_tick
  rw [if_neg (by decide), if_neg (by simp [hport])]
  apply finish_bind
  apply staleCheck_finishes hcurrent
  rw [if_neg (by decide), if_neg (by decide), if_neg (by decide), if_pos rfl,
    if_neg (not_not.mpr hlen)]
  exact updateStatus_finishes hlog (driveMerge t)

/-! ## getters -/

/-- a getter shows the bytes of the port that the handle names -/
theorem getAndRetSensorCommon_finishes (h : Saved p s w) {i : Port} (index size : Nat)
    (hport : raspikeIsValidPort (w.mem.gPortDevices i).device.portId) :
    Finishes (getAndRetSensorCommon (some i) index size) w fun r _ =>
      r = s.bytes (dataAt (w.mem.gPortDevices i).device.portId + index) size := by
  apply finish_bind
  apply finish_load
  rw [if_neg (by simp [hport])]
  apply finish_bind
  apply finish_act
  rw [if_neg (by simp [h.pointer])]
  apply finish_bind
  apply finish_load
  apply finish_bind
  apply finish_lock
  case hl => exact h.free _
  apply finish_bind
  apply finish_act
  apply finish_bind
  apply finish_unlock
  apply finish_pure
  exact congrArg (fun s' => SpikeStatus.bytes s' _ size) h.shown

theorem motorPort_valid {t : List Byte} {slot : Nat} (h : MotorValid t slot) :
    raspikeIsValidPort (motorPort t slot) := by
  simp [raspikeIsValidPort, h.2]

/-- **Drive telemetry.**  An accepted message stores its merge: slot by slot the entries of the
ports, every other byte as it was; and the getters of a motor show what its slot carried. -/
theorem drive_telemetry (h : Saved p s w) {port flags : Byte} {sequence session : U32}
    {t : List Byte} (hport : raspikeIsValidPort port) (hcur : Current session w)
    (hlen : t.length = driveTelemetrySize) :
    Finishes (processCommand port rpCmdIdDriveTelemetry flags sequence session t) w fun r w' =>
      r = 0 ∧ ∃ s', Saved p s' w' ∧ w'.mem = w.mem.store p s' ∧ DriveMerged t s s' ∧
        ∀ slot < 2, MotorValid t slot → Distinct t → ∀ i,
          (w.mem.gPortDevices i).device.portId = motorPort t slot →
          Finishes (pupMotorGetCount (some i)) w' (fun r _ => r = getInt32 (motorCount t slot)) ∧
          Finishes (pupMotorGetSpeed (some i)) w' (fun r _ => r = getInt32 (motorSpeed t slot)) := by
  apply finish_mono (driveTelemetry_finishes h hport hcur hlen)
  rintro r w' ⟨hr, hsaved, hmem⟩
  have hmerged := driveMerge_merged hlen s
  refine ⟨hr, _, hsaved, hmem, hmerged, fun slot hslot hvalid hd i hi => ?_⟩
  have hentry := hmerged.motor hd slot hslot hvalid
  have hid : (w'.mem.gPortDevices i).device.portId = motorPort t slot := by
    rw [hmem]
    exact hi
  have hget : ∀ index size, Finishes (getAndRetSensorCommon (some i) index size) w' fun r _ =>
      r = (driveMerge t s).bytes (dataAt (motorPort t slot) + index) size := by
    intro index size
    have hread := getAndRetSensorCommon_finishes hsaved index size (hid ▸ motorPort_valid hvalid)
    rwa [hid] at hread
  constructor
  · apply finish_seq (hget rpMotorIndexCount 4)
    rintro bs w₂ rfl
    exact finish_pure (congrArg getInt32 hentry.count)
  · apply finish_seq (hget rpMotorIndexSpeed 4)
    rintro bs w₂ rfl
    exact finish_pure (congrArg getInt32 hentry.speed)

theorem freshWorld_saved : Saved 0 zeroStatus freshWorld := ⟨rfl, rfl, fun _ => rfl⟩

/-- both motors, on ports 0 and 1, and the color sensor, on port 2 -/
def bothMotors : List Byte :=
  List.replicate 8 0 ++ [1, 0, 0, 0, 2, 0, 0, 0, 3, 0, 0, 0, 4, 0, 0, 0, 5, 0, 6, 0, 0xff, 0xff] ++
    [0, 1, 2, 7]

theorem drive_telemetry_both :
    Finishes (processCommand 255 rpCmdIdDriveTelemetry 0 0 freshSession bothMotors) freshWorld
      fun r w' => r = 0 ∧ ∃ s', Saved 0 s' w' ∧ w'.mem = freshWorld.mem.store 0 s' ∧
        DriveMerged bothMotors zeroStatus s' ∧
        ∀ slot < 2, MotorValid bothMotors slot → Distinct bothMotors → ∀ i,
          (freshWorld.mem.gPortDevices i).device.portId = motorPort bothMotors slot →
          Finishes (pupMotorGetCount (some i)) w'
            (fun r _ => r = getInt32 (motorCount bothMotors slot)) ∧
          Finishes (pupMotorGetSpeed (some i)) w'
            (fun r _ => r = getInt32 (motorSpeed bothMotors slot)) :=
  drive_telemetry freshWorld_saved (by decide) (fun _ => rfl) rfl

end RaspikeArt
