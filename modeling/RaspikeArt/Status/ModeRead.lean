import RaspikeArt.Status.Reset
import Mathlib.Data.List.TakeWhile

/-!
# The saved status, part 8: the mode of a reading

`DELAYED_SENSOR_COMMON` looks for its mode in one critical section and copies the data in another.
A status that is stored in between may be of another mode.

* `frameMode`             the mode that a frame carries for a port;
* `ChangeLabels`          what a change of the mode does last: it has found the mode, or it has failed;
* `SensorLabels`          what a getter does last: it has found its mode, and then copies;
* `mode_of_reading`       when the copy is of that mode;
* `reading_of_other_mode` a run in which it is not.
-/

namespace RaspikeArt
open Threads

/-! ## the mode of a port -/

def SpikeStatus.mode (s : SpikeStatus) (i : Port) : Byte := s.byte (portOffset i.val + cmdOffset)

/-- the mode that a frame carries for the port; drive telemetry carries none -/
def frameMode (i : Port) (cmd : Byte) (payload : List Byte) : Option Byte :=
  if cmd = rpCmdIdLinkHello then some 0
  else if cmd = rpCmdIdAllStatus then some ((SpikeStatus.ofBytes payload).mode i)
  else none

variable {i : Port}

theorem zeroStatus_mode (i : Port) : zeroStatus.mode i = 0 := by
  simp [SpikeStatus.mode, SpikeStatus.byte, zeroStatus]

theorem frameStore_mode (hi : i.val < 6) (cmd : Byte) (payload : List Byte) (s : SpikeStatus) :
    (frameStore cmd payload s).mode i = (frameMode i cmd payload).getD (s.mode i) := by
  unfold frameStore frameMode
  split
  · exact zeroStatus_mode i
  split
  · rfl
  split
  case isTrue h =>
    obtain ⟨port, hport⟩ := entry_of_port hi
    have hcmd : (driveMerge payload s).cmd port = s.cmd port := driveMerge_cmd h.2 (hport ▸ hi)
    rwa [SpikeStatus.cmd, SpikeStatus.cmd, hport] at hcmd
  case isFalse => rfl

/-- the reset of a count leaves every mode alone -/
theorem clearCount_mode (j : Port) (s : SpikeStatus) : (clearCount j s).mode i = s.mode i := by
  apply SpikeStatus.byte_write_out
  show portOffset i.val + 1 < portOffset j.val + 4 ∨ portOffset j.val + 4 + 4 ≤ portOffset i.val + 1
  unfold portOffset
  omega

variable {T : Type} [DecidableEq T]

theorem mode_carries (hi : i.val < 6) (ys xs : Trace T) :
    Carries (fun s => s.mode i) (frameMode i) ys xs where
  frame := frameStore_mode hi
  other _ _ _ _ j _ _ _ s := clearCount_mode j s

/-! ## what a getter does last -/

/-- the last label is a look at the saved status that finds the mode -/
def Found (i : Port) (cmd : Byte) (g : List (Event × SpikeStatus)) : Prop :=
  ∃ q s g', g = (.statusUse q, s) :: g' ∧ s.mode i = cmd

/-- the frame that asks for a mode is refused, or the wait for the mode gives up, with this result -/
def Event.refuses : Event → Int → Prop
  | .sendEnd r, r' => r < 0 ∧ r' = r
  | .statusWoken ret, r' => ret ≠ 0 ∧ ret ≠ EINTR ∧ r' = -ret
  | _, _ => False

/-- the last label says that the change of the mode has failed, and with what result -/
def Failed (r : Int) (g : List (Event × SpikeStatus)) : Prop := ∃ e v g', g = (e, v) :: g' ∧ e.refuses r

/-- a change of the mode has succeeded if it has found the mode last, and else says why it has failed -/
def ChangeLabels (i : Port) (cmd : Byte) (r : Int) (g : List (Event × SpikeStatus)) : Prop :=
  (r = 0 ∧ Found i cmd g) ∨ (r ≠ 0 ∧ Failed r g)

/-- a getter returns zeros if the change of its mode has failed, and else what it has copied after it has
found the mode -/
def SensorLabels (i : Port) (cmd : Byte) (size : Nat) (bs : List Byte) (g : List (Event × SpikeStatus)) : Prop :=
  ((∃ r, r ≠ 0 ∧ Failed r g) ∧ bs = List.replicate size 0) ∨ ∃ q s q' v g', g = (.statusUse q, s) :: (.statusFetch q', v) :: g' ∧
    bs = s.bytes (portOffset i.val + dataOffset) size ∧ Found i cmd g'

def sensorPromise (i : Port) (g : List (Event × SpikeStatus)) (e : Event) (_ : SpikeStatus) : Prop :=
  ∀ cmd size bs, e = .returned (.delayedSensor (some i) cmd size) (.bytes bs) → SensorLabels i cmd size bs g

theorem sensorPromise_atCalls (i : Port) : AtCalls (sensorPromise i) := by
  rintro g e v he cmd size bs rfl
  exact (he rfl).elim

section
variable {p : Nat} {hs : Set Port} {g : List (Event × SpikeStatus)}
  {A : List (Event × SpikeStatus) → Event → SpikeStatus → Prop}

/-- a send leaves its result last -/
theorem send_ends (hA : AtCalls A) (port cmd : Byte) (buf : Buf) (size : Int) :
    along (watching p hs A) (raspikeProtSendPriority port cmd buf size)
      (fun r g' => ∃ v g₀, g' = (.sendEnd r, v) :: g₀) g := by
  apply along_seq (draw_reading hA)
  intro sequence g₁ _
  apply along_mono _ (sendFrame_reading hA port cmd buf size sequence _ _)
  rintro r g' ⟨qs, rfl, es', hes, -⟩
  cases qs with
  | nil => cases hes
  | cons x qs =>
    obtain ⟨e, v⟩ := x
    obtain ⟨rfl, -⟩ := List.cons.inj hes
    exact ⟨v, _, rfl⟩

/-- a look at the mode, through a pointer to the saved status -/
theorem look_labels (hA : AtCalls A) {port cmd : Byte} (hport : port.toNat = i.val) {α : Type} {f : Byte → P α}
    {Q : α → List (Event × SpikeStatus) → Prop}
    (hf : ∀ found g', (found = cmd → Found i cmd g') →
      along (watching p hs A) (f found) Q g') :
    along (watching p hs A) (do
      let status ← load fun m => m.fgStatus
      let found ← readStatus status fun s => s.cmd port
      f found) Q g := by
  apply along_bind
  apply along_act
  intro m hm
  refine ⟨trivial, ?_⟩
  apply along_bind
  apply along_act
  intro m' hm'
  refine ⟨hA _ (.statusUse m.fgStatus) m'.record nofun, hf _ _ fun hfound => ⟨m.fgStatus, m'.record, g, rfl, ?_⟩⟩
  rw [← hfound]
  show _ = SpikeStatus.cmd ((m.fgStatus.bind m'.heap).getD zeroStatus) port
  rw [hm.pointer, ← hm'.pointer, SpikeStatus.cmd, hport]
  rfl

theorem wait_labels (hA : AtCalls A) {port cmd : Byte} (hi : i.val < 6) (hport : port.toNat = i.val) :
    along (watching p hs A) (raspikeWaitPortCmdChange port cmd)
      (fun r g' => ChangeLabels i cmd r g') g := by
  have hvalid : ¬ port.toNat ≥ rpDevicePortCount := by
    rw [hport]
    exact Nat.not_le.mpr hi
  unfold raspikeWaitPortCmdChange
  rw [if_neg hvalid]
  apply along_bind
  apply along_act
  intro m hm
  refine ⟨hA _ (.statusFetch m.fgStatus) m.record nofun, ?_⟩
  show along (watching p hs A) (if m.fgStatus.isNone = true then _ else _) _ _
  rw [hm.pointer, if_neg (by simp)]
  apply along_bind
  apply along_lock
  apply along_loop (fun _ _ => True) trivial
  intro _ g₁ _
  apply look_labels hA hport
  intro found g₂ hfound
  split
  case isTrue h =>
    apply along_bind
    apply along_unlock
    exact .inl ⟨rfl, hfound h⟩
  case isFalse =>
  apply along_bind
  apply along_condWait
  intro ret
  apply along_bind
  apply along_act
  intro m' _
  refine ⟨hA _ (.statusWoken ret) m'.record nofun, ?_⟩
  split
  case isTrue h =>
    apply along_bind
    apply along_unlock
    subst h
    exact .inr ⟨by decide, .statusWoken ETIMEDOUT, m'.record, g₂, rfl, by decide, by decide, rfl⟩
  case isFalse =>
  split
  case isTrue h =>
    apply along_bind
    apply along_unlock
    exact .inr ⟨neg_ne_zero.mpr h.1, .statusWoken ret, m'.record, g₂, rfl, h.1, h.2, rfl⟩
  case isFalse => exact trivial

theorem change_labels (hA : AtCalls A) {port cmd : Byte} (hi : i.val < 6) (hport : port.toNat = i.val) :
    along (watching p hs A) (raspikePortComChangeIfNeeded port cmd)
      (fun r g' => ChangeLabels i cmd r g') g := by
  have hvalid : ¬ port.toNat ≥ rpDevicePortCount := by
    rw [hport]
    exact Nat.not_le.mpr hi
  unfold raspikePortComChangeIfNeeded
  rw [if_neg hvalid]
  apply along_bind
  apply along_act
  intro m hm
  refine ⟨hA _ (.statusFetch m.fgStatus) m.record nofun, ?_⟩
  show along (watching p hs A) (if m.fgStatus.isNone = true then _ else _) _ _
  rw [hm.pointer, if_neg (by simp)]
  apply along_bind
  apply along_lock
  apply look_labels hA hport
  intro found g₁ hfound
  apply along_bind
  apply along_unlock
  split
  case isTrue h => exact .inl ⟨rfl, hfound h⟩
  case isFalse =>
  apply along_seq (send_ends hA port cmd none 0)
  rintro sent g₂ ⟨v, g₀, rfl⟩
  split
  case isTrue h => exact .inr ⟨ne_of_lt h, .sendEnd sent, v, g₀, rfl, h, rfl⟩
  case isFalse => exact wait_labels hA hi hport

theorem sensor_labels (hi : i.val < 6) (hmem : i ∈ hs) (cmd : Byte) (size : Nat) :
    along (watching p hs (sensorPromise i)) (delayedSensorCommon (some i) cmd size)
      (fun bs g' => SensorLabels i cmd size bs g') g := by
  have hA := sensorPromise_atCalls i
  apply along_bind
  apply along_act
  intro m hm
  refine ⟨trivial, ?_⟩
  -- the handle is still that of its port
  have hvalid : raspikeIsValidPort (m.gPortDevices i).device.portId = true := by
    have hport : (m.gPortDevices i).device.portId.toNat = i.val := hm.held i hmem
    simp [raspikeIsValidPort, rpDevicePortCount, hport, hi]
  show along (watching p hs (sensorPromise i)) (if (!raspikeIsValidPort (m.gPortDevices i).device.portId) = true
    then _ else _) _ _
  rw [hvalid, if_neg (by simp)]
  apply along_bind
  apply along_act
  intro m₁ hm₁
  refine ⟨trivial, ?_⟩
  have hport : (m₁.gPortDevices i).device.portId.toNat = i.val := hm₁.held i hmem
  apply along_seq (change_labels hA hi hport)
  rintro r g₁ (⟨rfl, hfound⟩ | ⟨hr, hfailed⟩)
  case inr =>
    rw [if_pos hr]
    exact .inl ⟨⟨r, hr, hfailed⟩, rfl⟩
  case inl =>
  rw [if_neg (by simp)]
  apply along_bind
  apply along_act
  intro m₂ hm₂
  refine ⟨hA _ (.statusFetch m₂.fgStatus) m₂.record (by simp [Event.kind]), ?_⟩
  show along (watching p hs (sensorPromise i)) (if m₂.fgStatus.isNone = true then _ else _) _ _
  rw [hm₂.pointer, if_neg (by simp)]
  apply along_bind
  apply along_lock
  apply along_bind
  apply along_act
  intro m₃ hm₃
  refine ⟨hA _ (.statusUse (some p)) m₃.record (by simp [Event.kind]), ?_⟩
  apply along_bind
  apply along_unlock
  refine .inr ⟨some p, m₃.record, some p, m₂.record, g₁, rfl, ?_, hfound⟩
  show SpikeStatus.bytes (((some p).bind m₃.heap).getD zeroStatus) _ size = _
  rw [← hm₃.pointer]
  show m₃.record.bytes (portOffset (m₁.gPortDevices i).device.portId.toNat + dataOffset) size = _
  rw [hport]

omit [DecidableEq T] in
theorem client_sensors (hi : i.val < 6) (hmem : i ∈ hs) {calls : T → List Call} (hinit : NoInit calls)
    (t : T) : along (watching p hs (sensorPromise i)) (client (calls t)) (fun _ _ => True) [] := by
  have hA := sensorPromise_atCalls i
  apply client_reading
  · rintro call _ g v cmd size bs heq
    cases heq
  · intro call hcall g v
    by_cases hsensor : ∃ cmd size, call = .delayedSensor (some i) cmd size
    · obtain ⟨cmd, size, rfl⟩ := hsensor
      apply along_seq (sensor_labels hi hmem cmd size)
      intro bs g' hlabels v' cmd' size' bs' heq
      cases heq
      exact hlabels
    · apply along_mono _ (body_reading hA (hinit t call hcall))
      intro r g' _ v' cmd size bs heq
      cases heq
      exact (hsensor ⟨cmd, size, rfl⟩).elim

end

/-! ## the reading -/

variable {p : Nat} {hs : Set Port} {calls : T → List Call} {m : Mem} {c : Sys T} {t : T}

/-- the getter has found its mode after `ys` and copied after `xs ++ (t, look) :: ys` -/
structure Read (s₀ : SpikeStatus) (t : T) (i : Port) (cmd : Byte) (size : Nat) (bs : List Byte)
    (tr zs xs ys : Trace T) (q q' : Option Nat) : Prop where
  split : tr = zs ++ (t, .statusUse q) :: (xs ++ (t, .statusUse q') :: ys)
  last : ∀ x ∈ zs, x.1 ≠ t
  between : ∀ e, (t, e) ∈ xs → e.isUse = false
  found : (recordOf s₀ ys).mode i = cmd
  copied : bs = (recordOf s₀ (xs ++ (t, .statusUse q') :: ys)).bytes (portOffset i.val + dataOffset) size

theorem recordOf_look {s₀ : SpikeStatus} {tr : Trace T} {q : Option Nat} {cmd : Byte} {size : Nat}
    (h : (doing t tr).call = some (.delayedSensor (some i) cmd size)) :
    recordOf s₀ ((t, .statusUse q) :: tr) = recordOf s₀ tr := by
  show (doing t tr).writes (recordOf s₀ tr) = _
  rw [Doing.writes, h]
  rfl

/-- **The mode of a reading.**  A getter returns zeros if the last that it has done says that the change of
its mode has failed, or what it has copied after it has found its mode; the copy is of that mode just when
the last status that is stored in between, if there is one, still carries it.  A change of the mode returns
zero just when it has found the mode last, and another number just when it has failed. -/
theorem mode_of_reading (hl : Live p hs m) (hports : ∀ j ∈ hs, j.val < 6) (hinit : NoInit calls)
    (hdown : NoShutdown calls) (hreset : Resets hs calls) (hi : i ∈ hs) (hr : Reach (start m calls) c) {cmd : Byte}
    {size : Nat} {bs : List Byte} {tr : Trace T}
    (htr : c.trace = (t, .returned (.delayedSensor (some i) cmd size) (.bytes bs)) :: tr) :
    ((bs = List.replicate size 0 ∧ ∃ e ys r, Last t e tr ys ∧ e.refuses r ∧ r ≠ 0) ∨
    ∃ zs xs ys q q', Read m.record t i cmd size bs tr zs xs ys q q' ∧
      ((recordOf m.record (xs ++ (t, .statusUse q') :: ys)).mode i = cmd ↔
        ∀ mode, lastStored (frameMode i) ((t, .statusUse q') :: ys) xs = some mode → mode = cmd)) ∧
    ∀ port : Byte, port.toNat = i.val → ∀ (A : List (Event × SpikeStatus) → Event → SpikeStatus → Prop) g, AtCalls A →
      along (watching p hs A) (raspikePortComChangeIfNeeded port cmd) (fun r g' => ChangeLabels i cmd r g') g := by
  have hi' := hports i hi
  have htr' : c.trace = [] ++ (t, .returned (.delayedSensor (some i) cmd size) (.bytes bs)) :: tr := htr
  have hlabels : SensorLabels i cmd size bs (ownReads (recordOf m.record) t tr) :=
    seen_history hports hinit hdown hreset hl hr (client_sensors hi' hi hinit t) htr' cmd size bs rfl
  refine ⟨?_, fun port hport A g hA => change_labels hA hi' hport⟩
  obtain ⟨⟨r, hr₀, e, v, g', hg, hrefuses⟩, rfl⟩ | ⟨q, s, q₁, v₁, g', hg, hbs, q', s', g₀, hg', hfound⟩ := hlabels
  case inl =>
    obtain ⟨zs, ys, rfl, hzs, -, -⟩ := ownReads_eq_cons hg
    exact .inl ⟨rfl, e, ys, r, ⟨zs, rfl, hzs⟩, hrefuses, hr₀⟩
  case inr =>
    obtain ⟨zs, tr₁, rfl, hzs, hs, hg₁⟩ := ownReads_eq_cons hg
    obtain ⟨xs₁, tr₂, rfl, hxs₁, -, hg₂⟩ := ownReads_eq_cons hg₁
    rw [hg'] at hg₂
    obtain ⟨xs₂, ys, rfl, hxs₂, hs', -⟩ := ownReads_eq_cons hg₂
    have hmode : (recordOf m.record ys).mode i = cmd := hs' ▸ hfound
    have hcall := (record_history hports hinit hdown hreset hl hr).2.2 [] t _ _ _ htr'
    rw [doing_others hzs, doing_use, doing_others hxs₁, doing_fetch, doing_others hxs₂, doing_use] at hcall
    right
    refine ⟨zs, xs₁ ++ (t, .statusFetch q₁) :: xs₂, ys, q, q', ⟨by simp, hzs, ?_, hmode, ?_⟩, ?_⟩
    · intro e he
      rcases List.mem_append.mp he with h | h
      · exact (hxs₁ _ h rfl).elim
      rcases List.mem_cons.mp h with heq | h
      · cases heq
        rfl
      · exact (hxs₂ _ h rfl).elim
    · rw [hbs, hs, List.append_assoc, List.cons_append]
    · have hpart := part_recordOf (s := m.record)
        (mode_carries hi' ((t, .statusUse q') :: ys) (xs₁ ++ (t, .statusFetch q₁) :: xs₂))
      rw [recordOf_look hcall, hmode] at hpart
      rw [hpart]
      cases lastStored (frameMode i) ((t, .statusUse q') :: ys) (xs₁ ++ (t, .statusFetch q₁) :: xs₂) with
      | none => exact ⟨fun _ => nofun, fun _ => rfl⟩
      | some mode =>
        constructor
        · intro h mode' heq
          cases heq
          exact h
        · exact fun h => h mode rfl

/-! ## a reading of another mode -/

/-- the first port is in the mode, with these data -/
def modeRecord (cmd : Byte) (data : List Byte) : SpikeStatus :=
  (zeroStatus.write (portOffset 0 + cmdOffset) [cmd]).write (portOffset 0 + dataOffset) data

/-- a legacy frame with that status -/
def modeFrame (cmd : Byte) (data : List Byte) : List Byte :=
  rpCmdStart :: rpCmdIdAllStatus :: 136 :: 0 :: List.ofFn (modeRecord cmd data)

/-- a getter beside a receiver -/
def readAndReceive : Bool → List Call
  | true => [.delayedSensor (some 0) rpCmdIdColRgb pupColorRgbSize]
  | false => [.receive]

/-- a legacy connection in mode RGB, with a status of mode HSV on its way -/
def modeMem : Mem := { freshMem [.data (modeFrame rpCmdIdColHsv [2, 2, 2, 2])] [] with
  fgUseProtocolV2 := false
  heap := fun p => if p = 0 then some (modeRecord rpCmdIdColRgb [1, 1, 1, 1, 1, 1]) else none }

theorem modeMem_live : Live 0 {0} modeMem where
  pointer := rfl
  record := ⟨_, rfl⟩
  held := by
    rintro i rfl
    rfl

theorem readAndReceive_noInit : NoInit readAndReceive := by
  intro t c hc desc
  cases t <;> simp [readAndReceive] at hc <;> subst hc <;> simp

theorem readAndReceive_noShutdown : NoShutdown readAndReceive := by
  intro t
  cases t <;> simp [readAndReceive]

theorem readAndReceive_resets : Resets {0} readAndReceive := by
  intro t i h
  cases t <;> simp [readAndReceive] at h

/-- the getter returns before the status comes in -/
theorem mode_of_reading_run : ∃ c tr, exec (start modeMem readAndReceive) (steps 13 true) = some c ∧
    c.trace = (true, .returned (.delayedSensor (some 0) rpCmdIdColRgb pupColorRgbSize)
      (.bytes [1, 1, 1, 1, 1, 1])) :: tr ∧
    ∃ zs xs ys q q', Read modeMem.record true 0 rpCmdIdColRgb pupColorRgbSize [1, 1, 1, 1, 1, 1] tr zs xs ys q q' ∧
      ((recordOf modeMem.record (xs ++ (true, .statusUse q') :: ys)).mode 0 = rpCmdIdColRgb ↔
        ∀ mode, lastStored (frameMode 0) ((true, .statusUse q') :: ys) xs = some mode → mode = rpCmdIdColRgb) := by
  obtain ⟨c, hrun⟩ := Option.isSome_iff_exists.mp (show (exec (start modeMem readAndReceive)
    (steps 13 true)).isSome by decide +kernel)
  have hend : ∀ c ∈ exec (start modeMem readAndReceive) (steps 13 true), c.trace.head? =
      some (true, .returned (.delayedSensor (some 0) rpCmdIdColRgb pupColorRgbSize) (.bytes [1, 1, 1, 1, 1, 1])) := by
    decide +kernel
  have htr := (List.cons_head?_tail (hend c hrun)).symm
  refine ⟨c, c.trace.tail, hrun, htr, ?_⟩
  obtain ⟨⟨hzeros, -⟩ | hread, -⟩ := mode_of_reading modeMem_live (by simp) readAndReceive_noInit
    readAndReceive_noShutdown readAndReceive_resets rfl (exec_reach hrun) htr
  · cases hzeros
  · exact hread

/-- the entries before the latest use of the saved status by the getter, and the others -/
def beforeUse (tr : Trace Bool) : Trace Bool := tr.takeWhile fun x => !(x.1 && x.2.isUse)
def fromUse (tr : Trace Bool) : Trace Bool := tr.dropWhile fun x => !(x.1 && x.2.isUse)

/-- the status comes in between the look and the copy: the getter has found RGB, and returns HSV -/
theorem reading_of_other_mode : ∃ c xs ys, exec (start modeMem readAndReceive)
      (steps 8 true ++ steps 54 false ++ steps 5 true) = some c ∧
    c.trace = (true, .returned (.delayedSensor (some 0) rpCmdIdColRgb pupColorRgbSize)
      (.bytes [2, 2, 2, 2, 0, 0])) :: (true, .statusUse (some 0)) :: (xs ++ (true, .statusUse (some 0)) :: ys) ∧
    (∀ x ∈ xs, x.1 = true → x.2.isUse = false) ∧
    (recordOf modeMem.record ys).mode 0 = rpCmdIdColRgb ∧
    (recordOf modeMem.record (xs ++ (true, .statusUse (some 0)) :: ys)).mode 0 = rpCmdIdColHsv := by
  obtain ⟨c, hrun⟩ := Option.isSome_iff_exists.mp (show (exec (start modeMem readAndReceive)
    (steps 8 true ++ steps 54 false ++ steps 5 true)).isSome by decide +kernel)
  have hend : ∀ c ∈ exec (start modeMem readAndReceive) (steps 8 true ++ steps 54 false ++ steps 5 true),
      c.trace.head? = some (true, .returned (.delayedSensor (some 0) rpCmdIdColRgb pupColorRgbSize)
        (.bytes [2, 2, 2, 2, 0, 0])) ∧
      c.trace.tail.head? = some (true, .statusUse (some 0)) ∧
      (fromUse c.trace.tail.tail).head? = some (true, .statusUse (some 0)) ∧
      (recordOf modeMem.record (fromUse c.trace.tail.tail).tail).mode 0 = rpCmdIdColRgb ∧
      (recordOf modeMem.record c.trace.tail.tail).mode 0 = rpCmdIdColHsv := by decide +kernel
  obtain ⟨hret, hcopy, hlook, hfound, hcopied⟩ := hend c hrun
  have hsplit : beforeUse c.trace.tail.tail ++ (true, .statusUse (some 0)) :: (fromUse c.trace.tail.tail).tail =
      c.trace.tail.tail := by
    rw [List.cons_head?_tail hlook]
    exact List.takeWhile_append_dropWhile
  refine ⟨c, beforeUse c.trace.tail.tail, (fromUse c.trace.tail.tail).tail, hrun, ?_, ?_, hfound, ?_⟩
  · rw [hsplit, List.cons_head?_tail hcopy, List.cons_head?_tail hret]
  · intro x hx htrue
    have hbefore := List.mem_takeWhile_imp hx
    simpa [htrue] using hbefore
  · rwa [hsplit]

end RaspikeArt
