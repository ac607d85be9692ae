import RaspikeArt.Model.Motors
import RaspikeArt.Status.History

/-!
# The power of a motor

`pup_motor_get_power` shows a power that it remembers, or the one in the saved status.

* `SameMotor i`    what the threads that do not drive the motor of the port leave alone;
* `cachedPower`    the power that is remembered, if one is;
* `Truthful`       what is remembered, and what the last effective command has set, show the same;
* `reported_power` exactly then `pup_motor_get_power` tells the truth.
-/

namespace RaspikeArt
open Threads

/-! ## what the others leave alone -/

structure SameMotor (i : Port) (m m' : Mem) : Prop where
  cmd : (m'.gPortDevices i).device.cmd = (m.gPortDevices i).device.cmd
  power : (m'.gPortDevices i).device.power = (m.gPortDevices i).device.power
  port : (m.gPortDevices i).device.portId.toNat = i.val → (m'.gPortDevices i).device.portId.toNat = i.val
  pointer : m'.fgStatus = m.fgStatus

namespace SameMotor
variable {i : Port}

theorem refl (m : Mem) : SameMotor i m m := ⟨rfl, rfl, id, rfl⟩

theorem trans (m m₁ m₂ : Mem) (h : SameMotor i m m₁) (h' : SameMotor i m₁ m₂) : SameMotor i m m₂ :=
  ⟨h'.cmd.trans h.cmd, h'.power.trans h.power, fun hp => h'.port (h.port hp), h'.pointer.trans h.pointer⟩

/-- the device and the pointer are the same -/
theorem of_device {m m' : Mem} (hd : (m'.gPortDevices i).device = (m.gPortDevices i).device)
    (hp : m'.fgStatus = m.fgStatus) : SameMotor i m m' :=
  ⟨congrArg _ hd, congrArg _ hd, fun h => (congrArg (·.portId.toNat) hd).trans h, hp⟩

theorem setPort_ne {j : Port} (h : j ≠ i) (m : Mem) (f : RPPortDevice → RPPortDevice) :
    SameMotor i m (m.setPort j f) :=
  of_device (congrArg RPPortDevice.device (setPort_of_ne m f h.symm)) rfl

end SameMotor

/-- the kinds of the accesses outside the devices and the lifecycle -/
def offMotorKinds : Set Kind := {k | k ≠ .dev ∧ k ≠ .statusPtr ∧ k ≠ .setup}

theorem Kind.Touches.sameMotor {k : Kind} {m m' : Mem} (h : k.Touches m m') (hk : k ∈ offMotorKinds) (i : Port) :
    SameMotor i m m' := by
  obtain ⟨hdev, hptr, hsetup⟩ := hk
  cases k with
  | dev => exact (hdev rfl).elim
  | statusPtr => exact (hptr rfl).elim
  | setup => exact (hsetup rfl).elim
  | pend | finish | ack | reset =>
    obtain ⟨p, rfl⟩ := h
    exact SameMotor.of_device (p.property i) rfl
  | quiet =>
    obtain ⟨c, s, x, y, z, -, rfl⟩ := h
    exact SameMotor.of_device rfl rfl
  | prot =>
    obtain ⟨c, t, rfl⟩ := h
    exact SameMotor.of_device rfl rfl
  | life =>
    obtain ⟨d, s, h, rfl⟩ := h
    exact SameMotor.of_device rfl rfl
  | io | seq | sess | v2 | receivers | status =>
    obtain ⟨x, rfl⟩ := h
    exact SameMotor.of_device rfl rfl
  | input | call | send | recv | hello | config | frame | gaveUp =>
    cases h
    exact SameMotor.of_device rfl rfl

/-- a program of which no access concerns the motor of the port -/
def OffMotor (i : Port) {α : Type} (p : P α) : Prop :=
  p.All (fun _ f => ∀ m, SameMotor i m (f m)) fun _ => True

section
variable {i : Port}

theorem offMotor_passes : Passes (fun _ p => OffMotor i p) offMotorKinds Set.univ where
  pure _ := trivial
  bind hp hq := Prog.All.bind hp hq
  does hp := by
    refine Prog.All.mono ?_ (fun _ _ => trivial) hp
    intro e f hacc m
    obtain ⟨k, hk, hstep⟩ := hacc m
    exact hstep.touches.sameMotor hk i

theorem offMotor_modify {f : Mem → Mem} (h : ∀ m, SameMotor i m (f m)) : OffMotor i (modify f) :=
  ⟨h, fun _ => trivial⟩

theorem offMotor_request (port cmd : Byte) (data : Buf) (size : Int) :
    OffMotor i (raspikeRequest port cmd data size) := by
  apply offMotor_passes.does (raspikeRequest_all _ (Set.subset_univ _) _ _ _ _)
  intro k hk
  cases k <;> first
    | exact hk.elim
    | exact ⟨nofun, nofun, nofun⟩

theorem offMotor_send (port cmdid : Byte) (buf : Buf) (size : Int) :
    OffMotor i (raspikeProtSend port cmdid buf size) := by
  apply offMotor_passes.does (raspikeProtSend_all _ (Set.subset_univ _) _ _ _ _)
  intro k hk
  cases k <;> first
    | exact hk.elim
    | exact ⟨nofun, nofun, nofun⟩

theorem offMotor_getDevice (hi : i.val < 6) (fgDeviceType port : Byte) :
    OffMotor i (getDeviceCommon fgDeviceType port) := by
  have hset : ∀ j (dv : PupDevice → PupDevice),
      (∀ m : Mem, j = i → SameMotor i m (m.setPort i fun d => { d with device := dv d.device })) →
      OffMotor i (modify fun m => m.setPort j fun d => { d with device := dv d.device }) := by
    intro j dv h
    apply offMotor_modify
    intro m
    by_cases hj : j = i
    · subst hj
      exact h m rfl
    · exact SameMotor.setPort_ne hj m _
  apply getDeviceCommon_around (offMotor_passes.mono _ (Set.subset_univ _))
    (fun port cmd => offMotor_request port cmd none 0)
  · intro j
    apply hset j fun v => { v with deviceType := fgDeviceType }
    intro m _
    constructor <;> simp [Mem.setPort]
  · intro j hget
    apply hset j fun v => { v with portId := port - 65 }
    rintro m rfl
    have hport := getDevice_toNat hget hi
    exact ⟨by rw [setPort_self], by rw [setPort_self], fun _ => by rwa [setPort_self], rfl⟩
  · rintro k (rfl | rfl) <;> exact ⟨by simp, by simp, by simp⟩

/-! ## the other threads -/

theorem offMotor_setting {j : Port} (cmd : Byte) (value : Int) : OffMotor i (sendSetting j cmd value) := by
  have hF := offMotor_passes (i := i)
  refine hF.bind (hF.does (Does.load ⟨nofun, nofun, nofun⟩)) fun portId => ?_
  exact hF.bind (offMotor_send _ _ _ _) fun _ => hF.pure _

theorem offMotor_motorRequest (cmd : Byte) (motor : Option Port) : OffMotor i (motorRequest cmd motor) := by
  have hF := offMotor_passes (i := i)
  cases motor with
  | none => exact hF.pure _
  | some j =>
    refine hF.bind (hF.does (Does.load ⟨nofun, nofun, nofun⟩)) fun portId => ?_
    exact hF.bind (offMotor_request _ _ _ _) fun _ => hF.pure _

/-- what drives another motor -/
theorem offMotor_run {j : Port} (hj : j ≠ i) (op : MotorOp) : OffMotor i (op.run (some j)) := by
  have hF := offMotor_passes (i := i)
  have hset : ∀ f : RPPortDevice → RPPortDevice, OffMotor i (modify fun m => m.setPort j f) := fun f =>
    offMotor_modify fun m => SameMotor.setPort_ne hj m f
  cases op with
  | setPower power =>
    exact hF.bind (hset _) fun _ => hF.bind (hset _) fun _ => offMotor_setting _ _
  | setSpeed speed => exact hF.bind (hset _) fun _ => offMotor_setting _ _
  | stop => exact offMotor_motorRequest (i := i) rpCmdIdMotStp (some j)
  | brake => exact offMotor_motorRequest (i := i) rpCmdIdMotStpBrk (some j)
  | hold => exact offMotor_motorRequest (i := i) rpCmdIdMotStpHld (some j)

/-- what another thread of an application does -/
inductive Job where
  | calls (calls : List Call)
  | motor (i : Port) (ops : List MotorOp)

def Job.prog : Job → P Unit
  | calls cs => client cs
  | motor i ops => do
    let _ ← motorSession (some i) ops

/-- it does not connect or disconnect, and does not drive the motor of the port -/
def Job.Apart (i : Port) : Job → Prop
  | calls cs => .shutdown ∉ cs ∧ ∀ desc, .init desc ∉ cs
  | motor j _ => j ≠ i

theorem offMotor_call (hi : i.val < 6) {c : Call} (hs : c ≠ .shutdown) (hinit : ∀ desc, c ≠ .init desc) :
    OffMotor i c.body := by
  have hF := offMotor_passes (i := i)
  have hoff : ∀ {k : Kind}, k ≠ .dev → k ≠ .statusPtr → k ≠ .setup → k ∈ offMotorKinds :=
    fun h h' h'' => ⟨h, h', h''⟩
  have hprio : ∀ port cmd buf size, OffMotor i (raspikeProtSendPriority port cmd buf size) := by
    intro port cmd buf size
    apply hF.does (raspikeProtSendPriority_all _ (Set.subset_univ _) _ _ _ _)
    intro k hk
    cases k <;> first
      | exact hk.elim
      | exact hoff nofun nofun nofun
  have hclient : c.isClient → OffMotor i c.body := by
    intro hc
    have hok : c.Pays fun _ _ _ => True := by cases c <;> trivial
    apply calls_around (hF.mono _ (Set.subset_univ _)) (fun _ _ _ => True) (fun _ => trivial)
      (fun _ _ _ _ _ => offMotor_send _ _ _ _) (fun _ _ _ _ _ => hprio _ _ _ _)
      (fun _ _ _ _ _ => offMotor_request _ _ _ _) (fun ty port _ => offMotor_getDevice hi ty port) hc hok
    rintro k (rfl | rfl) <;> exact hoff nofun nofun nofun
  cases c with
  | init desc => exact (hinit desc rfl).elim
  | shutdown => exact (hs rfl).elim
  | receive =>
    refine hF.bind (hF.does ?_) fun _ => hF.pure _
    apply raspikeProtReceive_all _ (Set.subset_univ _) (fun _ => hoff nofun nofun nofun)
      (hoff nofun nofun nofun) (Set.mem_univ _)
    rintro k (rfl | rfl | rfl | rfl | rfl | rfl | rfl | rfl) <;> exact hoff nofun nofun nofun
  | _ => exact hclient rfl

theorem offMotor_calls {j : Port} (hj : j ≠ i) (ops : List MotorOp) (done : List Done) :
    OffMotor i (motorCalls (some j) ops done) := by
  induction ops generalizing done with
  | nil => exact trivial
  | cons op ops ih => exact offMotor_passes.bind (offMotor_run hj op) fun _ => ih _

theorem offMotor_job (hi : i.val < 6) {job : Job} (h : job.Apart i) : OffMotor i job.prog := by
  have hF := offMotor_passes (i := i)
  have hload : ∀ {α : Type} (f : Mem → α), OffMotor i (load f) := fun f =>
    hF.does (Does.load ⟨nofun, nofun, nofun⟩)
  cases job with
  | calls cs =>
    apply client_passes (hF.mono _ (Set.subset_univ _))
    · rintro c hc
      exact offMotor_call hi (fun hs => h.1 (hs ▸ hc)) fun desc hd => h.2 desc (hd ▸ hc)
    · rintro k rfl
      exact ⟨nofun, nofun, nofun⟩
  | motor j ops =>
    refine hF.bind (hF.bind (offMotor_calls h ops []) fun done => hF.bind ?_ fun _ => hF.pure _)
      fun _ => hF.pure _
    refine hF.bind (hload _) fun cmd => ?_
    split
    · exact hload _
    · refine hF.bind (getAndRetSensorCommon_passes (Passes.looks (hF.mono ?_ (Set.subset_univ _))) _ _ _)
        fun _ => hF.pure _
      rintro k (rfl | rfl) <;> exact ⟨nofun, nofun, nofun⟩

end

/-! ## the thread that drives the motor -/

/-- the power that is remembered, if one is -/
def Mem.cachedPower (m : Mem) (i : Port) : Option Int :=
  if (m.gPortDevices i).device.cmd = rpCmdIdMotPow then some (m.gPortDevices i).device.power else none

/-- the power in the saved status of the port -/
def Mem.savedPower (m : Mem) (i : Port) : Int :=
  getInt16 (m.record.bytes (portOffset i.val + dataOffset + rpMotorIndexPower) 2)

namespace MotorOp

/-- the operations that write what is remembered -/
def sets : MotorOp → Bool
  | setPower _ | setSpeed _ => true
  | _ => false

/-- the power that the operation asks for -/
def power : MotorOp → Option Int
  | setPower p => some (clampPower p)
  | _ => none

end MotorOp

/-- the setting that has been asked for last, with whatever result -/
def lastSetting (done : List Done) : Option MotorOp := (done.map Done.op).find? MotorOp.sets

/-- the operation that has succeeded last -/
def lastEffective (done : List Done) : Option MotorOp :=
  (done.find? fun d => d.result = .success).map Done.op

def remembered (done : List Done) : Option Int := (lastSetting done).bind MotorOp.power

theorem remembered_cons (d : Done) (done : List Done) :
    remembered (d :: done) = if d.op.sets then d.op.power else remembered done := by
  unfold remembered lastSetting
  rw [List.map_cons, List.find?_cons]
  cases d.op.sets <;> rfl

section
variable {i : Port} {g : Mem}

theorem SameMotor.held {m m' : Mem} (h : SameMotor i m m') (hm : Held i m) : Held i m' := h.port hm

theorem SameMotor.cached {m m' : Mem} (h : SameMotor i m m') : m'.cachedPower i = m.cachedPower i := by
  rw [Mem.cachedPower, Mem.cachedPower, h.cmd, h.power]

/-- the ghost is the memory after the last own access -/
def driving (i : Port) : Local CondVar Event Mem := lately (SameMotor i)

theorem off_driving {α : Type} {p : P α} (hp : OffMotor i p) :
    along (driving i) p (fun _ g' => SameMotor i g g') g := by
  apply along_all (𝓛 := driving i) (P := SameMotor i g) ?_ ?_ hp Prog.Wakes.trivial Prog.Yields.trivial (.refl g)
    fun _ _ _ h => h
  · intro e f g' m hf hg hR
    exact ⟨trivial, (hg.trans _ _ _ hR).trans _ _ _ (hf m)⟩
  · exact fun _ _ _ hg => ⟨trivial, hg⟩

/-- a write to the device, and a program that leaves it alone -/
theorem set_driving {α : Type} (dv : PupDevice → PupDevice) {p : P α} {Q : α → Mem → Prop}
    (hp : ∀ m, SameMotor i g m → along (driving i) p Q (m.setPort i fun d => { d with device := dv d.device })) :
    along (driving i) (do
      modify fun m => m.setPort i fun d => { d with device := dv d.device }
      p) Q g :=
  along_bind (along_act fun m hR => ⟨trivial, hp m hR⟩)

theorem run_driving (op : MotorOp) (hg : Held i g) : along (driving i) (op.run (some i)) (fun _ g' =>
    Held i g' ∧ g'.cachedPower i = if op.sets then op.power else g.cachedPower i) g := by
  have hrequest : ∀ cmd, along (driving i) (motorRequest cmd (some i)) (fun _ g' =>
      Held i g' ∧ g'.cachedPower i = g.cachedPower i) g := fun cmd =>
    along_mono (fun _ _ h => ⟨h.held hg, h.cached⟩) (off_driving (offMotor_motorRequest cmd (some i)))
  cases op with
  | setPower power =>
    apply set_driving fun v => { v with cmd := rpCmdIdMotPow }
    intro m hm
    apply set_driving fun v => { v with power := clampPower power }
    intro m' hm'
    apply along_mono _ (off_driving (offMotor_setting rpCmdIdMotPow (clampPower power)))
    intro _ g' h
    have hcmd := hm'.cmd
    have hport := hm'.port
    rw [setPort_self] at hcmd hport
    constructor
    · apply h.held
      show ((m'.setPort i _).gPortDevices i).device.portId.toNat = i.val
      rw [setPort_self]
      exact hport (hm.held hg)
    · rw [h.cached, Mem.cachedPower, setPort_self]
      exact if_pos hcmd
  | setSpeed speed =>
    apply set_driving fun v => { v with cmd := rpCmdIdMotSpd }
    intro m hm
    apply along_mono _ (off_driving (offMotor_setting rpCmdIdMotSpd speed))
    intro _ g' h
    constructor
    · apply h.held
      show ((m.setPort i _).gPortDevices i).device.portId.toNat = i.val
      rw [setPort_self]
      exact hm.held hg
    · rw [h.cached, Mem.cachedPower, setPort_self]
      exact if_neg (show rpCmdIdMotSpd ≠ rpCmdIdMotPow by decide)
  | stop => exact hrequest rpCmdIdMotStp
  | brake => exact hrequest rpCmdIdMotStpBrk
  | hold => exact hrequest rpCmdIdMotStpHld

/-- after any calls, the setting that was asked for last is remembered -/
theorem calls_driving {ops : List MotorOp} {done : List Done} (hg : Held i g)
    (hcache : g.cachedPower i = remembered done) :
    along (driving i) (motorCalls (some i) ops done) (fun done' g' => Held i g' ∧
      g'.cachedPower i = remembered done' ∧ done'.map Done.op = ops.reverse ++ done.map Done.op) g := by
  induction ops generalizing done g with
  | nil => exact ⟨hg, hcache, rfl⟩
  | cons op ops ih =>
    apply along_seq (run_driving op hg)
    rintro result g₁ ⟨hg₁, hcache₁⟩
    have hcache₂ : g₁.cachedPower i = remembered (⟨op, result⟩ :: done) := by
      rw [hcache₁, remembered_cons, hcache]
    apply along_mono _ (ih hg₁ hcache₂)
    rintro done' g' ⟨hg', hcache', hops⟩
    refine ⟨hg', hcache', ?_⟩
    rw [hops, List.reverse_cons, List.append_assoc]
    rfl

theorem zeroStatus_bytes (off n : Nat) : zeroStatus.bytes off n = List.replicate n 0 := by
  apply List.eq_replicate_iff.mpr
  refine ⟨SpikeStatus.bytes_length, fun b hb => ?_⟩
  simp only [SpikeStatus.bytes, List.mem_map] at hb
  obtain ⟨k, -, rfl⟩ := hb
  simp [SpikeStatus.byte, zeroStatus]

/-- what is remembered, or else the power in the saved status at the last access -/
theorem getPower_driving (hi : i.val < 6) (hg : Held i g) :
    along (driving i) (pupMotorGetPower (some i)) (fun power g' =>
      power = (g.cachedPower i).getD (g'.savedPower i)) g := by
  apply along_bind
  apply along_act
  intro m hm
  refine ⟨trivial, ?_⟩
  rw [← hm.cached, Mem.cachedPower]
  have hheld := hm.held hg
  split
  case isTrue =>
    apply along_act
    intro m' hm'
    exact ⟨trivial, hm'.power⟩
  case isFalse =>
    apply along_bind
    apply along_bind
    apply along_act
    intro m₁ h₁
    have hheld₁ : (m₁.gPortDevices i).device.portId.toNat = i.val := h₁.held hheld
    have hvalid : raspikeIsValidPort (m₁.gPortDevices i).device.portId := by
      rw [raspikeIsValidPort, hheld₁]
      simp [rpDevicePortCount, hi]
    refine ⟨trivial, ?_⟩
    rw [if_neg (by simpa using hvalid)]
    apply along_bind
    apply along_act
    intro m₂ h₂
    refine ⟨trivial, ?_⟩
    split
    case isTrue hnone =>
      have hptr : m₂.fgStatus = none := Option.isNone_iff_eq_none.mp hnone
      show getInt16 (List.replicate 2 0) = m₂.savedPower i
      rw [Mem.savedPower, Mem.record, hptr]
      exact congrArg getInt16 (zeroStatus_bytes _ 2).symm
    case isFalse =>
      apply along_bind
      apply along_act
      intro m₃ h₃
      refine ⟨trivial, ?_⟩
      have hheld₃ : (m₃.gPortDevices i).device.portId.toNat = i.val := h₃.held (h₂.held hheld₁)
      apply along_bind
      apply along_lock
      apply along_bind
      apply along_act
      intro m₄ h₄
      refine ⟨trivial, ?_⟩
      apply along_bind
      apply along_unlock
      have hptr : m₂.fgStatus = m₄.fgStatus := (h₄.pointer.trans h₃.pointer).symm
      show getInt16 _ = getInt16 (m₄.record.bytes _ _)
      rw [Mem.record, hptr, hheld₃]

/-- the calls, and the power that is shown after them -/
theorem session_driving (hi : i.val < 6) {ops : List MotorOp} (hg : Held i g) (hcache : g.cachedPower i = none) :
    along (driving i) (motorSession (some i) ops) (fun r g' =>
      r.1.map Done.op = ops.reverse ∧ r.2 = (remembered r.1).getD (g'.savedPower i)) g := by
  have hstart : g.cachedPower i = remembered [] := hcache
  apply along_seq (calls_driving hg hstart)
  rintro done g₁ ⟨hg₁, hcache₁, hops⟩
  apply along_seq (getPower_driving hi hg₁)
  rintro power g₂ hpower
  rw [hcache₁] at hpower
  exact ⟨hops.trans (List.append_nil _), hpower⟩

end

/-! ## the truth -/

/-- the power that the last effective operation has set, if it was that which set it -/
def effectivePower (done : List Done) : Option Int := (lastEffective done).bind MotorOp.power

/-- what is remembered and what is in effect show the same power, when the status has `saved` -/
def Truthful (saved : Int) (done : List Done) : Prop :=
  remembered done = effectivePower done ∨
    remembered done = some saved ∧ effectivePower done = none ∨
    remembered done = none ∧ effectivePower done = some saved

theorem truthful_iff (saved : Int) (done : List Done) :
    (remembered done).getD saved = (effectivePower done).getD saved ↔ Truthful saved done := by
  unfold Truthful
  cases remembered done <;> cases effectivePower done <;> simp [eq_comm]

/-- **The reported power.**  Among threads that neither connect, disconnect nor drive this motor, a
thread makes any calls that drive it and asks for its power.  It is shown the power of the last
effective command, or else the one in the saved status, exactly if what is remembered agrees. -/
theorem reported_power {T : Type} [DecidableEq T] {t : T} {c c' : Sys T} {ss : List OwnStep} {i : Port}
    {ops : List MotorOp} {q : List Done × Int → P Unit} (hi : i.val < 6)
    (hc : c.thr t = (motorSession (some i) ops).bind q) (hheld : Held i c.mem)
    (hfresh : c.mem.cachedPower i = none) {jobs : T → Job} (hapart : ∀ u ≠ t, (jobs u).Apart i)
    (hjobs : ∀ u ≠ t, c.thr u = (jobs u).prog) (hf : Follows t c ss c') :
    Midway q (c'.thr t) ∨ ∃ done power c₁ ss₁ ss₂, ss = ss₂ ++ ss₁ ∧ Follows t c ss₁ c₁ ∧
      c₁.thr t = q (done, power) ∧ Follows t c₁ ss₂ c' ∧ done.map Done.op = ops.reverse ∧
      (power = (effectivePower done).getD ((lastMem c.mem ss₁).savedPower i) ↔
        Truthful ((lastMem c.mem ss₁).savedPower i) done) := by
  have hothers : ∀ u ≠ t, OffMotor i (c.thr u) := fun u hu => by
    rw [hjobs u hu]
    exact offMotor_job hi (hapart u hu)
  have hstable : (driving i).Stable fun _ f => ∀ m, SameMotor i m (f m) :=
    lately_stable SameMotor.refl SameMotor.trans fun _ _ m h => h m
  have hrelies := (hf.stable hstable (.refl c.mem) (fun _ _ => trivial) hothers).1
  obtain hin | ⟨⟨done, power⟩, c₁, ss₁, ss₂, hss, hf₁, hc₁, hf₂, hops, hpower⟩ :=
    Local.inside_or_out hf hc (session_driving hi hheld hfresh) hrelies
  · exact .inl hin
  · have hlast : (driving i).after c.mem ss₁ = lastMem c.mem ss₁ := lately_after c.mem ss₁
    rw [hlast] at hpower
    refine .inr ⟨done, power, c₁, ss₁, ss₂, hss, hf₁, hc₁, hf₂, hops, ?_⟩
    rw [← truthful_iff]
    exact ⟨fun h => hpower.symm.trans h, fun h => hpower.trans h⟩

/-- the label of the power that a thread has been shown -/
def shown (r : List Done × Int) : P Unit := tick (.returned (.sensor (some 0) rpMotorIndexPower 2) (.int r.2))

/-- a library whose device accepts nothing, and a thread that sets the power of a motor on port A -/
def mutedStart : Sys Unit where
  mem := freshMem [] [.late]
  own := fun _ => none
  trace := []
  thr := fun _ => (motorSession (some 0) [.setPower 50]).bind shown

theorem mutedStart_held : Held 0 mutedStart.mem := rfl
theorem mutedStart_fresh : mutedStart.mem.cachedPower 0 = none := by decide

/-- the call fails, and its power is shown all the same -/
theorem muted_run : ∃ (c' : Sys Unit) (ss : List OwnStep), Follows () mutedStart ss c' ∧
    c'.thr () = shown ([⟨.setPower 50, .io⟩], 50) ∧ (lastMem mutedStart.mem ss).savedPower 0 = 0 := by
  have hrun : ∀ r ∈ evalAlone 80 (motorSession (some 0) [.setPower 50]) mutedStart.toWorld,
      r.1 = ([⟨.setPower 50, .io⟩], 50) ∧ r.2.mem.savedPower 0 = 0 := by decide +kernel
  obtain ⟨⟨x, w'⟩, heval⟩ : ∃ r, evalAlone 80 (motorSession (some 0) [.setPower 50]) mutedStart.toWorld =
      some r := Option.isSome_iff_exists.mp (by decide +kernel)
  obtain ⟨rfl, hsaved⟩ := hrun _ heval
  obtain ⟨n, hn⟩ := (evalAlone_ends heval).exec shown
  have hlast : lastMem mutedStart.mem (ownSteps () n mutedStart) = w'.mem := lastMem_ownSteps hn
  exact ⟨_, _, exec_follows hn, rfl, hlast ▸ hsaved⟩

theorem reported_power_muted : ∃ (c' : Sys Unit) (ss : List OwnStep), Follows () mutedStart ss c' ∧
    c'.thr () = shown ([⟨.setPower 50, .io⟩], 50) ∧ (Midway shown (c'.thr ()) ∨
      ∃ done power c₁ ss₁ ss₂, ss = ss₂ ++ ss₁ ∧ Follows () mutedStart ss₁ c₁ ∧
        c₁.thr () = shown (done, power) ∧ Follows () c₁ ss₂ c' ∧ done.map Done.op = [.setPower 50] ∧
        (power = (effectivePower done).getD ((lastMem mutedStart.mem ss₁).savedPower 0) ↔
          Truthful ((lastMem mutedStart.mem ss₁).savedPower 0) done)) := by
  obtain ⟨c', ss, hf, hend, -⟩ := muted_run
  have hjobs : ∀ u ≠ (), mutedStart.thr u = (Job.calls []).prog := fun u hu => (hu rfl).elim
  exact ⟨c', ss, hf, hend, reported_power (by decide) rfl mutedStart_held mutedStart_fresh
    (fun u hu => (hu rfl).elim) hjobs hf⟩

/-- The power of a command that has failed is reported, while the saved status shows no power. -/
theorem failed_power_reported : ∃ (c' : Sys Unit) (ss : List OwnStep) (done : List Done) (power : Int),
    Follows () mutedStart ss c' ∧ c'.thr () = shown (done, power) ∧
    done = [⟨.setPower 50, .io⟩] ∧
    power ≠ (effectivePower done).getD ((lastMem mutedStart.mem ss).savedPower 0) := by
  obtain ⟨c', ss, hf, hend, hsaved⟩ := muted_run
  refine ⟨c', ss, _, 50, hf, hend, rfl, ?_⟩
  rw [hsaved]
  decide

end RaspikeArt
