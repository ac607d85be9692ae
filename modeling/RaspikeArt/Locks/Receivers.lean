import RaspikeArt.Locks.Calls
import RaspikeArt.Lifetime.Descriptor
import RaspikeArt.Threads.Wakes

/-!
# The receivers that a shutdown waits for

* `receivers`          the monitor: `fgActiveReceivers` under `fgLifecycleMutex`;
* `lib_pays`           every call but an init pays what it owes, and only a shutdown sleeps under the mutex;
* `asleep_debtor`      for whoever sleeps under it, a receiver is active, or somebody has the mutex.
-/

set_option linter.unusedSectionVars false

namespace RaspikeArt
open Threads

def receivers : Monitor Mutex CondVar Event Mem where
  mutex := .fgLifecycle
  cond := .fgLifecycle
  count := Mem.fgActiveReceivers
  enters := Event.enters
  leaves := Event.leaves

theorem receivers_inside {T : Type} [DecidableEq T] (tr : Trace T) (t : T) :
    t ∈ receivers.inside tr ↔ insideReceive tr t := by
  induction tr with
  | nil => exact ⟨fun h => absurd h (Finset.notMem_empty t), False.elim⟩
  | cons x tr ih =>
    obtain ⟨u, e⟩ := x
    cases e with
    | receiverIn =>
      show t ∈ insert u (receivers.inside tr) ↔ u = t ∨ insideReceive tr t
      rw [Finset.mem_insert, ih, eq_comm]
    | receiverOut =>
      show t ∈ (receivers.inside tr).erase u ↔ u ≠ t ∧ insideReceive tr t
      rw [Finset.mem_erase, ih, ne_comm]
    | _ => exact ih

variable {may : Prop}

/-- the calls that have nothing to do with the receivers -/
def restKinds : Set Kind := {k | k ≠ .receivers}

def restMutexes : Set Mutex := {l | l ≠ .fgLifecycle}

theorem Acc.ignores {e : Mem → Option Event} {f : Mem → Mem} (h : Acc restKinds e f) : receivers.Ignores e f where
  label m x hx := by
    obtain ⟨k, hk, hstep⟩ := h m
    have hkind := hstep.label x hx
    subst hkind
    cases x with
    | receiverIn | receiverOut => exact (hk rfl).elim
    | _ => exact ⟨rfl, rfl⟩
  count m := by
    obtain ⟨k, hk, hstep⟩ := h m
    exact hstep.touches.rest.active hk

theorem rest_pays {α : Type} {p : P α} (hp : Does restKinds restMutexes p) {g : Standing} (hg : g.owes = false) :
    p.Pays receivers may g fun _ g' => g' = g :=
  Prog.Pays.of_all (fun _ hl => hl) (Prog.All.mono (fun _ _ => Acc.ignores) (fun _ => id) hp) hg

theorem requestKinds_rest : requestKinds ⊆ restKinds := by
  rintro k hk rfl
  exact hk

theorem requestMutexes_rest : requestMutexes ⊆ restMutexes := by
  rintro l hl rfl
  exact hl

/-- a program that gives its standing back -/
def Quits (may : Prop) {α : Type} (p : P α) : Prop := p.Pays receivers may {} fun _ g' => g' = {}

theorem quits_passes (may : Prop) : Passes (fun _ p => Quits may p) restKinds restMutexes where
  pure _ := rfl
  bind hp hq := Prog.Pays.seq _ hp fun a g' hg' => by
    subst hg'
    exact hq a
  does hp := rest_pays hp rfl

/-- an access that only looks -/
theorem load_pays {α : Type} {f : Mem → α} {g : Standing} {Q : α → Standing → Prop}
    (h : ∀ m, 0 ≤ m.fgActiveReceivers → ∃ g', receivers.Step m none m g g' ∧ Q (f m) g') :
    (load f : P α).Pays receivers may g Q := Prog.Pays.act fun m hpos _ => h m hpos

/-! ## the two that have to do with them -/

theorem awaitReceivers_pays (hmay : may) : awaitReceivers.Pays receivers may { owner := true }
    fun _ g' => g' = { owner := true } := by
  apply Prog.Pays.loopFrom (fun _ g => g = { owner := true }) rfl
  rintro _ _ rfl
  apply Prog.Pays.seq fun (active : Int) g' => g' = { owner := true, sure := decide (0 < active) }
  · apply load_pays
    intro m _
    refine ⟨{ owner := true, sure := decide (0 < m.fgActiveReceivers) },
      .stays (fun e he => ?_) rfl rfl rfl (fun hs => ⟨rfl, of_decide_eq_true hs⟩) id .inl, rfl⟩
    cases he
  rintro active _ rfl
  split
  case isTrue hactive =>
    rw [decide_eq_true hactive]
    refine Prog.Pays.seq (fun _ g' => g' = { owner := true }) (Prog.Pays.condWait hmay fun _ => rfl) ?_
    rintro _ _ rfl
    exact rfl
  case isFalse hactive =>
    rw [decide_eq_false hactive]
    exact rfl

theorem shutdownTake_pays (hmay : may) : Quits may shutdownTake := by
  refine Prog.Pays.seq (fun _ g' => g' = { owner := true }) (Prog.Pays.lock rfl rfl) ?_
  rintro _ _ rfl
  refine Prog.Pays.seq _ (awaitReceivers_pays hmay) ?_
  rintro _ _ rfl
  have hlocked : Does restKinds restMutexes (lock .fgSend : P Unit) := Does.lock (by simp [restMutexes])
  refine Prog.Pays.seq _ (rest_pays hlocked rfl) ?_
  rintro _ _ rfl
  refine Prog.Pays.seq _ (rest_pays (Does.load (by simp [restKinds])) rfl) ?_
  rintro desc _ rfl
  refine Prog.Pays.seq _ (rest_pays (Does.labelled .life (by simp [restKinds]) (fun _ => rfl)
    (fun m => ⟨_, _, _, rfl⟩) (fun _ => rfl) fun _ _ => rfl) rfl) ?_
  rintro _ _ rfl
  refine Prog.Pays.seq (fun _ g' => g' = {}) (Prog.Pays.unlock rfl rfl rfl) ?_
  rintro _ _ rfl
  exact rfl

theorem raspikeProtShutdown_pays (hmay : may) : Quits may raspikeProtShutdown := by
  have hF := quits_passes may
  have hsend : Mutex.fgSend ∈ restMutexes := by simp [restMutexes]
  have hstatus : Mutex.fgStatus ∈ restMutexes := by simp [restMutexes]
  refine hF.bind (hF.does ?_) fun _ => hF.bind (shutdownTake_pays hmay) fun desc => ?_
  · exact Does.labelled .life (by simp [restKinds]) (fun _ => rfl) (fun m => ⟨_, _, _, rfl⟩) (fun _ => rfl)
      fun _ _ => rfl
  refine hF.bind (hF.does ?_) fun _ => hF.bind ?_ fun _ => ?_
  · exact resetPortState_all (by simp [restKinds]) (by simp [restKinds]) (by simp [restMutexes]) _ true
      (by simp [restKinds]) (by simp [restMutexes])
  · cases desc with
    | none => exact hF.pure _
    | some d =>
      refine hF.bind (hF.does ?_) fun _ => hF.does (Does.bind ?_ fun _ => rpUsbClose_all (by simp [restKinds]) d)
      · exact raspikeComFlush_all (by simp [restKinds]) (by simp [restKinds]) (by simp [restMutexes])
      · exact Does.tick (k := .life) (by simp [restKinds]) rfl (fun m => ⟨_, _, _, rfl⟩) fun _ => rfl
  refine hF.bind (hF.does (Does.unlock hsend)) fun _ => hF.bind ?_ fun _ => hF.pure _
  exact shutdownRelease_passes hF (by simp [releaseKinds, restKinds, Set.subset_def]) hstatus
    (hF.does (setUseV2_all (by simp [restKinds]) _)) (hF.does (setSession_all (by simp [restKinds]) _))

theorem receiveDone_pays : receiveDone.Pays receivers may { inside := true } fun _ g' => g' = {} := by
  refine Prog.Pays.seq (fun _ g' => g' = { owner := true, inside := true }) (Prog.Pays.lock rfl rfl) ?_
  rintro _ _ rfl
  apply Prog.Pays.seq fun _ g' => g' = { owner := true, owes := true }
  · exact Prog.Pays.act fun m _ _ => ⟨_, .leaves rfl rfl rfl rfl rfl rfl, rfl⟩
  rintro _ _ rfl
  -- who still owes has seen nobody in
  apply Prog.Pays.seq fun (active : Int) g' => 0 ≤ active ∧ g' =
    { owner := true, sure := decide (0 < active), owes := !decide (0 < active) }
  · apply load_pays
    intro m hpos
    refine ⟨{ owner := true, sure := decide (0 < m.fgActiveReceivers), owes := !decide (0 < m.fgActiveReceivers) },
      .stays (fun e he => ?_) rfl rfl rfl (fun hs => ⟨rfl, of_decide_eq_true hs⟩) (fun _ => rfl) (fun _ => ?_),
      hpos, rfl⟩
    · cases he
    · by_cases hin : 0 < m.fgActiveReceivers
      · exact .inr hin
      · left
        show (!decide (0 < m.fgActiveReceivers)) = true
        rw [decide_eq_false hin]
        rfl
  rintro active _ ⟨hpos, rfl⟩
  apply Prog.Pays.seq fun _ g' => g' = { owner := true, sure := decide (0 < active) }
  · split
    case isTrue hzero =>
      subst hzero
      exact Prog.Pays.broadcast rfl
    case isFalse hzero =>
      have hin : 0 < active := by omega
      rw [decide_eq_true hin]
      exact rfl
  rintro _ _ rfl
  exact Prog.Pays.unlock rfl rfl rfl

theorem raspikeProtReceive_pays : Quits may raspikeProtReceive := by
  refine Prog.Pays.seq (fun _ g' => g' = { owner := true }) (Prog.Pays.lock rfl rfl) ?_
  rintro _ _ rfl
  have hq : Kind.quiet ∈ restKinds := by simp [restKinds]
  have hentry : Does restKinds restMutexes (orElse (load fun m => m.fgStopCommunication)
      (orElse (load fun m => m.fgDesc.isNone) (load fun m => !m.fgHandshakeComplete))) :=
    Does.orElse (Does.load hq) (Does.orElse (Does.load hq) (Does.load hq))
  refine Prog.Pays.seq _ (rest_pays hentry rfl) ?_
  rintro down _ rfl
  split
  case isTrue =>
    refine Prog.Pays.seq (fun _ g' => g' = {}) (Prog.Pays.unlock rfl rfl rfl) ?_
    rintro _ _ rfl
    exact rfl
  apply Prog.Pays.seq fun _ g' => g' = { owner := true, inside := true }
  · exact Prog.Pays.act fun m _ _ => ⟨_, .enters rfl rfl rfl rfl, rfl⟩
  rintro _ _ rfl
  refine Prog.Pays.seq (fun _ g' => g' = { inside := true }) (Prog.Pays.unlock rfl rfl rfl) ?_
  rintro _ _ rfl
  have hframe : Does restKinds restMutexes receiveFrame := by
    apply receiveFrame_all
    · simp [commandKinds, restKinds, Set.subset_def]
    · rintro l (⟨i, rfl⟩ | rfl | rfl | rfl) <;> simp [restMutexes]
    · simp [restKinds]
  refine Prog.Pays.seq _ (rest_pays hframe rfl) ?_
  rintro result _ rfl
  refine Prog.Pays.seq _ receiveDone_pays ?_
  rintro _ _ rfl
  exact rfl

/-! ## every call -/

section
variable (may)

theorem send_quits (port cmd : Byte) (buf : Buf) (size : Int) : Quits may (raspikeProtSend port cmd buf size) :=
  rest_pays (raspikeProtSend_all requestKinds_rest requestMutexes_rest port cmd buf size) rfl

theorem sendPriority_quits (port cmd : Byte) (buf : Buf) (size : Int) :
    Quits may (raspikeProtSendPriority port cmd buf size) :=
  rest_pays (raspikeProtSendPriority_all requestKinds_rest requestMutexes_rest port cmd buf size) rfl

theorem request_quits (port cmd : Byte) (data : Buf) (size : Int) : Quits may (raspikeRequest port cmd data size) :=
  rest_pays (raspikeRequest_all requestKinds_rest requestMutexes_rest port cmd data size) rfl

theorem device_passes : Passes (fun _ p => Quits may p) deviceKinds deviceMutexes := by
  refine (quits_passes may).mono ?_ ?_
  · simp [deviceKinds, restKinds, Set.subset_def]
  · rintro l (rfl | ⟨i, rfl⟩) <;> simp [restMutexes]

end

theorem callBody_pays {c : Call} (hi : ∀ desc, c ≠ .init desc) (hs : c = .shutdown → may) :
    Quits may c.body := by
  have hF := quits_passes may
  have hclient : c.isClient → Quits may c.body :=
    body_passes (device_passes may) (send_quits may) (sendPriority_quits may) (request_quits may)
  cases c with
  | init desc => exact (hi desc rfl).elim
  | shutdown => exact hF.bind (raspikeProtShutdown_pays (hs rfl)) fun _ => rfl
  | receive => exact hF.bind raspikeProtReceive_pays fun _ => rfl
  | _ => exact hclient rfl

theorem comBody_pays (c : ComCall) : Quits may c.body := by
  have hF := quits_passes may
  have hq : Kind.quiet ∈ restKinds := by simp [restKinds]
  have hio : ∀ d, Kind.io d ∈ restKinds := by simp [restKinds]
  have hl : Mutex.comSend ∈ restMutexes := by simp [restMutexes]
  cases c with
  | send desc buf => exact rest_pays (raspikeComSend_all hq (fun d _ => hio d) hl buf) rfl
  | flush desc => exact rest_pays (raspikeComFlush_all hq (fun d _ => hio d) hl) rfl
  | usbBufferFlush d =>
    refine hF.bind (hF.does (Does.bind ?_ fun _ => ?_)) fun _ => rfl
    · exact io_tick (hio d) (k := .flush) nofun
    · exact (Does.lock hl).bind fun _ => (flushBufferLocked_all hq (hio d)).bind fun _ => Does.unlock hl
  | usbSetMode mode => exact hF.bind (hF.does (raspikeUsbSetMode_all hq hl mode)) fun _ => rfl

theorem op_pays {o : Op} (hi : ∀ desc, o ≠ .api (.init desc)) (hs : o = .api .shutdown → may) :
    Quits may o.run := by
  have hmark : ∀ e : Event, e.enters = false → e.leaves = false → Quits may (tick e : P Unit) := fun e he hl =>
    Prog.Pays.act fun m _ hm =>
      ⟨{}, .stays (fun x hx => Option.some.inj hx ▸ ⟨he, hl⟩) rfl rfl rfl hm id .inl, rfl⟩
  have hF := quits_passes may
  cases o with
  | api c =>
    refine hF.bind (hmark _ rfl rfl) fun _ => hF.bind (callBody_pays (fun desc h => ?_) fun h => ?_) fun r =>
      hmark _ rfl rfl
    · exact hi desc (congrArg Op.api h)
    · exact hs (congrArg Op.api h)
  | com c => exact hF.bind (hmark _ rfl rfl) fun _ => hF.bind (comBody_pays c) fun r => hmark _ rfl rfl
  | openUsb d fd =>
    cases fd with
    | none => exact hF.pure _
    | some fd =>
      refine hF.bind (hF.bind ?_ fun _ => hF.pure _) fun _ => hF.pure _
      refine Prog.Pays.act fun m _ hm => ⟨{}, .stays (fun x hx => ?_) rfl rfl rfl hm id .inl, rfl⟩
      cases hx

/-- a write to the device of a port -/
theorem setDevice_quits (i : Port) (f : PupDevice → PupDevice) :
    Quits may (modify fun m => m.setPort i fun d => { d with device := f d.device } : P Unit) :=
  (device_passes may).does (Does.modify .dev (by simp [deviceKinds]) rfl fun m => ⟨⟨i, f, rfl⟩, fun _ => rfl⟩)

theorem sendSetting_quits (i : Port) (cmd : Byte) (value : Int) : Quits may (sendSetting i cmd value) := by
  have hF := device_passes may
  refine hF.bind (hF.does (Does.load (by simp [deviceKinds]))) fun portId => ?_
  exact hF.bind (send_quits may ..) fun sent => hF.pure _

theorem motorRequest_quits (cmd : Byte) (motor : Option Port) : Quits may (motorRequest cmd motor) := by
  have hF := device_passes may
  cases motor with
  | none => exact hF.pure _
  | some i =>
    refine hF.bind (hF.does (Does.load (by simp [deviceKinds]))) fun portId => ?_
    exact hF.bind (request_quits may ..) fun result => hF.pure _

theorem motorOp_quits (motor : Option Port) (o : MotorOp) : Quits may (o.run motor) := by
  have hF := device_passes may
  cases o with
  | setPower power =>
    cases motor with
    | none => exact hF.pure _
    | some i =>
      refine hF.bind (setDevice_quits i fun v => { v with cmd := rpCmdIdMotPow }) fun _ => ?_
      exact hF.bind (setDevice_quits i fun v => { v with power := clampPower power }) fun _ => sendSetting_quits ..
  | setSpeed speed =>
    cases motor with
    | none => exact hF.pure _
    | some i =>
      exact hF.bind (setDevice_quits i fun v => { v with cmd := rpCmdIdMotSpd }) fun _ => sendSetting_quits ..
  | stop | brake | hold => exact motorRequest_quits ..

theorem pupMotorGetPower_quits (motor : Option Port) : Quits may (pupMotorGetPower motor) := by
  have hF := device_passes may
  cases motor with
  | none => exact hF.pure _
  | some i =>
    refine hF.bind (hF.does (Does.load (by simp [deviceKinds]))) fun cmd => ?_
    split
    · exact hF.does (Does.load (by simp [deviceKinds]))
    · refine hF.bind (getAndRetSensorCommon_passes (hF.mono ?_ ?_).looks ..) fun r => hF.pure _
      · simp [getterKinds, deviceKinds, Set.subset_def]
      · simp [deviceMutexes]

theorem sendHubCommand_quits (command : Byte) (data : Buf) (size : Nat) :
    Quits may (sendHubCommand command data size) := by
  have hF := device_passes may
  unfold sendHubCommand
  split
  · exact hF.pure _
  refine hF.bind (sendPriority_quits may ..) fun result => ?_
  split
  · exact hF.pure _
  split
  · exact hF.pure _
  split <;> exact hF.pure _

theorem hubCall_quits (h : HubCall) : Quits may h.body := by
  have htext : ∀ command front text, Quits may (hubText command front text) := by
    intro command front text
    cases text with
    | none => exact (device_passes may).pure _
    | some text =>
      unfold hubText
      dsimp only
      split
      · exact (device_passes may).pure _
      · exact sendHubCommand_quits ..
  cases h with
  | orientation up => exact sendHubCommand_quits rpCmdIdHubDispOri (some [up]) 1
  | off => exact sendHubCommand_quits rpCmdIdHubDispOff none 0
  | pixel row column brightness => exact sendHubCommand_quits rpCmdIdHubDispPix (some [row, column, brightness]) 3
  | image bits =>
    cases bits with
    | none => exact (device_passes may).pure _
    | some bits => exact sendHubCommand_quits rpCmdIdHubDispImg (some bits) 25
  | number num => exact sendHubCommand_quits rpCmdIdHubDispNum (some [num]) 1
  | char c => exact sendHubCommand_quits rpCmdIdHubDispChr (some [c]) 1
  | text s on off => exact htext ..
  | textScroll s delay => exact htext ..

theorem lib_pays {c : LibCall} (hi : ∀ desc, c ≠ .op (.api (.init desc)))
    (hs : c = .op (.api .shutdown) → may) : Quits may c.run := by
  have hF := quits_passes may
  have hload : ∀ {α : Type} (f : Mem → α), Quits may (load f : P α) := fun f =>
    hF.does (Does.load (by simp [restKinds]))
  have hlock : ∀ l : Mutex, l ≠ .fgLifecycle → Quits may (lock l : P Unit) ∧ Quits may (unlock l : P Unit) :=
    fun l hl => ⟨hF.does (Does.lock hl), hF.does (Does.unlock hl)⟩
  cases c with
  | op o => exact op_pays (fun desc h => hi desc (congrArg LibCall.op h)) fun h => hs (congrArg LibCall.op h)
  | motor i o => exact hF.bind (motorOp_quits i o) fun _ => hF.pure _
  | motorPower i => exact hF.bind (pupMotorGetPower_quits i) fun _ => hF.pure _
  | hub h => exact hF.bind (hubCall_quits h) fun _ => hF.pure _
  | linkStats stats =>
    refine hF.bind ?_ fun _ => hF.pure _
    obtain ⟨hl, hu⟩ := hlock .fgLinkStats (by simp)
    unfold raspikeLinkGetStats
    split
    · exact hF.pure _
    refine hF.bind hl fun _ => hF.bind (hload _) fun session => hF.bind (hload _) fun v2 => ?_
    refine hF.bind (hload _) fun capabilities => hF.bind (hload _) fun counters => ?_
    exact hF.bind hu fun _ => hF.pure _
  | runtimeTelemetry telemetry =>
    refine hF.bind ?_ fun _ => hF.pure _
    obtain ⟨hl, hu⟩ := hlock .fgRuntimeTelemetry (by simp)
    unfold raspikeRuntimeGetTelemetry
    split
    · exact hF.pure _
    exact hF.bind hl fun _ => hF.bind (hload _) fun bytes => hF.bind hu fun _ => hF.pure _

/-! ## in a run -/

section
variable {T : Type} [DecidableEq T]

/-- no thread makes a call to `raspike_prot_init` -/
def NoInitLib (ops : T → List LibCall) : Prop := ∀ t desc, .op (.api (.init desc)) ∉ ops t

theorem forEach_quits {ops : List LibCall} (h : ∀ c ∈ ops, Quits may c.run) :
    Quits may (forEach ops LibCall.run) := by
  have hF := quits_passes may
  induction ops with
  | nil => exact hF.pure ()
  | cons c ops ih =>
    refine hF.bind (h c List.mem_cons_self) fun _ => ?_
    exact ih fun c' hc' => h c' (List.mem_cons_of_mem _ hc')

/-- **Nobody sleeps for ever** under the mutex: only a shutdown sleeps there, and then a receiver is
active, or somebody has the mutex -/
theorem asleep_debtor {m : Mem} {ops : T → List LibCall} (hm : m.fgActiveReceivers = 0) (hi : NoInitLib ops)
    {c : Sys T} (hr : Reach (startLib m ops) c) {t : T} (ht : (c.thr t).sleepsUnder = some .fgLifecycle) :
    .op (.api .shutdown) ∈ ops t ∧ ∃ u, u ≠ t ∧ c.thr u ≠ .ret () ∧
      (insideReceive c.trace u ∨ c.own .fgLifecycle = some u) := by
  have hstart : Paid receivers (fun t => .op (.api .shutdown) ∈ ops t) (startLib m ops) fun _ => {} := by
    refine Paid.start (fun _ => rfl) rfl hm fun t => ?_
    refine Prog.Pays.mono ?_ (forEach_quits fun c hc => lib_pays (fun desc h => ?_) fun h => ?_)
    · rintro _ _ rfl
      exact ⟨rfl, rfl⟩
    · exact hi t desc (h ▸ hc)
    · exact h ▸ hc
  obtain ⟨gs, hpaid⟩ := hstart.reach hr
  obtain ⟨v, k, hk⟩ := Prog.sleepsUnder_iff.mp ht
  obtain ⟨-, hmay, u, hu, hend, hin⟩ := hpaid.debtor hk
  exact ⟨hmay, u, hu, hend, hin.imp_left (receivers_inside c.trace u).mp⟩

end

end RaspikeArt
