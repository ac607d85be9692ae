import RaspikeArt.Locks.Rules
import RaspikeArt.Model.Hub

/-!
# The mutexes of every call

* `raspikeProtReceive_orderly`, `raspikeProtInit_orderly`, `raspikeProtShutdown_orderly`  the receiver and
  the two ends of a connection;
* `getDeviceCommon_orderly` ..  the functions of the devices;
* `callBody_orderly`, `op_orderly`  every call, and every call of the com layer;
* `LibCall`, `startLib`       all of the library's calls, and threads that make any of them;
* `Bare ops t`                what such a thread may write without a mutex;
* `orderly`, `orderly_lib`    in every run, each thread obeys the rules.
-/

namespace RaspikeArt
open Threads

variable {bare : Field → Prop} {shuts : Prop} {H : Set Mutex}

/-! ## the receiver -/

theorem setSession_orderly (s : U32) : (setSession s).Keeps (rules bare shuts) H :=
  labelled_orderly (fun _ => rfl) fun _ x => by cases x <;> rfl

theorem setCapabilities_orderly (c : Byte) : (setCapabilities c).Keeps (rules bare shuts) H :=
  labelled_orderly (fun _ => rfl) fun _ x => by cases x <;> rfl

theorem setUseV2_orderly (b : Bool) : (setUseV2 b).Keeps (rules bare shuts) H :=
  labelled_orderly (fun _ => rfl) fun _ x => by cases x <;> rfl

theorem setRuntimeTelemetry_orderly (hl : Mutex.fgRuntimeTelemetry ∈ H) (t : List Byte) :
    (setRuntimeTelemetry t).Keeps (rules bare shuts) H := by
  refine under_orderly (e := fun _ => .runtimeTelemetry) hl (fun _ => rfl) fun m x hx => ?_
  cases x <;> first
    | rfl
    | exact (hx rfl).elim

/-- a write to a record through a pointer -/
theorem statusWrite_orderly (hl : Mutex.fgStatus ∈ H) (p : Option Nat)
    (f : Mem → SpikeStatus → SpikeStatus) :
    (.act (fun _ => some (.statusUse p)) (fun m => ((), match p with
      | none => m
      | some p => { m with heap := Function.update m.heap p ((m.heap p).map (f m)) })) .ret :
        P Unit).Keeps (rules bare shuts) H := by
  refine under_orderly (e := fun _ => .statusUse p) hl (fun _ => rfl) fun m x hx => ?_
  cases p with
  | none => exact x.same_refl m
  | some p =>
    cases x <;> first
      | rfl
      | exact (hx rfl).elim

theorem writeStatus_orderly (hl : Mutex.fgStatus ∈ H) (f : SpikeStatus → SpikeStatus) :
    (writeStatus f).Keeps (rules bare shuts) H :=
  (load_orderly _).bind fun status => statusWrite_orderly hl status fun _ => f

section
variable (hH : Below H 4)
include hH

theorem clearSavedStatus_orderly : clearSavedStatus.Keeps (rules bare shuts) H := by
  have hlow : Below H Mutex.fgStatus.rank := hH.mono (by decide)
  refine Prog.Obeys.bind ?_ fun present => ?_
  · exact labelled_orderly (e := fun m => .statusFetch m.fgStatus) (fun _ => rfl) fun m x => x.same_refl m
  split
  · refine lock_obeys hlow ((writeStatus_orderly (Set.mem_insert _ _) _).bind fun _ => ?_)
    exact Prog.Obeys.broadcast.bind fun _ => Prog.Obeys.unlocked hlow.notMem
  · rfl

theorem clearRuntimeTelemetry_orderly : clearRuntimeTelemetry.Keeps (rules bare shuts) H := by
  have hlow : Below H Mutex.fgRuntimeTelemetry.rank := hH.mono (by decide)
  refine lock_obeys hlow ((setRuntimeTelemetry_orderly (Set.mem_insert _ _) _).bind fun _ => ?_)
  exact Prog.Obeys.unlocked hlow.notMem

theorem processHelloPayload_orderly (buf : List Byte) :
    (processHelloPayload buf).Keeps (rules bare shuts) H := by
  unfold processHelloPayload
  split
  · rfl
  refine (load_orderly _).bind fun old => ?_
  split
  · rfl
  refine (setSession_orderly _).bind fun _ => (setCapabilities_orderly _).bind fun _ => ?_
  refine (resetPortState_orderly hH _ false nofun).bind fun _ => ?_
  refine (tick_orderly (e := .helloDone _) rfl).bind fun _ => ?_
  exact (clearSavedStatus_orderly hH).bind fun _ => clearRuntimeTelemetry_orderly hH

theorem processAck_orderly (i : Port) (sequence session : U32) (buf : List Byte) :
    (processAck i sequence session buf).Keeps (rules bare shuts) H := by
  have hin : Below (insert (Mutex.port i) H) 5 :=
    (hH.mono (by decide)).insert (l := .port i) (show 4 < 5 by decide)
  refine lock_obeys hH ((load_orderly _).bind fun d => Prog.Obeys.bind ?_ fun isCurrent =>
    Prog.Obeys.bind ?_ fun _ => unlock_obeys hH rfl)
  · unfold ackMatches
    split
    · refine Prog.Obeys.orElse (load_orderly _) ?_
      split
      · exact load_orderly _
      · rfl
    · rfl
  · split
    · refine Prog.Obeys.bind ?_ fun _ => Prog.Obeys.broadcast
      exact setSlot_orderly (Set.mem_insert _ _) rfl fun _ => rfl
    · exact statsIncrement_orderly hin _

theorem updateStatus_orderly (f : SpikeStatus → SpikeStatus) :
    (updateStatus f).Keeps (rules bare shuts) H := by
  have hlow : Below H Mutex.fgStatus.rank := hH.mono (by decide)
  refine lock_obeys hlow ((writeStatus_orderly (Set.mem_insert _ _) f).bind fun _ => ?_)
  exact Prog.Obeys.broadcast.bind fun _ => unlock_obeys hlow rfl

theorem processCommand_orderly (port cmd flags : Byte) (sequence session : U32) (buf : List Byte) :
    (processCommand port cmd flags sequence session buf).Keeps (rules bare shuts) H := by
  have hlow : Below H Mutex.fgRuntimeTelemetry.rank := hH.mono (by decide)
  have hcounted : ∀ (s : Stat) (r : Int), (do
      statsIncrement s
      return r : P Int).Keeps (rules bare shuts) H := fun s r =>
    (statsIncrement_orderly (hH.mono (by decide)) s).bind fun _ => rfl
  refine (tick_orderly rfl).bind fun _ => ?_
  split
  · exact (processHelloPayload_orderly hH buf).bind fun _ => rfl
  split
  · exact hcounted _ _
  refine Prog.Obeys.bind ?_ fun stale => ?_
  · refine (load_orderly _).bind fun v2 => ?_
    split
    · exact load_orderly _
    · rfl
  split
  · exact hcounted _ _
  split
  · split
    · rfl
    · exact updateStatus_orderly hH _
  split
  · split
    · rfl
    refine lock_obeys hlow ((setRuntimeTelemetry_orderly (Set.mem_insert _ _) buf).bind fun _ => ?_)
    exact unlock_obeys hlow rfl
  split
  · split
    · rfl
    · exact updateStatus_orderly hH _
  split
  · split
    · rfl
    split
    · rfl
    · exact processAck_orderly hH _ _ _ _
  split <;> rfl

omit hH in
theorem discardReceiveBytes_orderly (size : Nat) :
    (discardReceiveBytes size).Keeps (rules bare shuts) H := by
  refine Prog.Obeys.loopKeeps fun size => ?_
  split
  · rfl
  refine (load_orderly _).bind fun desc => (raspikeComReceiveTimeout_orderly desc _).bind fun r => ?_
  cases r <;> rfl

theorem receiveLegacyFrame_orderly : receiveLegacyFrame.Keeps (rules bare shuts) H := by
  have hlow : Below H 5 := hH.mono (by decide)
  refine (load_orderly _).bind fun desc => (raspikeComReceiveTimeout_orderly desc 3).bind fun r => ?_
  cases r with
  | error e => rfl
  | ok header =>
    show (receiveLegacyBody header).Keeps (rules bare shuts) H
    unfold receiveLegacyBody
    dsimp only
    split
    · exact (statsIncrement_orderly hlow _).bind fun _ => rfl
    refine Prog.Obeys.bind ?_ fun received => ?_
    · split
      · exact (load_orderly _).bind fun desc => raspikeComReceiveTimeout_orderly desc _
      · rfl
    cases received with
    | error e => rfl
    | ok payload =>
      refine (tick_orderly rfl).bind fun _ => (statsIncrement_orderly hlow _).bind fun _ => ?_
      exact (load_orderly _).bind fun session => processCommand_orderly hH ..

theorem receiveV2Frame_orderly : receiveV2Frame.Keeps (rules bare shuts) H := by
  have hlow : Below H 5 := hH.mono (by decide)
  have hdiscard : ∀ (size : Nat) (s : Stat) (r : Int), (do
      let _ ← discardReceiveBytes size
      statsIncrement s
      return r : P Int).Keeps (rules bare shuts) H := fun size s r =>
    (discardReceiveBytes_orderly size).bind fun _ => (statsIncrement_orderly hlow s).bind fun _ => rfl
  refine (load_orderly _).bind fun desc => (raspikeComReceiveTimeout_orderly desc _).bind fun r => ?_
  cases r with
  | error e => rfl
  | ok header =>
    show (receiveV2Body header).Keeps (rules bare shuts) H
    unfold receiveV2Body
    dsimp only
    split
    · exact hdiscard _ _ _
    split
    · exact hdiscard _ _ _
    refine (load_orderly _).bind fun desc => (raspikeComReceiveTimeout_orderly desc _).bind fun r => ?_
    cases r with
    | error e => rfl
    | ok rest =>
      show (receiveV2Checked header rest).Keeps (rules bare shuts) H
      unfold receiveV2Checked
      dsimp only
      split
      · exact (statsIncrement_orderly hlow _).bind fun _ => rfl
      · exact (tick_orderly rfl).bind fun _ => processCommand_orderly hH ..

theorem receiveFrame_orderly : receiveFrame.Keeps (rules bare shuts) H := by
  have hlow : Below H 5 := hH.mono (by decide)
  refine (load_orderly _).bind fun desc => (raspikeComReceiveTimeout_orderly desc 1).bind fun r => ?_
  cases r with
  | error e => rfl
  | ok start =>
    refine Prog.Obeys.bind ?_ fun result => Prog.Obeys.bind ?_ fun _ => rfl
    · show (receiveStarted (start.getD 0 0)).Keeps (rules bare shuts) H
      unfold receiveStarted
      split
      · exact receiveV2Frame_orderly hH
      split
      · exact receiveLegacyFrame_orderly hH
      · exact (statsIncrement_orderly hlow _).bind fun _ => rfl
    · split
      · exact statsIncrement_orderly hlow _
      · rfl

end

/-- a labelled change of the number of active receivers, under the lifecycle mutex -/
theorem setActive_orderly (hl : Mutex.fgLifecycle ∈ H) {e : Event} (he : e.endsCall = false)
    (f : Int → Int) : (Prog.act (fun _ => some e)
      (fun m => ((), { m with fgActiveReceivers := f m.fgActiveReceivers })) .ret : P Unit).Keeps
      (rules bare shuts) H := by
  refine under_orderly (e := fun _ => e) hl (fun _ => he) fun m x hx => ?_
  cases x <;> first
    | rfl
    | exact (hx rfl).elim

theorem raspikeProtReceive_orderly : raspikeProtReceive.Keeps (rules bare shuts) ∅ := by
  have hlow : Below ∅ Mutex.fgLifecycle.rank := Below.empty _
  have hl : Mutex.fgLifecycle ∈ (insert Mutex.fgLifecycle ∅ : Set Mutex) := Set.mem_insert _ _
  refine lock_obeys hlow (Prog.Obeys.bind ?_ fun down => ?_)
  · exact Prog.Obeys.orElse (load_orderly _) (Prog.Obeys.orElse (load_orderly _) (load_orderly _))
  split
  · exact unlock_obeys hlow rfl
  refine (setActive_orderly hl rfl (· + 1)).bind fun _ => unlock_obeys hlow ?_
  refine (receiveFrame_orderly (Below.empty _)).bind fun result => Prog.Obeys.bind ?_ fun _ => rfl
  refine lock_obeys hlow ((setActive_orderly hl rfl (· - 1)).bind fun _ => ?_)
  refine (load_orderly _).bind fun active => Prog.Obeys.bind ?_ fun _ => Prog.Obeys.unlocked hlow.notMem
  split <;> rfl

/-! ## connecting -/

theorem scanForByte_orderly (target : Byte) : (scanForByte target).Keeps (rules bare shuts) H := by
  have hlate : ∀ desc, (scanLate desc).Keeps (rules bare shuts) H := fun desc => by
    cases desc with
    | none => rfl
    | some d => exact clockLate_orderly d .rx
  refine Prog.Obeys.loopKeeps fun _ => (load_orderly _).bind fun desc => ?_
  refine (raspikeComReceiveTimeout_orderly desc 1).bind fun r => ?_
  cases r with
  | ok byte =>
    dsimp only
    split
    · rfl
    refine (hlate desc).bind fun late => ?_
    split <;> rfl
  | error e =>
    dsimp only
    split
    · rfl
    refine (hlate desc).bind fun late => ?_
    split <;> rfl

section
variable (hH : Below H 5)
include hH

theorem performHandshakeOnce_orderly : performHandshakeOnce.Keeps (rules bare shuts) H := by
  refine (load_orderly _).bind fun desc => (raspikeComSend_orderly hH _ _).bind fun sent => ?_
  split
  · rfl
  refine (load_orderly _).bind fun desc => (raspikeComFlush_orderly hH _).bind fun flushResult => ?_
  split
  · rfl
  refine (scanForByte_orderly _).bind fun found => ?_
  split
  · rfl
  refine (load_orderly _).bind fun desc => (raspikeComReceiveTimeout_orderly desc 1).bind fun r => ?_
  cases r with
  | error e => rfl
  | ok magic =>
    refine Prog.Obeys.bind rfl fun magic => ?_
    split
    · rfl
    refine (load_orderly _).bind fun desc => (raspikeComReceiveTimeout_orderly desc 3).bind fun r => ?_
    cases r with
    | error e => rfl
    | ok version =>
      refine Prog.Obeys.bind rfl fun version => ?_
      refine (store_orderly fun m x => by cases x <;> rfl).bind fun _ => ?_
      refine (store_orderly fun m x => by cases x <;> rfl).bind fun _ => ?_
      exact (store_orderly fun m x => by cases x <;> rfl).bind fun _ => rfl

theorem handshakeAttempts_orderly (n : Nat) (result : Int) :
    (handshakeAttempts n result).Keeps (rules bare shuts) H := by
  induction n generalizing result with
  | zero => rfl
  | succ n ih =>
    refine (load_orderly _).bind fun desc => (raspikeComDiscardInput_orderly desc).bind fun _ => ?_
    refine (performHandshakeOnce_orderly hH).bind fun result => ?_
    split
    · rfl
    · exact ih _

end

theorem receiveLegacyHello_orderly : receiveLegacyHello.Keeps (rules bare shuts) H := by
  refine (scanForByte_orderly _).bind fun found => ?_
  split
  · rfl
  refine (load_orderly _).bind fun desc => (raspikeComReceiveTimeout_orderly desc 3).bind fun r => ?_
  cases r with
  | error e => rfl
  | ok header =>
    refine Prog.Obeys.bind rfl fun header => ?_
    dsimp only
    split
    · rfl
    refine (load_orderly _).bind fun desc => (raspikeComReceiveTimeout_orderly desc _).bind fun r => ?_
    cases r with
    | error e => rfl
    | ok payload =>
      refine Prog.Obeys.bind rfl fun payload => ?_
      split
      · rfl
      refine (setCapabilities_orderly _).bind fun _ => (setSession_orderly _).bind fun _ => ?_
      refine Prog.Obeys.bind ?_ fun refused => ?_
      · exact Prog.Obeys.orElse (load_orderly _) (Prog.Obeys.orElse (load_orderly _) rfl)
      split
      · rfl
      · exact (setUseV2_orderly _).bind fun _ => rfl

/-- a write to `fgDesc` under the lifecycle mutex -/
theorem setDesc_orderly (hl : Mutex.fgLifecycle ∈ H) (desc : Option Nat) :
    (modify fun m => { m with fgDesc := desc } : P Unit).Keeps (rules bare shuts) H := by
  refine modify_orderly hl fun m x hx => ?_
  cases x <;> first
    | rfl
    | exact (hx rfl).elim

theorem clearDesc_orderly : clearDesc.Keeps (rules bare shuts) ∅ := by
  have hlow : Below ∅ Mutex.fgLifecycle.rank := Below.empty _
  refine lock_obeys hlow (Prog.Obeys.bind ?_ fun _ => Prog.Obeys.unlocked hlow.notMem)
  exact setDesc_orderly (Set.mem_insert _ _) none

section
variable (hi : ∀ x, bare x)
include hi

/-- a write of an init -/
theorem initStore_orderly (f : Mem → Mem) : (modify f : P Unit).Keeps (rules bare shuts) H :=
  Prog.Obeys.modify (Access.init hi fun _ _ h => nomatch h)

theorem initFailed_orderly (error : Int) : (initFailed error).Keeps (rules bare shuts) ∅ := by
  refine Prog.Obeys.bind ?_ fun _ => (initStore_orderly hi _).bind fun _ =>
    clearDesc_orderly.bind fun _ => rfl
  exact Prog.Obeys.act (Access.init hi fun m x hx => by cases hx; rfl)

theorem initPorts_orderly : initPorts.Keeps (rules bare shuts) ∅ := by
  refine (load_orderly _).bind fun synchronized => ?_
  split
  · exact resetPortState_orderly (Below.empty _) _ true fun _ i =>
      ⟨Set.notMem_empty _, .inl (Below.empty _)⟩
  · refine Prog.Obeys.bind (Prog.Obeys.forEach fun i _ => initStore_orderly hi _) fun _ => ?_
    exact initStore_orderly hi _

theorem initNegotiate_orderly : initNegotiate.Keeps (rules bare shuts) ∅ := by
  refine (handshakeAttempts_orderly (Below.empty _) _ _).bind fun ret => ?_
  split
  · exact initFailed_orderly hi _
  refine (load_orderly _).bind fun supported => ?_
  split
  · exact initFailed_orderly hi _
  refine receiveLegacyHello_orderly.bind fun ret => ?_
  split
  · exact initFailed_orderly hi _
  refine (initStore_orderly hi _).bind fun _ => ?_
  exact (raspikeUsbSetMode_orderly (Below.empty _) _).bind fun _ => rfl

theorem raspikeProtInit_orderly (desc : Option Nat) :
    (raspikeProtInit desc).Keeps (rules bare shuts) ∅ := by
  have hlow : Below ∅ Mutex.fgLifecycle.rank := Below.empty _
  unfold raspikeProtInit
  split
  · rfl
  refine lock_obeys hlow ((load_orderly _).bind fun busy => ?_)
  split
  · exact unlock_obeys hlow rfl
  refine (setDesc_orderly (Set.mem_insert _ _) desc).bind fun _ => ?_
  refine (initStore_orderly hi _).bind fun _ => (initStore_orderly hi _).bind fun _ => ?_
  refine (setUseV2_orderly _).bind fun _ => (setSession_orderly _).bind fun _ => ?_
  refine (setCapabilities_orderly _).bind fun _ => (initStore_orderly hi _).bind fun _ => ?_
  refine unlock_obeys hlow ((initStore_orderly hi _).bind fun _ => (initStore_orderly hi _).bind fun _ => ?_)
  refine Prog.Obeys.bind ?_ fun _ => Prog.Obeys.bind ?_ fun status => ?_
  · exact Prog.Obeys.act (Access.init hi fun m x hx => by cases hx; rfl)
  · exact Prog.Obeys.act (Access.init hi fun _ _ h => nomatch h)
  split
  · exact clearDesc_orderly.bind fun _ => rfl
  · exact (initPorts_orderly hi).bind fun _ => initNegotiate_orderly hi

end

/-! ## disconnecting -/

theorem awaitReceivers_orderly :
    awaitReceivers.Keeps (rules bare shuts) (insert .fgLifecycle ∅) := by
  have hlow : Below ∅ Mutex.fgLifecycle.rank := Below.empty _
  refine Prog.Obeys.loopKeeps fun _ => (load_orderly _).bind fun active => ?_
  split
  · exact (Prog.Obeys.condWait hlow.notMem hlow.takes).bind fun _ => rfl
  · rfl

/-- the descriptor is taken, and the send mutex stays in hand -/
theorem shutdownTake_obeys :
    shutdownTake.Obeys (rules bare shuts) ∅ fun _ H' => H' = {.fgSend} := by
  have hlow : Below ∅ Mutex.fgLifecycle.rank := Below.empty _
  have hlife : Below (insert Mutex.fgLifecycle ∅) Mutex.fgSend.rank :=
    (Below.empty _).insert (l := .fgLifecycle) (by decide)
  refine lock_obeys hlow (awaitReceivers_orderly.bind fun _ => lock_obeys hlife ?_)
  refine (load_orderly _).bind fun desc => Prog.Obeys.bind ?_ fun _ => ?_
  · refine under_orderly (l := .fgLifecycle) (e := fun _ => .takeDesc desc)
      (Set.mem_insert_of_mem _ (Set.mem_insert _ _)) (fun _ => rfl) fun m x hx => ?_
    cases x <;> first
      | rfl
      | exact (hx rfl).elim
  rw [Set.insert_comm]
  refine Prog.Obeys.unlock ?_ (insert_empty_eq _)
  rintro (h | h)
  · cases h
  · exact h

theorem freeStatus_orderly (hl : Mutex.fgStatus ∈ H) : freeStatus.Keeps (rules bare shuts) H := by
  refine under_orderly (e := fun m => .statusFree m.fgStatus) hl (fun _ => rfl) fun m x hx => ?_
  dsimp only
  split
  · exact x.same_refl m
  · cases x <;> first
      | rfl
      | exact (hx rfl).elim

theorem shutdownRelease_orderly : shutdownRelease.Keeps (rules bare shuts) ∅ := by
  have hlow : Below ∅ Mutex.fgStatus.rank := Below.empty _
  have hl : Mutex.fgStatus ∈ (insert Mutex.fgStatus ∅ : Set Mutex) := Set.mem_insert _ _
  refine lock_obeys hlow ((freeStatus_orderly hl).bind fun _ => Prog.Obeys.bind ?_ fun _ => ?_)
  · refine modify_orderly hl fun m x hx => ?_
    cases x <;> first
      | rfl
      | exact (hx rfl).elim
  refine unlock_obeys hlow ((store_orderly fun m x => by cases x <;> rfl).bind fun _ => ?_)
  exact (setUseV2_orderly _).bind fun _ => setSession_orderly _

theorem raspikeProtShutdown_orderly (hs : shuts) :
    raspikeProtShutdown.Keeps (rules bare shuts) ∅ := by
  have hsend : Below {Mutex.fgSend} 4 := by
    intro l hl
    rw [Set.mem_singleton_iff.mp hl]
    decide
  refine Prog.Obeys.bind ?_ fun _ => shutdownTake_obeys.seq _ fun desc H' hH' => ?_
  · exact labelled_orderly (fun _ => rfl) fun m x => by cases x <;> rfl
  subst hH'
  -- here the device mutexes are taken against the order
  refine (resetPortState_orderly hsend _ true fun _ i => ⟨?_, .inr ⟨hs, rfl, i, rfl⟩⟩).bind fun _ => ?_
  · intro hmem
    cases Set.mem_singleton_iff.mp hmem
  refine Prog.Obeys.bind ?_ fun _ => ?_
  · cases desc with
    | none => rfl
    | some d =>
      refine (raspikeComFlush_orderly (hsend.mono (by decide)) _).bind fun _ => ?_
      exact (tick_orderly rfl).bind fun _ => rpUsbClose_orderly d
  rw [← insert_empty_eq]
  exact Prog.Obeys.unlock (Set.notMem_empty _) (shutdownRelease_orderly.bind fun _ => rfl)

/-! ## the devices -/

theorem setDevice_orderly {i : Port} (hl : Mutex.device i ∈ H) (f : PupDevice → PupDevice) :
    (modify fun m => m.setPort i fun d => { d with device := f d.device } : P Unit).Keeps
      (rules bare shuts) H :=
  modify_orderly hl fun m _ hx => Field.same_setDevice hx m

theorem getDeviceCommon_orderly (fgDeviceType port : Byte) :
    (getDeviceCommon fgDeviceType port).Keeps (rules bare shuts) ∅ := by
  unfold getDeviceCommon
  dsimp only
  split
  · rfl
  split
  case h_2 => rfl
  case h_1 i hi =>
  have hlow : Below ∅ (Mutex.device i).rank := Below.empty _
  have hl : Mutex.device i ∈ (insert (Mutex.device i) ∅ : Set Mutex) := Set.mem_insert _ _
  have hin : Below (insert (Mutex.device i) ∅) 2 :=
    (Below.empty _).insert (l := .device i) (show 1 < 2 by decide)
  refine lock_obeys hlow ((load_orderly _).bind fun current => ?_)
  split
  · exact unlock_obeys hlow rfl
  split
  · exact unlock_obeys hlow rfl
  refine (tick_orderly rfl).bind fun _ => (raspikeRequest_orderly hin _ _ _ _).bind fun configResult => ?_
  split
  · exact (tick_orderly rfl).bind fun _ => unlock_obeys hlow rfl
  refine (setDevice_orderly hl fun v => { v with deviceType := fgDeviceType }).bind fun _ => ?_
  refine (setDevice_orderly hl fun v => { v with portId := port - 65 }).bind fun _ => ?_
  exact (tick_orderly rfl).bind fun _ => unlock_obeys hlow rfl

theorem raspikeProtGetSavedStatus_orderly :
    raspikeProtGetSavedStatus.Keeps (rules bare shuts) H :=
  labelled_orderly (fun _ => rfl) fun m x => x.same_refl m

theorem readStatus_orderly {α : Type} (p : Option Nat) (f : SpikeStatus → α) :
    (readStatus p f).Keeps (rules bare shuts) H :=
  labelled_orderly (fun _ => rfl) fun m x => x.same_refl m

section
variable (hH : Below H 3)
include hH

theorem readStatusSnapshot_orderly : readStatusSnapshot.Keeps (rules bare shuts) H := by
  refine raspikeProtGetSavedStatus_orderly.bind fun status => ?_
  split
  · rfl
  · exact section_orderly (l := .fgStatus) (hH.mono (by decide)) (readStatus_orderly _ _) fun _ => rfl

theorem raspikeWaitPortCmdChange_orderly (port waitCmd : Byte) :
    (raspikeWaitPortCmdChange port waitCmd).Keeps (rules bare shuts) H := by
  have hlow : Below H Mutex.fgStatus.rank := hH.mono (by decide)
  unfold raspikeWaitPortCmdChange
  split
  · rfl
  refine raspikeProtGetSavedStatus_orderly.bind fun status => ?_
  split
  · rfl
  refine lock_obeys hlow (Prog.Obeys.loopFrom fun _ => (load_orderly _).bind fun status => ?_)
  refine (readStatus_orderly _ _).bind fun cmd => ?_
  split
  · exact unlock_obeys hlow rfl
  refine (Prog.Obeys.condWait hlow.notMem hlow.takes).bind fun ret => (tick_orderly rfl).bind fun _ => ?_
  split
  · exact unlock_obeys hlow rfl
  split
  · exact unlock_obeys hlow rfl
  · rfl

theorem raspikePortComChangeIfNeeded_orderly (port waitCmd : Byte) :
    (raspikePortComChangeIfNeeded port waitCmd).Keeps (rules bare shuts) H := by
  have hlow : Below H Mutex.fgStatus.rank := hH.mono (by decide)
  unfold raspikePortComChangeIfNeeded
  split
  · rfl
  refine raspikeProtGetSavedStatus_orderly.bind fun status => ?_
  split
  · rfl
  refine lock_obeys hlow ((load_orderly _).bind fun status => (readStatus_orderly _ _).bind fun cmd => ?_)
  refine unlock_obeys hlow ?_
  split
  · rfl
  refine (raspikeProtSendPriority_orderly hH ..).bind fun sent => ?_
  split
  · rfl
  · exact raspikeWaitPortCmdChange_orderly hH ..

theorem getAndRetSensorCommon_orderly (pdev : Option Port) (index size : Nat) :
    (getAndRetSensorCommon pdev index size).Keeps (rules bare shuts) H := by
  cases pdev with
  | none => rfl
  | some i =>
    refine (load_orderly _).bind fun portId => ?_
    split
    · rfl
    refine raspikeProtGetSavedStatus_orderly.bind fun p => ?_
    split
    · rfl
    refine (load_orderly _).bind fun portId => ?_
    exact section_orderly (l := .fgStatus) (hH.mono (by decide)) (readStatus_orderly _ _) fun _ => rfl

theorem delayedSensorCommon_orderly (pdev : Option Port) (cmd : Byte) (size : Nat) :
    (delayedSensorCommon pdev cmd size).Keeps (rules bare shuts) H := by
  cases pdev with
  | none => rfl
  | some i =>
    refine (load_orderly _).bind fun portId => ?_
    split
    · rfl
    refine (load_orderly _).bind fun port => ?_
    refine (raspikePortComChangeIfNeeded_orderly hH _ _).bind fun changed => ?_
    split
    · rfl
    refine raspikeProtGetSavedStatus_orderly.bind fun p => ?_
    split
    · rfl
    · exact section_orderly (l := .fgStatus) (hH.mono (by decide)) (readStatus_orderly _ _) fun _ => rfl

end

theorem pupMotorResetCount_orderly (motor : Option Port) :
    (pupMotorResetCount motor).Keeps (rules bare shuts) ∅ := by
  have hlow : Below ∅ Mutex.fgStatus.rank := Below.empty _
  cases motor with
  | none => rfl
  | some i =>
    refine (load_orderly _).bind fun portId => ?_
    refine (raspikeRequest_orderly (Below.empty _) _ _ _ _).bind fun result => ?_
    split
    case isFalse => rfl
    refine raspikeProtGetSavedStatus_orderly.bind fun status => ?_
    split
    case isFalse => rfl
    refine lock_obeys hlow ((load_orderly _).bind fun portId => Prog.Obeys.bind ?_ fun _ =>
      unlock_obeys hlow rfl)
    exact statusWrite_orderly (Set.mem_insert _ _) status fun _ => _

/-! ## every call -/

theorem callBody_orderly {c : Call} (hi : ∀ desc, c = .init desc → ∀ x, bare x) (hs : c = .shutdown → shuts) :
    c.body.Keeps (rules bare shuts) ∅ := by
  have hret : ∀ {α : Type} {p : P α} {r : α → Ret}, p.Keeps (rules bare shuts) ∅ →
      (p >>= fun a => pure (r a)).Keeps (rules bare shuts) ∅ := fun h => h.bind fun _ => rfl
  have hnone := Below.empty 3
  cases c with
  | init desc => exact hret (raspikeProtInit_orderly (hi desc rfl) desc)
  | shutdown => exact hret (raspikeProtShutdown_orderly (hs rfl))
  | receive => exact hret raspikeProtReceive_orderly
  | send port cmd buf size => exact hret (raspikeProtSend_orderly hnone ..)
  | sendPriority port cmd buf size => exact hret (raspikeProtSendPriority_orderly hnone ..)
  | request port cmd data size => exact hret (raspikeRequest_orderly (Below.empty _) ..)
  | getDevice deviceType port => exact hret (getDeviceCommon_orderly deviceType port)
  | waitPortCmdChange port cmd => exact hret (raspikeWaitPortCmdChange_orderly hnone ..)
  | portComChangeIfNeeded port cmd => exact hret (raspikePortComChangeIfNeeded_orderly hnone ..)
  | readStatusSnapshot =>
    refine (readStatusSnapshot_orderly hnone).bind fun r => ?_
    cases r <;> rfl
  | sensor pdev index size => exact hret (getAndRetSensorCommon_orderly hnone ..)
  | delayedSensor pdev cmd size => exact hret (delayedSensorCommon_orderly hnone ..)
  | motorResetCount motor => exact hret (pupMotorResetCount_orderly motor)

theorem runCall_orderly {c : Call} (hi : ∀ desc, c = .init desc → ∀ x, bare x) (hs : c = .shutdown → shuts) :
    (runCall c).Keeps (rules bare shuts) ∅ := by
  refine (tick_orderly rfl).bind fun _ => (callBody_orderly hi hs).bind fun r => ?_
  exact Prog.Obeys.tick ⟨fun m x => .inl (x.same_refl m), fun _ _ _ _ => rfl⟩

theorem comBody_orderly (c : ComCall) : c.body.Keeps (rules bare shuts) ∅ := by
  have hnone := Below.empty 5
  cases c with
  | send desc buf => exact raspikeComSend_orderly hnone desc buf
  | flush desc => exact raspikeComFlush_orderly hnone desc
  | usbBufferFlush d =>
    refine Prog.Obeys.bind ?_ fun _ => rfl
    refine (tick_orderly rfl).bind fun _ => lock_obeys hnone ?_
    exact (flushBufferLocked_orderly d).bind fun _ => Prog.Obeys.unlocked (Set.notMem_empty _)
  | usbSetMode mode => exact (raspikeUsbSetMode_orderly hnone mode).bind fun _ => rfl

theorem op_orderly {o : Op} (hi : ∀ desc, o = .api (.init desc) → ∀ x, bare x)
    (hs : o = .api .shutdown → shuts) : o.run.Keeps (rules bare shuts) ∅ := by
  cases o with
  | api c =>
    exact runCall_orderly (fun desc h => hi desc (congrArg Op.api h)) fun h => hs (congrArg Op.api h)
  | com c =>
    exact (tick_orderly rfl).bind fun _ => (comBody_orderly c).bind fun r => tick_orderly rfl
  | openUsb d fd =>
    cases fd with
    | none => rfl
    | some fd =>
      refine Prog.Obeys.bind (Prog.Obeys.bind ?_ fun _ => rfl) fun _ => rfl
      exact store_orderly fun m x => x.same_setDesc ..

/-! ## the rest of the library -/

inductive LibCall where
  | op (o : Op)
  | motor (motor : Option Port) (o : MotorOp)
  | motorPower (motor : Option Port)
  | hub (h : HubCall)
  | linkStats (stats : Bool)
  | runtimeTelemetry (telemetry : Bool)

namespace LibCall

def run : LibCall → P Unit
  | op o => o.run
  | motor i o => do
    let _ ← o.run i
  | motorPower i => do
    let _ ← pupMotorGetPower i
  | hub h => do
    let _ ← h.body
  | linkStats stats => do
    let _ ← raspikeLinkGetStats stats
  | runtimeTelemetry telemetry => do
    let _ ← raspikeRuntimeGetTelemetry telemetry

/-- it sets the speed or the power of the motor of port `i`, for which it takes no mutex -/
def Sets (i : Port) (c : LibCall) : Prop :=
  (∃ power, c = .motor (some i) (.setPower power)) ∨ ∃ speed, c = .motor (some i) (.setSpeed speed)

end LibCall

theorem sendSetting_orderly (i : Port) (cmd : Byte) (value : Int) :
    (sendSetting i cmd value).Keeps (rules bare shuts) ∅ :=
  (load_orderly _).bind fun _ => (raspikeProtSend_orderly (Below.empty _) ..).bind fun _ => rfl

theorem motorRequest_orderly (cmd : Byte) (motor : Option Port) :
    (motorRequest cmd motor).Keeps (rules bare shuts) ∅ := by
  cases motor with
  | none => rfl
  | some i => exact (load_orderly _).bind fun _ => (raspikeRequest_orderly (Below.empty _) ..).bind fun _ => rfl

theorem motorOp_orderly (motor : Option Port) (o : MotorOp)
    (hb : ∀ i, (LibCall.motor motor o).Sets i → bare (.device i)) :
    (o.run motor).Keeps (rules bare shuts) ∅ := by
  have hwrite : ∀ {i}, bare (.device i) → ∀ f : PupDevice → PupDevice,
      (modify fun m => m.setPort i fun d => { d with device := f d.device } : P Unit).Keeps
        (rules bare shuts) ∅ := fun hi f => Prog.Obeys.modify (Access.device hi f)
  cases o with
  | setPower power =>
    cases motor with
    | none => rfl
    | some i =>
      have hi := hb i (.inl ⟨power, rfl⟩)
      refine (hwrite hi fun v => { v with cmd := rpCmdIdMotPow }).bind fun _ => ?_
      refine (hwrite hi fun v => { v with power := clampPower power }).bind fun _ => ?_
      exact sendSetting_orderly ..
  | setSpeed speed =>
    cases motor with
    | none => rfl
    | some i =>
      have hi := hb i (.inr ⟨speed, rfl⟩)
      refine (hwrite hi fun v => { v with cmd := rpCmdIdMotSpd }).bind fun _ => ?_
      exact sendSetting_orderly ..
  | stop => exact motorRequest_orderly ..
  | brake => exact motorRequest_orderly ..
  | hold => exact motorRequest_orderly ..

theorem pupMotorGetPower_orderly (motor : Option Port) :
    (pupMotorGetPower motor).Keeps (rules bare shuts) ∅ := by
  cases motor with
  | none => rfl
  | some i =>
    refine (load_orderly _).bind fun cmd => ?_
    split
    · exact load_orderly _
    · exact (getAndRetSensorCommon_orderly (Below.empty _) ..).bind fun _ => rfl

theorem sendHubCommand_orderly (command : Byte) (data : Buf) (size : Nat) :
    (sendHubCommand command data size).Keeps (rules bare shuts) ∅ := by
  unfold sendHubCommand
  split
  · rfl
  refine (raspikeProtSendPriority_orderly (Below.empty _) ..).bind fun result => ?_
  split
  · rfl
  split
  · rfl
  split <;> rfl

theorem hubText_orderly (command : Byte) (front : List Byte) (text : Buf) :
    (hubText command front text).Keeps (rules bare shuts) ∅ := by
  cases text with
  | none => rfl
  | some text =>
    unfold hubText
    dsimp only
    split
    · rfl
    · exact sendHubCommand_orderly ..

theorem hubCall_orderly (h : HubCall) : h.body.Keeps (rules bare shuts) ∅ := by
  cases h with
  | orientation up => exact sendHubCommand_orderly rpCmdIdHubDispOri (some [up]) 1
  | off => exact sendHubCommand_orderly rpCmdIdHubDispOff none 0
  | pixel row column brightness =>
    exact sendHubCommand_orderly rpCmdIdHubDispPix (some [row, column, brightness]) 3
  | image bits =>
    cases bits with
    | none => rfl
    | some bits => exact sendHubCommand_orderly rpCmdIdHubDispImg (some bits) 25
  | number num => exact sendHubCommand_orderly rpCmdIdHubDispNum (some [num]) 1
  | char c => exact sendHubCommand_orderly rpCmdIdHubDispChr (some [c]) 1
  | text s on off => exact hubText_orderly ..
  | textScroll s delay => exact hubText_orderly ..

theorem raspikeLinkGetStats_orderly (stats : Bool) :
    (raspikeLinkGetStats stats).Keeps (rules bare shuts) ∅ := by
  have hlow : Below ∅ Mutex.fgLinkStats.rank := Below.empty _
  unfold raspikeLinkGetStats
  split
  · rfl
  refine lock_obeys hlow ((load_orderly _).bind fun session => (load_orderly _).bind fun v2 => ?_)
  exact (load_orderly _).bind fun capabilities => (load_orderly _).bind fun counters => unlock_obeys hlow rfl

theorem raspikeRuntimeGetTelemetry_orderly (telemetry : Bool) :
    (raspikeRuntimeGetTelemetry telemetry).Keeps (rules bare shuts) ∅ := by
  unfold raspikeRuntimeGetTelemetry
  split
  · rfl
  · exact section_orderly (l := .fgRuntimeTelemetry) (Below.empty _) (load_orderly _) fun _ => rfl

theorem lib_orderly {c : LibCall} (hi : ∀ desc, c = .op (.api (.init desc)) → ∀ x, bare x)
    (hb : ∀ i, c.Sets i → bare (.device i)) (hs : c = .op (.api .shutdown) → shuts) :
    c.run.Keeps (rules bare shuts) ∅ := by
  cases c with
  | op o => exact op_orderly (fun desc h => hi desc (congrArg LibCall.op h)) fun h => hs (congrArg LibCall.op h)
  | motor i o => exact (motorOp_orderly i o hb).bind fun _ => rfl
  | motorPower i => exact (pupMotorGetPower_orderly i).bind fun _ => rfl
  | hub h => exact (hubCall_orderly h).bind fun _ => rfl
  | linkStats stats => exact (raspikeLinkGetStats_orderly stats).bind fun _ => rfl
  | runtimeTelemetry telemetry => exact (raspikeRuntimeGetTelemetry_orderly telemetry).bind fun _ => rfl

/-! ## every run -/

section
variable {T : Type} [DecidableEq T]

/-- threads that call the library -/
def startLib (m : Mem) (ops : T → List LibCall) : Sys T where
  mem := m
  own := fun _ => none
  trace := []
  thr := fun t => forEach (ops t) LibCall.run

/-- the globals that a thread may write without a mutex: all of them in a `raspike_prot_init`, and the
device of a port for a motor -/
def Bare (ops : T → List LibCall) (t : T) (x : Field) : Prop :=
  (∃ desc, .op (.api (.init desc)) ∈ ops t) ∨ ∃ i, x = .device i ∧ ∃ c ∈ ops t, c.Sets i

/-- the rules of a thread: those of its calls -/
def threadRules (ops : T → List LibCall) (t : T) : Discipline Mutex Event Mem :=
  rules (Bare ops t) (.op (.api .shutdown) ∈ ops t)

theorem orderly_lib {m : Mem} {ops : T → List LibCall} {c : Sys T} (hr : Reach (startLib m ops) c) :
    Orderly (threadRules ops) c := by
  refine Orderly.reach (Orderly.start (fun _ => rfl) fun t => ?_) hr
  refine Prog.Obeys.forEach fun o ho => lib_orderly (fun desc h x => ?_) (fun i hi => ?_) fun h => ?_
  · exact .inl ⟨desc, h ▸ ho⟩
  · exact .inr ⟨i, rfl, o, ho, hi⟩
  · exact h ▸ ho

theorem orderly {m : Mem} {calls : T → List Call} {c : Sys T} (hr : Reach (start m calls) c) :
    Orderly (fun t => rules (fun _ => ∃ desc, .init desc ∈ calls t) (.shutdown ∈ calls t)) c := by
  refine Orderly.reach (Orderly.start (fun _ => rfl) fun t => ?_) hr
  refine Prog.Obeys.forEach fun o ho => runCall_orderly (fun desc h x => ?_) fun h => ?_
  · exact ⟨desc, h ▸ ho⟩
  · exact h ▸ ho

end

end RaspikeArt
