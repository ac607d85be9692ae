import RaspikeArt.Model.Effects

/-!
# Functions that call others

`Passes F ks ls` says that sequences keep the property `F` of programs and that every program of
the kinds `ks` has it.  A function that calls the com layer, or sends, then has the property as soon
as these calls have it.

* `raspikeProtShutdown_passes`, `raspikeProtInit_passes`  the two ends of a connection;
* `body_passes`    every call of a client;
* `passes_keeps`   the property of giving the ghost of a thread back.
-/

namespace RaspikeArt
open Threads

variable {ks : Set Kind} {ls : Set Mutex}

/-! ## the shutdown -/

/-- the kinds of `raspike_prot_shutdown`, but for input and output -/
def shutdownKinds : Set Kind := {.quiet, .life, .reset, .dev, .status, .statusPtr, .v2, .sess}

def shutdownMutexes : Set Mutex :=
  {l | (∃ i, l = .port i) ∨ (∃ i, l = .device i) ∨ l = .fgLifecycle ∨ l = .fgSend ∨ l = .comSend ∨
    l = .fgStatus}

/-- those without the reset of the ports, the session and the protocol -/
def releaseKinds : Set Kind := {.quiet, .life, .status, .statusPtr}

def releaseMutexes : Set Mutex := {.fgLifecycle, .fgSend, .fgStatus}

theorem awaitReceivers_all (hq : Kind.quiet ∈ ks) (hm : Mutex.fgLifecycle ∈ ls) :
    Does ks ls awaitReceivers := by
  refine Does.loopFrom fun _ => (Does.load hq).bind fun active => ?_
  split
  · exact (Does.condWait hm).bind fun _ => Does.pure _
  · exact Does.pure _

theorem shutdownTake_all (hq : Kind.quiet ∈ ks) (hlife : Kind.life ∈ ks)
    (hm : Mutex.fgLifecycle ∈ ls) (hs : Mutex.fgSend ∈ ls) : Does ks ls shutdownTake := by
  refine (Does.lock hm).bind fun _ => (awaitReceivers_all hq hm).bind fun _ => ?_
  refine (Does.lock hs).bind fun _ => (Does.load hq).bind fun desc => Does.bind ?_ fun _ =>
    (Does.unlock hm).bind fun _ => Does.pure _
  exact Does.labelled .life hlife (fun _ => rfl) (fun m => ⟨_, _, _, rfl⟩) (fun _ => rfl)
    fun _ _ => rfl

theorem shutdownRelease_passes {F : ∀ α : Type, P α → Prop} (hF : Passes F ks ls)
    (hk : releaseKinds ⊆ ks) (hl : Mutex.fgStatus ∈ ls)
    (hv2 : F Unit (setUseV2 false)) (hsess : F Unit (setSession 0)) : F Unit shutdownRelease := by
  have hstatus : Kind.status ∈ ks := hk (by simp [releaseKinds])
  have hptr : Kind.statusPtr ∈ ks := hk (by simp [releaseKinds])
  have hlife : Kind.life ∈ ks := hk (by simp [releaseKinds])
  refine hF.bind (hF.does (Does.lock hl)) fun _ => hF.bind (hF.does (freeStatus_all hstatus)) fun _ => ?_
  refine hF.bind (hF.does ?_) fun _ => hF.bind (hF.does (Does.unlock hl)) fun _ => ?_
  · exact Does.modify .statusPtr hptr rfl fun m => ⟨⟨_, rfl⟩, fun _ => rfl⟩
  refine hF.bind (hF.does ?_) fun _ => hF.bind hv2 fun _ => hsess
  exact Does.modify .life hlife rfl fun m => ⟨⟨_, _, _, rfl⟩, fun _ => rfl⟩

/-- a shutdown around its reset of the ports -/
theorem raspikeProtShutdown_around {F : ∀ α : Type, P α → Prop} (hF : Passes F ks ls)
    (hk : releaseKinds ⊆ ks) (hl : releaseMutexes ⊆ ls)
    (hreset : F Unit (resetPortState (-ENOTCONN) true))
    (hflush : ∀ d, F Int (raspikeComFlush (some d))) (hv2 : F Unit (setUseV2 false))
    (hsess : F Unit (setSession 0)) : F Int raspikeProtShutdown := by
  have hq : Kind.quiet ∈ ks := hk (by simp [releaseKinds])
  have hlife : Kind.life ∈ ks := hk (by simp [releaseKinds])
  have hsend : Mutex.fgSend ∈ ls := hl (by simp [releaseMutexes])
  refine hF.bind (hF.does ?_) fun _ => hF.bind (hF.does ?_) fun desc => ?_
  · exact Does.labelled .life hlife (fun _ => rfl) (fun m => ⟨_, _, _, rfl⟩) (fun _ => rfl)
      fun _ _ => rfl
  · exact shutdownTake_all hq hlife (hl (by simp [releaseMutexes])) hsend
  refine hF.bind hreset fun _ => hF.bind ?_ fun _ => ?_
  · cases desc with
    | none => exact hF.pure _
    | some d =>
      refine hF.bind (hflush d) fun _ => hF.does (Does.bind ?_ fun _ => rpUsbClose_all hq d)
      exact Does.tick hlife rfl (fun m => ⟨_, _, _, rfl⟩) fun _ => rfl
  refine hF.bind (hF.does (Does.unlock hsend)) fun _ => ?_
  exact hF.bind (shutdownRelease_passes hF hk (hl (by simp [releaseMutexes])) hv2 hsess)
    fun _ => hF.pure _

theorem raspikeProtShutdown_passes {F : ∀ α : Type, P α → Prop} (hF : Passes F ks ls)
    (hk : ∀ k ∈ shutdownKinds, k ≠ .v2 → k ≠ .sess → k ∈ ks) (hl : shutdownMutexes ⊆ ls)
    (hflush : ∀ d, F Int (raspikeComFlush (some d))) (hv2 : F Unit (setUseV2 false))
    (hsess : F Unit (setSession 0)) : F Int raspikeProtShutdown := by
  have hq : Kind.quiet ∈ ks := hk _ (by simp [shutdownKinds]) nofun nofun
  have hreset : Kind.reset ∈ ks := hk _ (by simp [shutdownKinds]) nofun nofun
  have hdev : Kind.dev ∈ ks := hk _ (by simp [shutdownKinds]) nofun nofun
  refine raspikeProtShutdown_around hF ?_ ?_ (hF.does ?_) hflush hv2 hsess
  · rintro k (rfl | rfl | rfl | rfl) <;> exact hk _ (by simp [shutdownKinds]) (by simp) (by simp)
  · rintro l (rfl | rfl | rfl) <;> exact hl (by simp [shutdownMutexes])
  exact resetPortState_all hq hreset (fun i => hl (.inl ⟨i, rfl⟩)) _ true (fun _ => hdev)
    fun _ i => hl (.inr (.inl ⟨i, rfl⟩))

theorem raspikeProtShutdown_all (hk : shutdownKinds ⊆ ks) (hl : shutdownMutexes ⊆ ls)
    (hio : ∀ d, Kind.io d ∈ ks) : Does ks ls raspikeProtShutdown := by
  have hF : Passes (fun _ p => Does ks ls p) ks ls := ⟨Does.pure, Does.bind, id⟩
  refine raspikeProtShutdown_passes hF (fun k hmem _ _ => hk hmem) hl (fun d => ?_) ?_ ?_
  · exact raspikeComFlush_all (hk (by simp [shutdownKinds])) (fun d _ => hio d)
      (hl (by simp [shutdownMutexes]))
  · exact setUseV2_all (hk (by simp [shutdownKinds])) _
  · exact setSession_all (hk (by simp [shutdownKinds])) _

/-- a shutdown in a logic that looks at the session and the protocol -/
theorem raspikeProtShutdown_keeps {T : Type} [DecidableEq T] {𝓛 : Logic T Mutex CondVar Event Mem}
    {t : T} {g : 𝓛.G} (hN : 𝓛.Neutral (Acc ks) (· ∈ ls) t g)
    (hk : ∀ k ∈ shutdownKinds, k ≠ .v2 → k ≠ .sess → k ∈ ks) (hl : shutdownMutexes ⊆ ls)
    (hio : ∀ d, Kind.io d ∈ ks)
    (hv2 : wp 𝓛 t (setUseV2 false) (fun _ g' => g' = g) g)
    (hsess : wp 𝓛 t (setSession 0) (fun _ g' => g' = g) g) :
    wp 𝓛 t raspikeProtShutdown (fun _ g' => g' = g) g := by
  have hq : Kind.quiet ∈ ks := hk _ (by simp [shutdownKinds]) nofun nofun
  refine raspikeProtShutdown_passes (passes_keeps hN) hk hl (fun d => ?_) hv2 hsess
  exact wp_all hN (raspikeComFlush_all hq (fun d _ => hio d) (hl (by simp [shutdownMutexes])))
    fun _ => rfl

/-! ## the init -/

/-- the kinds of `raspike_prot_init`, but for sends, the session, the protocol and the ports -/
def initKinds : Set Kind
  | .quiet | .input _ | .life | .seq | .prot | .status | .statusPtr | .setup => True
  | _ => False

/-- those after the first sequence number is stored -/
def negotiateKinds : Set Kind
  | .quiet | .input _ | .life | .prot | .status | .statusPtr => True
  | _ => False

/-- those of the handshake -/
def linkKinds : Set Kind
  | .quiet | .input _ => True
  | _ => False

theorem linkKinds_negotiate : linkKinds ⊆ negotiateKinds := by
  intro k hk
  cases k with
  | quiet | input => exact hk
  | _ => exact hk.elim

theorem negotiateKinds_init : negotiateKinds ⊆ initKinds := by
  intro k hk
  cases k with
  | quiet | input | life | prot | status | statusPtr => exact hk
  | _ => exact hk.elim

def initMutexes : Set Mutex
  | .fgLifecycle | .comSend => True
  | _ => False

theorem initPortDevice_all (hs : Kind.setup ∈ ks) (i : Port) : Does ks ls (initPortDevice i) := by
  refine Does.modify .setup hs rfl fun m => ⟨⟨⟨(m.setPort i fun _ => .zero).gPortDevices, ?_⟩,
    _, _, _, _, rfl⟩, fun _ => rfl⟩
  intro j
  by_cases hj : j = i
  · subst hj
    simp [Mem.setPort, RPPortDevice.zero]
  · exact .inl (congrArg RPPortDevice.device (Function.update_of_ne hj ..))

theorem initPorts_all (hq : Kind.quiet ∈ ks) (hs : Kind.setup ∈ ks) (hreset : Kind.reset ∈ ks)
    (hdev : Kind.dev ∈ ks) (hl : ∀ i, Mutex.port i ∈ ls) (hd : ∀ i, Mutex.device i ∈ ls) :
    Does ks ls initPorts := by
  refine (Does.load hq).bind fun synchronized => ?_
  split
  · exact resetPortState_all hq hreset hl _ true (fun _ => hdev) fun _ => hd
  refine (Does.forEach fun i => initPortDevice_all hs i).bind fun _ => ?_
  exact Does.modify .setup hs rfl fun m =>
    ⟨⟨⟨m.gPortDevices, fun _ => .inl rfl⟩, _, _, _, _, rfl⟩, fun _ => rfl⟩

section
variable (hk : linkKinds ⊆ ks)
include hk

theorem comReceive_all (desc : Option Nat) (size : Nat) :
    Does ks ls (raspikeComReceiveTimeout desc size) := by
  have hq : Kind.quiet ∈ ks := hk trivial
  exact raspikeComReceiveTimeout_all hq (fun d _ => hk trivial) size

theorem scanForByte_all (target : Byte) : Does ks ls (scanForByte target) := by
  have hq : Kind.quiet ∈ ks := hk trivial
  have hlate : ∀ desc, Does ks ls (scanLate desc) := fun desc => by
    cases desc with
    | none => exact Does.pure _
    | some d => exact clockLate_all hq d .rx
  refine Does.loopFrom fun _ => (Does.load hq).bind fun desc => ?_
  refine (comReceive_all hk desc 1).bind fun r => ?_
  cases r with
  | ok byte =>
    dsimp only
    split
    · exact Does.pure _
    refine (hlate desc).bind fun late => ?_
    split <;> exact Does.pure _
  | error e =>
    dsimp only
    split
    · exact Does.pure _
    refine (hlate desc).bind fun late => ?_
    split <;> exact Does.pure _

variable {F : ∀ α : Type, P α → Prop} (hF : Passes F ks ls)
variable (hsend : ∀ desc buf, F Int (raspikeComSend desc buf))
variable (hflush : ∀ desc, F Int (raspikeComFlush desc))
include hF hsend hflush

theorem performHandshakeOnce_passes : F Int performHandshakeOnce := by
  have hq : Kind.quiet ∈ ks := hk trivial
  have hdesc : F (Option Nat) (load fun m => m.fgDesc) := hF.does (Does.load hq)
  refine hF.bind hdesc fun desc => hF.bind (hsend _ _) fun sent => ?_
  split
  · exact hF.pure _
  refine hF.bind hdesc fun desc => hF.bind (hflush _) fun flushResult => ?_
  split
  · exact hF.pure _
  refine hF.bind (hF.does (scanForByte_all hk _)) fun found => ?_
  split
  · exact hF.pure _
  refine hF.bind hdesc fun desc => hF.bind (hF.does (comReceive_all hk desc 1)) fun r => ?_
  cases r with
  | error e => exact hF.pure _
  | ok magic =>
    refine hF.bind (hF.pure _) fun magic => ?_
    split
    · exact hF.pure _
    refine hF.bind hdesc fun desc => hF.bind (hF.does (comReceive_all hk desc 3)) fun r => ?_
    cases r with
    | error e => exact hF.pure _
    | ok version =>
      have hset : ∀ f : Mem → Mem, (∀ m, ∃ x y z, f m =
          { m with fgVersionMajor := x, fgVersionMinor := y, fgVersionPatch := z }) →
          F Unit (modify f) := fun f hf => by
        refine hF.does (Does.modify .quiet hq rfl fun m => ?_)
        obtain ⟨x, y, z, h⟩ := hf m
        rw [h]
        exact ⟨⟨m.com, m.fgLinkStats, x, y, z, rfl, rfl⟩, fun _ => rfl⟩
      refine hF.bind (hF.pure _) fun version => ?_
      refine hF.bind (hset _ fun m => ⟨_, _, _, rfl⟩) fun _ => ?_
      refine hF.bind (hset _ fun m => ⟨_, _, _, rfl⟩) fun _ => ?_
      exact hF.bind (hset _ fun m => ⟨_, _, _, rfl⟩) fun _ => hF.pure _

theorem handshakeAttempts_passes (n : Nat) (result : Int) : F Int (handshakeAttempts n result) := by
  have hq : Kind.quiet ∈ ks := hk trivial
  induction n generalizing result with
  | zero => exact hF.pure _
  | succ n ih =>
    refine hF.bind (hF.does (Does.load hq)) fun desc => ?_
    refine hF.bind (hF.does (raspikeComDiscardInput_all hq desc)) fun _ => ?_
    refine hF.bind (performHandshakeOnce_passes hk hF hsend hflush) fun result => ?_
    split
    · exact hF.pure _
    · exact ih _

end

section
variable (hk : negotiateKinds ⊆ ks) (hl : initMutexes ⊆ ls)
include hk hl

theorem clearDesc_all : Does ks ls clearDesc := by
  have hlife : Kind.life ∈ ks := hk trivial
  have hm : Mutex.fgLifecycle ∈ ls := hl trivial
  refine (Does.lock hm).bind fun _ => Does.bind ?_ fun _ => Does.unlock hm
  exact Does.modify .life hlife rfl fun m => ⟨⟨_, _, _, rfl⟩, fun _ => rfl⟩

theorem initFailed_all (error : Int) : Does ks ls (initFailed error) := by
  have hstatus : Kind.status ∈ ks := hk trivial
  have hptr : Kind.statusPtr ∈ ks := hk trivial
  refine (freeStatus_all hstatus).bind fun _ => Does.bind ?_ fun _ => ?_
  · exact Does.modify .statusPtr hptr rfl fun m => ⟨⟨_, rfl⟩, fun _ => rfl⟩
  · exact (clearDesc_all hk hl).bind fun _ => Does.pure _

omit hk hl in
theorem callocStatus_all (hsetup : Kind.setup ∈ ks) : Does ks ls callocStatus := by
  refine Does.act fun m => ⟨.setup, hsetup, Kind.Step.of_none rfl ?_ fun _ => ?_⟩
  · have hsame : ∀ i, (m.gPortDevices i).device = (m.gPortDevices i).device ∨
        (m.gPortDevices i).device = .zero := fun _ => .inl rfl
    split <;> exact ⟨⟨m.gPortDevices, hsame⟩, _, _, _, _, rfl⟩
  · split <;> rfl

variable {F : ∀ α : Type, P α → Prop} (hF : Passes F ks ls)
variable (hsend : ∀ desc buf, F Int (raspikeComSend desc buf))
variable (hflush : ∀ desc, F Int (raspikeComFlush desc))
include hF hsend hflush

omit hl hsend hflush in
theorem receiveLegacyHello_passes (hv2 : ∀ b, F Unit (setUseV2 b))
    (hsess : ∀ s, F Unit (setSession s)) : F Int receiveLegacyHello := by
  have hlink := linkKinds_negotiate.trans hk
  have hq : Kind.quiet ∈ ks := hk trivial
  have hprot : Kind.prot ∈ ks := hk trivial
  have hdesc : F (Option Nat) (load fun m => m.fgDesc) := hF.does (Does.load hq)
  refine hF.bind (hF.does (scanForByte_all hlink _)) fun found => ?_
  split
  · exact hF.pure _
  refine hF.bind hdesc fun desc => hF.bind (hF.does (comReceive_all hlink desc 3)) fun r => ?_
  cases r with
  | error e => exact hF.pure _
  | ok header =>
  refine hF.bind (hF.pure _) fun header => ?_
  dsimp only
  split
  · exact hF.pure _
  refine hF.bind hdesc fun desc => hF.bind (hF.does (comReceive_all hlink desc _)) fun r => ?_
  cases r with
  | error e => exact hF.pure _
  | ok payload =>
  refine hF.bind (hF.pure _) fun payload => ?_
  split
  · exact hF.pure _
  refine hF.bind (hF.does (setCapabilities_all hprot _)) fun _ => hF.bind (hsess _) fun _ => ?_
  refine hF.bind (hF.does ?_) fun refused => ?_
  · exact Does.orElse (Does.load hq) (Does.orElse (Does.load hq) (Does.pure _))
  split
  · exact hF.pure _
  · exact hF.bind (hv2 true) fun _ => hF.pure _

theorem initNegotiate_passes (hv2 : ∀ b, F Unit (setUseV2 b)) (hsess : ∀ s, F Unit (setSession s)) :
    F Int initNegotiate := by
  have hq : Kind.quiet ∈ ks := hk trivial
  have hlife : Kind.life ∈ ks := hk trivial
  refine hF.bind (handshakeAttempts_passes (linkKinds_negotiate.trans hk) hF hsend hflush _ _) fun ret => ?_
  split
  · exact hF.does (initFailed_all hk hl _)
  refine hF.bind (hF.does (Does.load hq)) fun supported => ?_
  split
  · exact hF.does (initFailed_all hk hl _)
  refine hF.bind (receiveLegacyHello_passes hk hF hv2 hsess) fun ret => ?_
  split
  · exact hF.does (initFailed_all hk hl _)
  refine hF.bind (hF.does ?_) fun _ => hF.bind (hF.does ?_) fun _ => hF.pure _
  · exact Does.modify .life hlife rfl fun m => ⟨⟨_, _, _, rfl⟩, fun _ => rfl⟩
  · exact raspikeUsbSetMode_all hq (hl trivial) _

end

/-- an init around its setup of the saved status and of the ports -/
theorem raspikeProtInit_around {F : ∀ α : Type, P α → Prop} (hneg : negotiateKinds ⊆ ks) (hseq : Kind.seq ∈ ks)
    (hl : initMutexes ⊆ ls) (hF : Passes F ks ls) (hcalloc : F _ callocStatus)
    (hsend : ∀ desc buf, F Int (raspikeComSend desc buf))
    (hflush : ∀ desc, F Int (raspikeComFlush desc)) (hports : F Unit initPorts)
    (hv2 : ∀ b, F Unit (setUseV2 b)) (hsess : ∀ s, F Unit (setSession s))
    (hrecv : F Unit (modify fun m => { m with fgActiveReceivers := 0 })) (desc : Option Nat) :
    F Int (raspikeProtInit desc) := by
  have hq : Kind.quiet ∈ ks := hneg trivial
  have hlife : Kind.life ∈ ks := hneg trivial
  have hprot : Kind.prot ∈ ks := hneg trivial
  have hm : Mutex.fgLifecycle ∈ ls := hl trivial
  have hset : ∀ f : Mem → Mem, (∀ m, Kind.life.Touches m (f m)) → (∀ m d, (f m).wire d = m.wire d) →
      F Unit (modify f) := fun f hf hw =>
    hF.does (Does.modify .life hlife rfl fun m => ⟨hf m, hw m⟩)
  unfold raspikeProtInit
  split
  · exact hF.pure _
  refine hF.bind (hF.does (Does.lock hm)) fun _ => hF.bind (hF.does (Does.load hq)) fun busy => ?_
  split
  · exact hF.bind (hF.does (Does.unlock hm)) fun _ => hF.pure _
  refine hF.bind (hset _ (fun m => ⟨_, _, _, rfl⟩) fun _ _ => rfl) fun _ => ?_
  refine hF.bind (hset _ (fun m => ⟨_, _, _, rfl⟩) fun _ _ => rfl) fun _ => ?_
  refine hF.bind (hset _ (fun m => ⟨_, _, _, rfl⟩) fun _ _ => rfl) fun _ => ?_
  refine hF.bind (hv2 false) fun _ => hF.bind (hsess 0) fun _ => ?_
  refine hF.bind (hF.does (setCapabilities_all hprot 0)) fun _ => hF.bind hrecv fun _ => ?_
  refine hF.bind (hF.does (Does.unlock hm)) fun _ => hF.bind (hF.does ?_) fun _ => ?_
  · exact Does.modify .seq hseq rfl fun m => ⟨⟨_, rfl⟩, fun _ => rfl⟩
  refine hF.bind (hF.does ?_) fun _ => hF.bind (hF.does (setRuntimeTelemetry_all hprot _)) fun _ => ?_
  · exact Does.modify .quiet hq rfl fun m => ⟨⟨m.com, _, _, _, _, rfl, rfl⟩, fun _ => rfl⟩
  refine hF.bind hcalloc fun status => ?_
  split
  · exact hF.bind (hF.does (clearDesc_all hneg hl)) fun _ => hF.pure _
  refine hF.bind hports fun _ => ?_
  exact initNegotiate_passes hneg hl hF hsend hflush hv2 hsess

theorem raspikeProtInit_passes {F : ∀ α : Type, P α → Prop} (hk : initKinds ⊆ ks)
    (hl : initMutexes ⊆ ls) (hF : Passes F ks ls)
    (hsend : ∀ desc buf, F Int (raspikeComSend desc buf))
    (hflush : ∀ desc, F Int (raspikeComFlush desc)) (hports : F Unit initPorts)
    (hv2 : ∀ b, F Unit (setUseV2 b)) (hsess : ∀ s, F Unit (setSession s))
    (hrecv : F Unit (modify fun m => { m with fgActiveReceivers := 0 })) (desc : Option Nat) :
    F Int (raspikeProtInit desc) :=
  raspikeProtInit_around (negotiateKinds_init.trans hk) (hk trivial) hl hF
    (hF.does (callocStatus_all (hk trivial))) hsend hflush hports hv2 hsess hrecv desc

/-! ## devices -/

theorem readStatus_all (hs : Kind.status ∈ ks) (p : Option Nat) (f : SpikeStatus → α) :
    Does ks ls (readStatus p f) := statusUse_all hs

section
variable (hq : Kind.quiet ∈ ks) (hs : Kind.status ∈ ks) (hl : Mutex.fgStatus ∈ ls)
include hq hs hl

theorem raspikeWaitPortCmdChange_all (port waitCmd : Byte) :
    Does ks ls (raspikeWaitPortCmdChange port waitCmd) := by
  unfold raspikeWaitPortCmdChange
  split
  · exact Does.pure _
  refine (statusFetch_all hs).bind fun status => ?_
  split
  · exact Does.pure _
  refine (Does.lock hl).bind fun _ => Does.loopFrom fun _ => (Does.load hq).bind fun status => ?_
  refine (readStatus_all hs status _).bind fun cmd => ?_
  split
  · exact (Does.unlock hl).bind fun _ => Does.pure _
  refine (Does.condWait hl).bind fun ret => Does.bind ?_ fun _ => ?_
  · exact Does.labelled .status hs (fun _ => rfl) (fun m => ⟨m.heap, rfl⟩) (fun _ => rfl)
      fun _ _ => rfl
  split
  · exact (Does.unlock hl).bind fun _ => Does.pure _
  split
  · exact (Does.unlock hl).bind fun _ => Does.pure _
  · exact Does.pure _

end

/-! ## functions built on a send or a request -/

/-- the kinds of the device functions, but for the sends and requests they make -/
def deviceKinds : Set Kind := {.quiet, .status, .dev, .config}

def deviceMutexes : Set Mutex := {l | l = .fgStatus ∨ ∃ i, l = .device i}

/-- the kinds of those that look at the saved status only -/
def getterKinds : Set Kind := {.quiet, .status}

/-- the payload that a caller hands over for a port satisfies `ok` -/
def Call.Pays (ok : Byte → Buf → Int → Prop) : Call → Prop
  | .send port _ buf size | .sendPriority port _ buf size | .request port _ buf size => ok port buf size
  | _ => True

/-- the configuration of a port around what it records -/
theorem getDeviceCommon_around {F : ∀ α : Type, P α → Prop} (hF : Passes F {.quiet, .config} deviceMutexes)
    (hreq : ∀ port cmd, F Int (raspikeRequest port cmd none 0)) (fgDeviceType port : Byte)
    (htype : ∀ i, F Unit (modify fun m => m.setPort i fun d =>
      { d with device := { d.device with deviceType := fgDeviceType } }))
    (hport : ∀ i, getDevice (port - 65) = some i → F Unit (modify fun m => m.setPort i fun d =>
      { d with device := { d.device with portId := port - 65 } })) :
    F _ (getDeviceCommon fgDeviceType port) := by
  have hq : Kind.quiet ∈ ({.quiet, .config} : Set Kind) := .inl rfl
  have hc : Kind.config ∈ ({.quiet, .config} : Set Kind) := .inr rfl
  unfold getDeviceCommon
  dsimp only
  split
  · exact hF.pure _
  split
  case h_2 => exact hF.pure _
  case h_1 i hi =>
  have hl : Mutex.device i ∈ deviceMutexes := .inr ⟨i, rfl⟩
  have hmark : ∀ e : Event, e.kind = .config → F Unit (tick e) := fun e he => by
    refine hF.does (Does.tick hc he (fun _ => rfl) fun d => ?_)
    cases e <;> first | rfl | cases he
  refine hF.bind (hF.does (Does.lock hl)) fun _ => ?_
  refine hF.bind (hF.does (Does.load hq)) fun current => ?_
  split
  · exact hF.bind (hF.does (Does.unlock hl)) fun _ => hF.pure _
  split
  · exact hF.bind (hF.does (Does.unlock hl)) fun _ => hF.pure _
  refine hF.bind (hmark _ rfl) fun _ => hF.bind (hreq _ _) fun configResult => ?_
  split
  · refine hF.bind (hmark _ rfl) fun _ => ?_
    exact hF.bind (hF.does (Does.unlock hl)) fun _ => hF.pure _
  refine hF.bind (htype i) fun _ => hF.bind (hport i hi) fun _ => ?_
  refine hF.bind (hmark _ rfl) fun _ => ?_
  exact hF.bind (hF.does (Does.unlock hl)) fun _ => hF.pure _

section
variable {F : ∀ α : Type, P α → Prop} (hF : Passes F deviceKinds deviceMutexes)
include hF

theorem getDeviceCommon_passes (hreq : ∀ port cmd, F Int (raspikeRequest port cmd none 0))
    (fgDeviceType port : Byte) : F _ (getDeviceCommon fgDeviceType port) := by
  have hset : ∀ i (f : PupDevice → PupDevice),
      F Unit (modify fun m => m.setPort i fun d => { d with device := f d.device }) := fun i f =>
    hF.does (Does.modify .dev (by simp [deviceKinds]) rfl fun m => ⟨⟨i, f, rfl⟩, fun _ => rfl⟩)
  refine getDeviceCommon_around (hF.mono ?_ subset_rfl) hreq fgDeviceType port
    (fun i => hset i fun v => { v with deviceType := fgDeviceType })
    fun i _ => hset i fun v => { v with portId := port - 65 }
  simp [deviceKinds, Set.subset_def]

end

/-- a property of programs that looking at the saved status has, and waiting for a `cmd` -/
structure Looks (F : ∀ α : Type, P α → Prop) : Prop where
  passes : Passes F {.quiet} {.fgStatus}
  fetch : F _ raspikeProtGetSavedStatus
  read : ∀ {α : Type} (p : Option Nat) (f : SpikeStatus → α), F α (readStatus p f)
  wait : ∀ port waitCmd, F Int (raspikeWaitPortCmdChange port waitCmd)

theorem Passes.looks {F : ∀ α : Type, P α → Prop} (hF : Passes F getterKinds {.fgStatus}) : Looks F where
  passes := hF.mono (by simp [getterKinds]) subset_rfl
  fetch := hF.does (statusFetch_all (by simp [getterKinds]))
  read p f := hF.does (readStatus_all (by simp [getterKinds]) p f)
  wait port waitCmd := by
    have hq : Kind.quiet ∈ getterKinds := by simp [getterKinds]
    have hs : Kind.status ∈ getterKinds := by simp [getterKinds]
    exact hF.does (raspikeWaitPortCmdChange_all hq hs (Set.mem_singleton _) port waitCmd)

section
variable {F : ∀ α : Type, P α → Prop} (hF : Looks F)
include hF

theorem Looks.load {α : Type} (f : Mem → α) : F α (Threads.load f) := hF.passes.does (Does.load rfl)

theorem Looks.lock : F Unit (Threads.lock Mutex.fgStatus) := hF.passes.does (Does.lock rfl)

theorem Looks.unlock : F Unit (Threads.unlock Mutex.fgStatus) := hF.passes.does (Does.unlock rfl)

theorem readStatusSnapshot_passes : F _ RaspikeArt.readStatusSnapshot := by
  refine hF.passes.bind hF.fetch fun status => ?_
  split
  · exact hF.passes.pure _
  refine hF.passes.bind hF.lock fun _ => hF.passes.bind (hF.read status id) fun snapshot => ?_
  exact hF.passes.bind hF.unlock fun _ => hF.passes.pure _

theorem getAndRetSensorCommon_passes (pdev : Option Port) (index size : Nat) :
    F _ (getAndRetSensorCommon pdev index size) := by
  cases pdev with
  | none => exact hF.passes.pure _
  | some i =>
    refine hF.passes.bind (hF.load _) fun portId => ?_
    split
    · exact hF.passes.pure _
    refine hF.passes.bind hF.fetch fun p => ?_
    split
    · exact hF.passes.pure _
    refine hF.passes.bind (hF.load _) fun portId => hF.passes.bind hF.lock fun _ => ?_
    refine hF.passes.bind (hF.read p _) fun value => ?_
    exact hF.passes.bind hF.unlock fun _ => hF.passes.pure _

theorem raspikePortComChangeIfNeeded_passes
    (hsend : ∀ port cmd, F Int (raspikeProtSendPriority port cmd none 0))
    (port waitCmd : Byte) : F _ (raspikePortComChangeIfNeeded port waitCmd) := by
  unfold raspikePortComChangeIfNeeded
  split
  · exact hF.passes.pure _
  refine hF.passes.bind hF.fetch fun status => ?_
  split
  · exact hF.passes.pure _
  refine hF.passes.bind hF.lock fun _ => hF.passes.bind (hF.load _) fun status => ?_
  refine hF.passes.bind (hF.read status _) fun cmd => hF.passes.bind hF.unlock fun _ => ?_
  split
  · exact hF.passes.pure _
  refine hF.passes.bind (hsend _ _) fun sent => ?_
  split
  · exact hF.passes.pure _
  · exact hF.wait _ _

theorem delayedSensorCommon_passes
    (hsend : ∀ port cmd, F Int (raspikeProtSendPriority port cmd none 0))
    (pdev : Option Port) (cmd : Byte) (size : Nat) : F _ (delayedSensorCommon pdev cmd size) := by
  cases pdev with
  | none => exact hF.passes.pure _
  | some i =>
    refine hF.passes.bind (hF.load _) fun portId => ?_
    split
    · exact hF.passes.pure _
    refine hF.passes.bind (hF.load _) fun port => ?_
    refine hF.passes.bind (raspikePortComChangeIfNeeded_passes hF hsend _ _) fun changed => ?_
    split
    · exact hF.passes.pure _
    refine hF.passes.bind hF.fetch fun p => ?_
    split
    · exact hF.passes.pure _
    refine hF.passes.bind hF.lock fun _ => hF.passes.bind (hF.read p _) fun value => ?_
    exact hF.passes.bind hF.unlock fun _ => hF.passes.pure _

/-- every call but those that connect, disconnect and receive, around the configuration of a port and
the reset of a count -/
theorem calls_looking (ok : Byte → Buf → Int → Prop) (hnone : ∀ port, ok port none 0)
    (hsend : ∀ port cmd buf size, ok port buf size → F Int (raspikeProtSend port cmd buf size))
    (hprio : ∀ port cmd buf size, ok port buf size → F Int (raspikeProtSendPriority port cmd buf size))
    (hreq : ∀ port cmd data size, ok port data size → F Int (raspikeRequest port cmd data size))
    {c : Call} (hget : ∀ deviceType port, c = .getDevice deviceType port →
      F _ (getDeviceCommon deviceType port))
    (hreset : ∀ motor, c = .motorResetCount motor → F _ (pupMotorResetCount motor))
    (hc : c.isClient) (hok : c.Pays ok) : F _ c.body := by
  have hprio₀ : ∀ port cmd, F Int (raspikeProtSendPriority port cmd none 0) := fun port cmd =>
    hprio _ _ _ _ (hnone _)
  have hret : ∀ {α : Type} {p : P α} {r : α → Ret}, F α p → F Ret (p >>= fun a => pure (r a)) := fun h =>
    hF.passes.bind h fun _ => hF.passes.pure _
  cases c with
  | init | shutdown | receive => cases hc
  | send port cmd buf size => exact hret (hsend port cmd buf size hok)
  | sendPriority port cmd buf size => exact hret (hprio port cmd buf size hok)
  | request port cmd data size => exact hret (hreq port cmd data size hok)
  | getDevice deviceType port => exact hret (hget deviceType port rfl)
  | waitPortCmdChange port cmd => exact hret (hF.wait port cmd)
  | portComChangeIfNeeded port cmd => exact hret (raspikePortComChangeIfNeeded_passes hF hprio₀ port cmd)
  | readStatusSnapshot =>
    refine hF.passes.bind (readStatusSnapshot_passes hF) fun r => ?_
    cases r <;> exact hF.passes.pure _
  | sensor pdev index size => exact hret (getAndRetSensorCommon_passes hF pdev index size)
  | delayedSensor pdev cmd size => exact hret (delayedSensorCommon_passes hF hprio₀ pdev cmd size)
  | motorResetCount motor => exact hret (hreset motor rfl)

end

section
variable {F : ∀ α : Type, P α → Prop} (hF : Passes F getterKinds {.fgStatus})
include hF

theorem pupMotorResetCount_passes (hreq : ∀ port cmd, F Int (raspikeRequest port cmd none 0))
    (motor : Option Port) : F _ (pupMotorResetCount motor) := by
  have hlook := hF.looks
  cases motor with
  | none => exact hF.pure _
  | some i =>
    refine hF.bind (hlook.load _) fun portId => hF.bind (hreq _ _) fun result => ?_
    split
    case isFalse => exact hF.pure _
    refine hF.bind hlook.fetch fun status => ?_
    split
    case isFalse => exact hF.pure _
    refine hF.bind hlook.lock fun _ => hF.bind (hlook.load _) fun portId => ?_
    refine hF.bind (hF.does (statusWrite_all (by simp [getterKinds]) status fun _ => _)) fun _ => ?_
    exact hF.bind hlook.unlock fun _ => hF.pure _

/-- every call but those that connect, disconnect and receive, around the configuration of a port -/
theorem calls_around (ok : Byte → Buf → Int → Prop) (hnone : ∀ port, ok port none 0)
    (hsend : ∀ port cmd buf size, ok port buf size → F Int (raspikeProtSend port cmd buf size))
    (hprio : ∀ port cmd buf size, ok port buf size → F Int (raspikeProtSendPriority port cmd buf size))
    (hreq : ∀ port cmd data size, ok port data size → F Int (raspikeRequest port cmd data size))
    {c : Call} (hget : ∀ deviceType port, c = .getDevice deviceType port →
      F _ (getDeviceCommon deviceType port))
    (hc : c.isClient) (hok : c.Pays ok) : F _ c.body :=
  calls_looking hF.looks ok hnone hsend hprio hreq hget
    (fun motor _ => pupMotorResetCount_passes hF (fun port _ => hreq _ _ _ _ (hnone port)) motor) hc hok

end

section
variable {F : ∀ α : Type, P α → Prop} (hF : Passes F deviceKinds deviceMutexes)
include hF

/-- every call but those that connect, disconnect and receive, with payloads that satisfy `ok` -/
theorem payload_passes (ok : Byte → Buf → Int → Prop) (hnone : ∀ port, ok port none 0)
    (hsend : ∀ port cmd buf size, ok port buf size → F Int (raspikeProtSend port cmd buf size))
    (hprio : ∀ port cmd buf size, ok port buf size → F Int (raspikeProtSendPriority port cmd buf size))
    (hreq : ∀ port cmd data size, ok port data size → F Int (raspikeRequest port cmd data size))
    {c : Call} (hc : c.isClient) (hok : c.Pays ok) : F _ c.body := by
  refine calls_around (hF.mono ?_ ?_) ok hnone hsend hprio hreq (fun deviceType port _ => ?_) hc hok
  · simp [getterKinds, deviceKinds, Set.subset_def]
  · simp [deviceMutexes]
  · exact getDeviceCommon_passes hF (fun port cmd => hreq _ _ _ _ (hnone _)) deviceType port

/-- every call but those that connect, disconnect and receive -/
theorem body_passes
    (hsend : ∀ port cmd buf size, F Int (raspikeProtSend port cmd buf size))
    (hprio : ∀ port cmd buf size, F Int (raspikeProtSendPriority port cmd buf size))
    (hreq : ∀ port cmd data size, F Int (raspikeRequest port cmd data size))
    {c : Call} (hc : c.isClient) : F _ c.body := by
  have hok : c.Pays fun _ _ _ => True := by cases c <;> trivial
  exact payload_passes hF (fun _ _ _ => True) (fun _ => trivial) (fun port cmd buf size _ => hsend port cmd buf size)
    (fun port cmd buf size _ => hprio port cmd buf size)
    (fun port cmd data size _ => hreq port cmd data size) hc hok

end

section
variable {T : Type} [DecidableEq T] {𝓛 : Logic T Mutex CondVar Event Mem} {t : T} {g : 𝓛.G}

theorem body_keeps (hN : 𝓛.Neutral (Acc deviceKinds) (· ∈ deviceMutexes) t g)
    (hsend : ∀ port cmd buf size, wp 𝓛 t (raspikeProtSend port cmd buf size) (fun _ g' => g' = g) g)
    (hprio : ∀ port cmd buf size,
      wp 𝓛 t (raspikeProtSendPriority port cmd buf size) (fun _ g' => g' = g) g)
    (hreq : ∀ port cmd data size, wp 𝓛 t (raspikeRequest port cmd data size) (fun _ g' => g' = g) g)
    {c : Call} (hc : c.isClient) : wp 𝓛 t c.body (fun _ g' => g' = g) g :=
  body_passes (passes_keeps hN) hsend hprio hreq hc

end

/-- a thread of which every call has the property -/
theorem client_passes {F : ∀ α : Type, P α → Prop} (hF : Passes F {.call} ∅) {calls : List Call}
    (hbody : ∀ c ∈ calls, F Ret c.body) : F Unit (client calls) := by
  have hmark : ∀ e : Event, e.kind = .call → F Unit (tick e) := by
    intro e he
    apply hF.does
    refine Does.tick (k := .call) rfl he (fun _ => rfl) fun d => ?_
    cases e <;> first
      | rfl
      | cases he
  induction calls with
  | nil => exact hF.pure _
  | cons c calls ih =>
    refine hF.bind ?_ fun _ => ih fun c' h' => hbody c' (List.mem_cons_of_mem _ h')
    exact hF.bind (hmark _ rfl) fun _ => hF.bind (hbody c List.mem_cons_self) fun r => hmark _ rfl

/-- a thread whose calls all give the ghost back -/
theorem client_keeps {T : Type} [DecidableEq T] {𝓛 : Logic T Mutex CondVar Event Mem} {t : T}
    {g : 𝓛.G} (hN : 𝓛.Neutral (Acc {.call}) (· ∈ (∅ : Set Mutex)) t g) (calls : List Call)
    (hbody : ∀ c ∈ calls, wp 𝓛 t c.body (fun _ g' => g' = g) g) :
    wp 𝓛 t (client calls) (fun _ g' => g' = g) g :=
  client_passes (passes_keeps hN) hbody

end RaspikeArt
