import RaspikeArt.Model.Passes

/-!
# The accesses of a whole call

* `requestOutcome_yields`  which branch of the final section gives the result;
* `body_all`          every call but `raspike_prot_init` and `raspike_prot_shutdown`, by the kinds
                      of its accesses;
* `body_around`         every call, around what it does to the ports, the session and the protocol;
* `reach_all`         the programs of a reachable configuration still have those accesses;
* `step_access`       what one step of such a program does;
* `connected_labels`  the labels of a run in which nobody connects or disconnects.
-/

set_option linter.unusedSectionVars false

namespace RaspikeArt
open Threads

variable {ks : Set Kind} {ls : Set Mutex} {T : Type} [DecidableEq T]

/-! ## the final section of a request -/

/-- a branch that an ACK or a cancellation takes -/
def Branch.isAnswer : Branch → Bool
  | .cancelled | .acked => true
  | .timedOut | .failed => false

/-- the result is the number that the port shows for a cancellation or for the command, or the result
code so far -/
theorem requestOutcome_yields (cmd : Byte) (sequence : U32) (result : Int) (completed : Bool)
    (d : RPPortDevice) : (requestOutcome cmd sequence result completed d).Yields fun o =>
      (o.1.isAnswer = true ∧ completed = true ∧ o.2 = d.ackData ∧ (d.ackCmd = -1 ∨ d.ackCmd = cmd.toNat)) ∨
      (o.1.isAnswer = false ∧ o.2 = result) := by
  unfold requestOutcome
  split
  case isTrue h =>
    rw [Bool.and_eq_true, beq_iff_eq] at h
    exact .inl ⟨rfl, h.1, rfl, .inl h.2⟩
  case isFalse =>
  apply Prog.Yields.bind (R := fun acked => acked = true → completed = true ∧ d.ackCmd = cmd.toNat)
  · split
    case isTrue h =>
      rw [Bool.and_eq_true, beq_iff_eq] at h
      exact Prog.Yields.trivial.mono fun _ _ _ => h
    case isFalse => exact nofun
  intro acked hacked
  split
  case isTrue h =>
    obtain ⟨hcompleted, hcmd⟩ := hacked h
    exact .inl ⟨rfl, hcompleted, rfl, .inr hcmd⟩
  case isFalse =>
  split
  · apply Prog.Yields.bind Prog.Yields.trivial
    exact fun _ _ => .inr ⟨rfl, rfl⟩
  · exact .inr ⟨rfl, rfl⟩

/-! ## the calls -/

theorem body_all (hreq : requestKinds ⊆ ks) (hrl : requestMutexes ⊆ ls)
    (hdev : deviceKinds ⊆ ks) (hdl : deviceMutexes ⊆ ls) (hcom : commandKinds ⊆ ks) (hcl : commandMutexes ⊆ ls)
    (hin : ∀ d, Kind.input d ∈ ks) (hr : Kind.receivers ∈ ks) (hm : Mutex.fgLifecycle ∈ ls) {c : Call}
    (hi : ∀ desc, c ≠ .init desc) (hs : c ≠ .shutdown) : Does ks ls c.body := by
  have hF : Passes (fun _ p => Does ks ls p) deviceKinds deviceMutexes :=
    ⟨Does.pure, Does.bind, fun hp => hp.mono hdev hdl⟩
  have hclient : c.isClient → Does ks ls c.body := body_passes hF (raspikeProtSend_all hreq hrl)
    (raspikeProtSendPriority_all hreq hrl) (raspikeRequest_all hreq hrl)
  cases c with
  | init desc => exact (hi desc rfl).elim
  | shutdown => exact (hs rfl).elim
  | receive =>
    exact (raspikeProtReceive_all hcom hcl hin hr hm).bind fun _ => Does.pure _
  | _ => exact hclient rfl

/-- the kinds of the accesses that leave the ports, the session and the protocol alone, and are no calls -/
def elsewhereKinds : Set Kind :=
  {k | k ≠ .pend ∧ k ≠ .finish ∧ k ≠ .ack ∧ k ≠ .reset ∧ k ≠ .setup ∧ k ≠ .sess ∧ k ≠ .v2 ∧ k ≠ .call}

/-- the mutexes but those of the ports and of their requests -/
def elsewhereMutexes : Set Mutex := {l | ∀ i, l ≠ .port i ∧ l ≠ .request i}

/-- a HELLO, around what it does to the ports and the session -/
theorem processHelloPayload_around {F : ∀ α : Type, P α → Prop} (hF : Passes F elsewhereKinds elsewhereMutexes)
    (hsess : ∀ s, F Unit (setSession s)) (hreset : ∀ error, error ≠ 1 → F Unit (resetPortState error false))
    (buf : List Byte) : F Unit (processHelloPayload buf) := by
  have hq : Kind.quiet ∈ elsewhereKinds := by simp [elsewhereKinds]
  have hprot : Kind.prot ∈ elsewhereKinds := by simp [elsewhereKinds]
  have hstatus : Kind.status ∈ elsewhereKinds := by simp [elsewhereKinds]
  unfold processHelloPayload
  split
  · exact hF.pure _
  refine hF.bind (hF.does (Does.load hq)) fun old => ?_
  split
  · exact hF.pure _
  refine hF.bind (hsess _) fun _ => hF.bind (hF.does (setCapabilities_all hprot _)) fun _ => ?_
  refine hF.bind (hreset _ (by decide)) fun _ => hF.bind (hF.does ?_) fun _ => ?_
  · exact Does.tick (k := .hello) (by simp [elsewhereKinds]) rfl (fun _ => rfl) fun _ => rfl
  refine hF.bind (hF.does (clearSavedStatus_all hq hstatus (by simp [elsewhereMutexes]))) fun _ => ?_
  exact hF.does (clearRuntimeTelemetry_all hprot (by simp [elsewhereMutexes]))

/-- every call, around what it does to the ports, the session and the protocol -/
theorem body_around {F : ∀ α : Type, P α → Prop} (hF : Passes F elsewhereKinds elsewhereMutexes)
    (hsess : ∀ s, F Unit (setSession s)) (hv2 : ∀ b, F Unit (setUseV2 b))
    (hzero : F Unit (modify fun m => { m with fgActiveReceivers := 0 }))
    (hcalloc : F _ callocStatus) (hports : F Unit initPorts)
    (hreset : ∀ error clearDevices, error ≠ 1 → F Unit (resetPortState error clearDevices))
    (hreq : ∀ port cmd data size, F Int (raspikeRequest port cmd data size))
    (hack : ∀ i sequence session buf, F Int (processAck i sequence session buf)) (c : Call) : F Ret c.body := by
  have hk : ∀ {k : Kind}, k ∈ [Kind.quiet, .seq, .dev, .life, .prot, .recv, .hello, .send, .frame, .gaveUp, .config,
      .status, .statusPtr, .receivers] → k ∈ elsewhereKinds := by
    intro k hmem
    simp only [List.mem_cons, List.mem_nil_iff, or_false] at hmem
    rcases hmem with rfl | rfl | rfl | rfl | rfl | rfl | rfl | rfl | rfl | rfl | rfl | rfl | rfl | rfl <;>
      simp [elsewhereKinds]
  have hio : ∀ d, Kind.io d ∈ elsewhereKinds := fun d => by simp [elsewhereKinds]
  have hinput : ∀ d, Kind.input d ∈ elsewhereKinds := fun d => by simp [elsewhereKinds]
  have hl : ∀ {l : Mutex}, l ∈ [Mutex.fgLifecycle, .fgSend, .comSend, .fgStatus, .fgSequence, .fgLinkStats,
      .fgRuntimeTelemetry] → l ∈ elsewhereMutexes := by
    intro l hmem
    simp only [List.mem_cons, List.mem_nil_iff, or_false] at hmem
    rcases hmem with rfl | rfl | rfl | rfl | rfl | rfl | rfl <;> simp [elsewhereMutexes]
  have hq : Kind.quiet ∈ elsewhereKinds := hk (by simp)
  have hsend : ∀ desc buf, F Int (raspikeComSend desc buf) := fun desc buf =>
    hF.does (raspikeComSend_all hq (fun d _ => hio d) (hl (by simp)) buf)
  have hflush : ∀ desc, F Int (raspikeComFlush desc) := fun desc =>
    hF.does (raspikeComFlush_all hq (fun d _ => hio d) (hl (by simp)))
  have hframes : ∀ port cmd buf size flags flushNow, F Int (do
      let sequence ← nextSequence
      sendFrame port cmd buf size sequence flags flushNow) := by
    intro port cmd buf size flags flushNow
    refine hF.does ((nextSequence_all hq (hk (by simp)) (hl (by simp))).bind fun sequence => ?_)
    exact sendFrame_all hq hio (hk (by simp)) (hk (by simp)) (hl (by simp)) (hl (by simp)) (hl (by simp)) _ _ _ _ _ _ _
  have hclient : c.isClient → F Ret c.body := by
    apply body_passes (hF.mono _ _)
    · exact fun port cmd buf size => hframes port cmd buf size 0 false
    · exact fun port cmd buf size => hframes port cmd buf size rpV2FlagHighPriority true
    · exact hreq
    · rintro k (rfl | rfl | rfl | rfl) <;> exact hk (by simp)
    · rintro l (rfl | ⟨i, rfl⟩)
      · exact hl (by simp)
      · simp [elsewhereMutexes]
  cases c with
  | init desc =>
    refine hF.bind ?_ fun _ => hF.pure _
    apply raspikeProtInit_around _ (hk (by simp)) _ hF hcalloc hsend hflush hports hv2 hsess hzero
    · intro k hmem
      cases k with
      | quiet | life | prot | status | statusPtr => exact hk (by simp)
      | input d => exact hinput d
      | _ => exact hmem.elim
    · intro l hmem
      cases l with
      | fgLifecycle | comSend => exact hl (by simp)
      | _ => exact hmem.elim
  | shutdown =>
    refine hF.bind ?_ fun _ => hF.pure _
    apply raspikeProtShutdown_around hF _ _ (hreset _ _ (by decide)) (fun d => hflush (some d)) (hv2 false) (hsess 0)
    · rintro k (rfl | rfl | rfl | rfl) <;> exact hk (by simp)
    · rintro l (rfl | rfl | rfl) <;> exact hl (by simp)
  | receive =>
    refine hF.bind ?_ fun _ => hF.pure _
    apply raspikeProtReceive_passes (hF.mono _ (Set.singleton_subset_iff.mpr (hl (by simp))))
    · apply receiveFrame_passes (hF.mono _ (Set.singleton_subset_iff.mpr (hl (by simp))))
      · apply processCommand_passes (hF.mono _ _)
        · exact fun _ _ _ _ _ _ => hF.does (command_does (hk (by simp)) ..)
        · exact processHelloPayload_around hF hsess fun error herror => hreset error false herror
        · exact fun f => hF.does (updateStatus_all hq (hk (by simp)) (hl (by simp)) f)
        · exact hack
        · rintro k (rfl | rfl) <;> exact hk (by simp)
        · rintro l (rfl | rfl) <;> exact hl (by simp)
      · intro k hmem
        cases k with
        | quiet | recv => exact hk (by simp)
        | input d => exact hinput d
        | _ => exact hmem.elim
    · rintro k (rfl | rfl) <;> exact hk (by simp)
  | _ => exact hclient rfl

theorem client_all (hcall : Kind.call ∈ ks) {calls : List Call}
    (hbody : ∀ c ∈ calls, Does ks ls c.body) : Does ks ls (client calls) := by
  have hF : Passes (fun _ p => Does ks ls p) {.call} ∅ :=
    ⟨Does.pure, Does.bind, fun hp => hp.mono (Set.singleton_subset_iff.mpr hcall) (Set.empty_subset _)⟩
  exact client_passes hF hbody

/-! ## runs -/

theorem reach_all {m : Mem} {calls : T → List Call} (h : ∀ t, Does ks ls (client (calls t)))
    {c : Sys T} (hr : Reach (start m calls) c) (t : T) : Does ks ls (c.thr t) :=
  Prog.All.reach h hr t

/-- one step: nothing, or one access of one of the kinds -/
theorem step_access {c c' : Sys T} {ch : Choice T} (h : ∀ t, Does ks ls (c.thr t))
    (hs : step c ch = some c') : (c'.mem = c.mem ∧ c'.trace = c.trace) ∨
    ∃ t x, ch = .run t ∧ c'.trace = World.push t x c.trace ∧ ∃ k ∈ ks, k.Step c.mem x c'.mem := by
  rcases (Prog.All.step h hs).2 with hsame | ⟨t, e, f, rfl, hacc, hmem, htr⟩
  · exact .inl hsame
  · obtain ⟨k, hk, hstep⟩ := hacc c.mem
    exact .inr ⟨t, e c.mem, rfl, htr, k, hk, by rw [hmem]; exact hstep⟩

/-- the kinds of the calls that neither connect nor disconnect -/
def connectedKinds : Set Kind := {k | k ≠ .life ∧ k ≠ .v2 ∧ k ≠ .statusPtr}

/-- no thread makes a call to `raspike_prot_shutdown` -/
def NoShutdown (calls : T → List Call) : Prop := ∀ t, .shutdown ∉ calls t

theorem connected_all {calls : T → List Call} (hi : NoInit calls) (hs : NoShutdown calls) (t : T) :
    Does connectedKinds Set.univ (client (calls t)) := by
  have hcall : Kind.call ∈ connectedKinds := ⟨by simp, by simp, by simp⟩
  have hinput : ∀ d, Kind.input d ∈ connectedKinds := fun _ => ⟨by simp, by simp, by simp⟩
  have hrec : Kind.receivers ∈ connectedKinds := ⟨by simp, by simp, by simp⟩
  refine client_all hcall fun c hc => body_all ?_ (Set.subset_univ _) ?_
    (Set.subset_univ _) ?_ (Set.subset_univ _) hinput hrec (Set.mem_univ _) (hi t c hc) ?_
  · intro k hk
    cases k <;> first
      | exact hk.elim
      | exact ⟨by simp, by simp, by simp⟩
  · intro k hk
    simp only [deviceKinds, Set.mem_insert_iff, Set.mem_singleton_iff] at hk
    rcases hk with rfl | rfl | rfl | rfl <;> exact ⟨by simp, by simp, by simp⟩
  · intro k hk
    simp only [commandKinds, Set.mem_insert_iff, Set.mem_singleton_iff] at hk
    rcases hk with rfl | rfl | rfl | rfl | rfl | rfl | rfl | rfl <;>
      exact ⟨by simp, by simp, by simp⟩
  · rintro rfl
    exact hs t hc

/-- the labels of a run in which nobody connects or disconnects -/
theorem connected_labels {m : Mem} {calls : T → List Call} (hi : NoInit calls)
    (hs : NoShutdown calls) {c : Sys T} (hr : Reach (start m calls) c) :
    ∀ x ∈ c.trace, x.2.kind ∈ connectedKinds := by
  induction hr with
  | refl => exact nofun
  | @step c c' ch hr hstep ih =>
    rcases step_access (reach_all (connected_all hi hs) hr) hstep with ⟨-, htr⟩ | ⟨t, x, -, htr, k, hk, hks⟩
    · rw [htr]
      exact ih
    · rw [htr]
      cases x with
      | none => exact ih
      | some e =>
        intro y hy
        rcases List.mem_cons.mp hy with rfl | hy
        · rw [hks.label e rfl]
          exact hk
        · exact ih y hy

end RaspikeArt
