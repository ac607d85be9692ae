import RaspikeArt.Protocol.Correlation
import RaspikeArt.Protocol.Taken
import RaspikeArt.Model.Inside

/-!
# Frames, part 4: what warrants an update

* `Mem.guarded`        the part of the memory that the protocol protects: saved status, telemetry,
                       session, capabilities, and the requests of the ports;
* `Raw.Warrants`       a frame that may change it: a HELLO, or a frame of the current session, which
                       a legacy frame always is;
* `protected_updates`  a receive changes the guarded memory only on such a frame, and the requests
                       of the ports only on a v2 frame or a HELLO.
-/

set_option linter.unusedSectionVars false

namespace RaspikeArt
open Threads

structure Guarded where
  status : Option SpikeStatus
  telemetry : List Byte
  session : U32
  capabilities : Byte
  ports : Port → RPPortDevice

/-- the devices of the ports are the clients' own -/
def Mem.guarded (m : Mem) : Guarded where
  status := m.fgStatus.bind m.heap
  telemetry := m.fgRuntimeTelemetry
  session := m.fgSessionId
  capabilities := m.fgCapabilities
  ports := fun i => { m.gPortDevices i with device := .zero }

/-- the kinds of access that change the requests of the ports -/
def Kind.settles : Kind → Bool
  | .pend | .finish | .ack | .reset | .setup => true
  | _ => false

/-- the kinds of access that change guarded memory -/
def Kind.updates : Kind → Bool
  | .sess | .prot | .status | .statusPtr => true
  | k => k.settles

theorem Kind.silent_updates {k : Kind} (hs : k.silent = true) (hup : k.updates = true) :
    k = .statusPtr ∨ k = .setup := by
  cases k <;> simp_all [Kind.silent, Kind.updates, Kind.settles]

theorem Kind.Touches.guarded_ports {k : Kind} {m m' : Mem} (h : k.Touches m m')
    (hk : k.settles = false) : m'.guarded.ports = m.guarded.ports := by
  cases k with
  | pend | finish | ack | reset | setup => cases hk
  | quiet =>
    obtain ⟨c, s, x, y, z, -, rfl⟩ := h
    rfl
  | io | v2 | seq | receivers | sess | status | statusPtr =>
    obtain ⟨x, rfl⟩ := h
    rfl
  | prot =>
    obtain ⟨x, y, rfl⟩ := h
    rfl
  | life =>
    obtain ⟨x, y, z, rfl⟩ := h
    rfl
  | dev =>
    obtain ⟨i, dv, rfl⟩ := h
    funext j
    by_cases hj : j = i
    · subst hj
      simp [Mem.guarded, Mem.setPort]
    · simp [Mem.guarded, Mem.setPort, hj]
  | input | call | send | recv | hello | config | frame | gaveUp =>
    cases h
    rfl

theorem Kind.Touches.guarded {k : Kind} {m m' : Mem} (h : k.Touches m m') (hk : k.updates = false) :
    m'.guarded = m.guarded := by
  have hports : k.settles = false → m'.guarded.ports = m.guarded.ports := h.guarded_ports
  cases k with
  | pend | finish | ack | reset | sess | prot | status | statusPtr | setup => cases hk
  | quiet =>
    obtain ⟨c, s, x, y, z, -, rfl⟩ := h
    rfl
  | io | v2 | seq | receivers =>
    obtain ⟨x, rfl⟩ := h
    rfl
  | life =>
    obtain ⟨x, y, z, rfl⟩ := h
    rfl
  | dev =>
    obtain ⟨i, dv, rfl⟩ := h
    exact congrArg (fun p => { m.guarded with ports := p }) (hports rfl)
  | input | call | send | recv | hello | config | frame | gaveUp =>
    cases h
    rfl

/-- A frame that may change guarded memory in the session `s`: it says a HELLO, or it is of that
session.  A legacy frame names no session. -/
def Raw.Warrants (s : U32) (r : Raw) : Prop :=
  ∃ d, r.Carries d ∧ (d.cmd = rpCmdIdLinkHello ∨ d.session = s)

/-- a frame that may change the requests of the ports -/
def Raw.Settles (r : Raw) : Prop :=
  (∃ bytes, r = .v2 bytes) ∨ ∃ d, r.Carries d ∧ d.cmd = rpCmdIdLinkHello

variable {T : Type} [DecidableEq T] {d₀ : Nat} {s₀ : U32} {rx t : T} {m : Mem}

/-! ## kinds -/

/-- the kinds of a client's call -/
def clientKinds : Set Kind := {k | k ≠ .call ∧ k ≠ .receivers}

/-- the kinds of the calls that neither connect nor disconnect, and of the sections of a receive -/
def stageKinds : Stage → Set Kind
  | .idle => ∅
  | .inCall .receive => {.quiet}
  | .inCall _ => clientKinds
  | .receiving => commandKinds ∪ {k | ∃ d, k = .input d}

/-- the kinds of a connected library, without those that replace the saved status or the ports -/
def plainKinds : Set Kind := {k | k ≠ .statusPtr ∧ k ≠ .setup}

theorem requestKinds_plain : requestKinds ⊆ clientKinds ∩ plainKinds := by
  intro k hk
  cases k <;> first
    | exact hk.elim
    | exact ⟨⟨nofun, nofun⟩, nofun, nofun⟩

theorem deviceKinds_plain : deviceKinds ⊆ clientKinds ∩ plainKinds := by
  intro k hk
  simp only [deviceKinds, Set.mem_insert_iff, Set.mem_singleton_iff] at hk
  rcases hk with rfl | rfl | rfl | rfl <;> exact ⟨⟨by simp, by simp⟩, by simp, by simp⟩

theorem commandKinds_plain : commandKinds ⊆ clientKinds ∩ plainKinds := by
  intro k hk
  simp only [commandKinds, Set.mem_insert_iff, Set.mem_singleton_iff] at hk
  rcases hk with rfl | rfl | rfl | rfl | rfl | rfl | rfl | rfl <;>
    exact ⟨⟨by simp, by simp⟩, by simp, by simp⟩

theorem plain_all {calls : T → List Call} (hi : NoInit calls) (hs : NoShutdown calls) (t : T) :
    Does plainKinds Set.univ (client (calls t)) := by
  have hcall : Kind.call ∈ plainKinds := ⟨nofun, nofun⟩
  have hinput : ∀ d, Kind.input d ∈ plainKinds := fun _ => ⟨nofun, nofun⟩
  have hrec : Kind.receivers ∈ plainKinds := ⟨nofun, nofun⟩
  refine client_all hcall fun c hc => body_all ?_ (Set.subset_univ _) ?_ (Set.subset_univ _) ?_
    (Set.subset_univ _) hinput hrec (Set.mem_univ _) (hi t c hc) ?_
  · exact fun k hk => (requestKinds_plain hk).2
  · exact fun k hk => (deviceKinds_plain hk).2
  · exact fun k hk => (commandKinds_plain hk).2
  · rintro rfl
    exact hs t hc

theorem clientKinds_staying : Staying clientKinds := ⟨fun h => h.1 rfl, fun h => h.2 rfl⟩

theorem stageKinds_inCall {c : Call} (h : c ≠ .receive) : stageKinds (.inCall c) = clientKinds := by
  cases c with
  | receive => exact (h rfl).elim
  | _ => rfl

theorem stageKinds_staying (s : Stage) : Staying (stageKinds s) := by
  cases s with
  | idle => exact ⟨id, id⟩
  | inCall c =>
    by_cases hc : c = .receive
    · subst hc
      exact ⟨nofun, nofun⟩
    · rw [stageKinds_inCall hc]
      exact clientKinds_staying
  | receiving =>
    constructor
    all_goals
      rintro (hk | ⟨d, hd⟩)
      · simp [commandKinds] at hk
      · cases hd

theorem stageKinds_covers {calls : List Call} (hi : ∀ c ∈ calls, ∀ desc, c ≠ .init desc)
    (hs : .shutdown ∉ calls) : Covers stageKinds calls where
  staying := stageKinds_staying
  body c hc hne := by
    rw [stageKinds_inCall hne]
    have hreq : requestKinds ⊆ clientKinds := fun k hk => (requestKinds_plain hk).1
    have hdev : deviceKinds ⊆ clientKinds := fun k hk => (deviceKinds_plain hk).1
    have hF : Passes (fun _ p => Does clientKinds Set.univ p) deviceKinds deviceMutexes :=
      ⟨Does.pure, Does.bind, fun hp => hp.mono hdev (Set.subset_univ _)⟩
    refine body_passes hF (raspikeProtSend_all hreq (Set.subset_univ _))
      (raspikeProtSendPriority_all hreq (Set.subset_univ _)) (raspikeRequest_all hreq (Set.subset_univ _)) ?_
    cases c with
    | init desc => exact (hi _ hc desc rfl).elim
    | shutdown => exact (hs hc).elim
    | receive => exact (hne rfl).elim
    | _ => rfl
  entry := rfl
  frame := receiveFrame_all Set.subset_union_left (Set.subset_univ _) fun d => .inr ⟨d, rfl⟩

/-! ## the updates -/

/-- a thread that is counted as a receiver is in the present receive of the machine -/
theorem inside_of_stage {tr : Trace T} (h : stage t tr = .receiving) :
    ((framesOf s₀ tr).reading t).inside = true := by
  induction tr with
  | nil => cases h
  | cons x tr ih =>
    obtain ⟨u, e⟩ := x
    by_cases hu : u = t
    case neg =>
      rw [stage_of_ne hu] at h
      have hread : (framesOf s₀ ((u, e) :: tr)).reading t = (framesOf s₀ tr).reading t := by
        cases e <;> first
          | rfl
          | exact Function.update_of_ne (Ne.symm hu) _ _
      rw [hread]
      exact ih h
    subst hu
    cases e with
    | receiverIn => simp [framing, Frames.next]
    | receiverOut | call | returned =>
      rw [stage_self tr rfl] at h
      cases h
    | v2Frame | legacyFrame | command =>
      rw [stage_of_none rfl] at h
      have hread : ∀ r : Reading, r.inside = ((framesOf s₀ tr).reading u).inside →
          (((framesOf s₀ tr).read u r).reading u).inside = true := by
        intro r hr
        rw [Frames.read_self, hr]
        exact ih h
      exact hread _ rfl
    | _ =>
      rw [stage_of_none rfl] at h
      exact ih h

/-- the frame of a command -/
theorem hasRead_of_command {tr : Trace T} (h : (framing T).Legal (.start s₀) tr) {d : Decoded}
    (hd : ((framesOf s₀ tr).reading t).cmd = some d) : ∃ r, HasRead tr t r ∧ r.Carries d := by
  obtain ⟨r, hr, hcarries⟩ := Frames.Sound.of_legal h t d hd
  exact ⟨r, raw_in_history hr, hcarries⟩

/-- an update by a receive comes out of the frame it has read -/
theorem update_warranted {tr : Trace T} {e : Event} (h : (framing T).Legal (.start s₀) ((t, e) :: tr))
    (hack : ∀ i s session ackCmd ackData, e = .ack i s session ackCmd ackData → s ≠ 0)
    (hin : ((framesOf s₀ tr).reading t).inside = true) (hk : e.kind ∈ stageKinds .receiving)
    (hup : e.kind.updates = true) :
    ∃ r, HasRead tr t r ∧ r.Warrants (framesOf s₀ tr).session ∧ (e.kind.settles = true → r.Settles) := by
  have hwarrant : (framesOf s₀ tr).Warranted t → e.kind.settles = false →
      ∃ r, HasRead tr t r ∧ r.Warrants (framesOf s₀ tr).session ∧
        (e.kind.settles = true → r.Settles) := by
    intro hw hset
    obtain ⟨d, hd, hor⟩ := hw hin
    obtain ⟨r, hr, hcarries⟩ := hasRead_of_command h.tail hd
    exact ⟨r, hr, ⟨d, hcarries, hor⟩, fun hset' => by rw [hset] at hset'; cases hset'⟩
  have hhello : ∀ d, ((framesOf s₀ tr).reading t).cmd = some d → d.cmd = rpCmdIdLinkHello →
      ∃ r, HasRead tr t r ∧ r.Warrants (framesOf s₀ tr).session ∧
        (e.kind.settles = true → r.Settles) := by
    intro d hd hcmd
    obtain ⟨r, hr, hcarries⟩ := hasRead_of_command h.tail hd
    exact ⟨r, hr, ⟨d, hcarries, .inl hcmd⟩, fun _ => .inr ⟨d, hcarries, hcmd⟩⟩
  have hok := h.1
  cases e with
  | ack i s session ackCmd ackData =>
    obtain ⟨hsession, d, hd, -, -, hseq, hsess, -⟩ := hok
    obtain ⟨r, hr, hcarries⟩ := hasRead_of_command h.tail hd
    refine ⟨r, hr, ⟨d, hcarries, .inr (hsess.trans hsession)⟩, fun _ => .inl ?_⟩
    cases r with
    | v2 bytes => exact ⟨bytes, rfl⟩
    | legacy bytes => exact (hack i s session ackCmd ackData rfl (hseq.symm.trans hcarries.2.2)).elim
  | session s =>
    obtain ⟨d, hd, hcmd, -⟩ := hok hin
    exact hhello d hd hcmd
  | cancel | clear =>
    obtain ⟨d, hd, hcmd⟩ := hok hin
    exact hhello d hd hcmd
  | capabilities | runtimeTelemetry | statusFetch | statusUse | statusFree | statusWoken =>
    exact hwarrant hok rfl
  | pend | finish => simp [stageKinds, commandKinds, Event.kind] at hk
  | io d k => cases k <;> cases hup
  | _ => cases hup

/-- **Protected updates.**  While the library stays connected, a step of `raspike_prot_receive` that
changes the saved status, the telemetry, the session, the capabilities or the requests of a port
comes after a complete frame that this receive has read, and the frame is all that it had taken from
the device by then: a v2 frame with a matching checksum that is a HELLO or of the session then current,
or a legacy frame.  The requests of the ports change only on a v2 frame or a HELLO. -/
theorem protected_updates (hm : Connected d₀ m) {calls : T → List Call} (hc : NoInit calls)
    (hs : NoShutdown calls) (hrx : OneReceiver rx calls) {c c' : Sys T}
    (hr : Reach (start m calls) c) (hstep : step c (.run t) = some c')
    (hin : stage t c.trace = .inCall .receive ∨ stage t c.trace = .receiving)
    (hchg : c'.mem.guarded ≠ c.mem.guarded) :
    ∃ r, HasRead c.trace t r ∧ ReadFrom d₀ t (start m calls) c r ∧ r.Warrants c.mem.fgSessionId ∧
      (c'.mem.guarded.ports ≠ c.mem.guarded.ports → r.Settles) := by
  have hr' := hr.step hstep
  obtain ⟨hsame, -⟩ | ⟨u, x, hu, htr, k, hk, hks⟩ := step_access (reach_all (plain_all hc hs) hr) hstep
  · rw [hsame] at hchg
    exact (hchg rfl).elim
  cases hu
  have hup : k.updates = true := by
    by_contra hno
    exact hchg (hks.touches.guarded (by simpa using hno))
  -- an access that updates guarded memory and may come in a connected library leaves a label
  cases x with
  | none =>
    obtain rfl | rfl := Kind.silent_updates (hks.silent rfl) hup
    · exact (hk.1 rfl).elim
    · exact (hk.2 rfl).elim
  | some e =>
    have hkind : e.kind = k := hks.label e rfl
    subst hkind
    replace htr : c'.trace = (t, e) :: c.trace := htr
    have hwithin := inside_kinds (fun t => stageKinds_covers (hc t) (hs t)) hr'
    obtain ⟨fs, hframes⟩ := framing_refines hm.idle hm.v2 hc hrx hr'
    obtain ⟨fs₁, hframes₁⟩ := framing_refines hm.idle hm.v2 hc hrx hr
    obtain ⟨-, gs, hreq, -⟩ := requests_refine hm hc hrx hr'
    have hlegal := hframes.legal
    have hports := hreq.legal
    rw [htr] at hwithin hlegal hports
    have hmem : e.kind ∈ stageKinds (stage t c.trace) := by
      obtain hmem | hstage := hwithin.1
      · exact hmem
      · have hnone : e.stage = none := by
          apply Event.stage_none
          all_goals
            intro hcall
            rw [hcall] at hup
            cases hup
        exact (hstage hnone).elim
    obtain hcall | hrec := hin
    · rw [hcall] at hmem
      rw [Set.mem_singleton_iff.mp hmem] at hup
      cases hup
    rw [hrec] at hmem
    have hack : ∀ i s session ackCmd ackData, e = .ack i s session ackCmd ackData → s ≠ 0 := by
      rintro i s session ackCmd ackData rfl
      obtain ⟨-, -, st, hst, -, rfl⟩ := hports.1
      exact ((Ports.Sound.of_legal hports.tail).slot i st hst).sequence
    obtain ⟨r, hread, hwarrants, hsettles⟩ :=
      update_warranted hlegal hack (inside_of_stage hrec) hmem hup
    refine ⟨r, hread, hasRead_readFrom hm hc hr hread, ?_, fun hp => hsettles ?_⟩
    · rw [hframes₁.session]
      exact hwarrants
    · by_contra hno
      exact hp (hks.touches.guarded_ports (by simpa using hno))

/-! ## one receive -/

def receiveOnce : Unit → List Call := fun _ => [.receive]

theorem receiveOnce_noInit : NoInit receiveOnce := by
  intro t c hc
  simp [receiveOnce] at hc
  simp [hc]

theorem receiveOnce_noShutdown : NoShutdown receiveOnce := by simp [NoShutdown, receiveOnce]

theorem receiveOnce_one : OneReceiver () receiveOnce := fun _ _ => rfl

/-- after `n` steps, a step of a receive that changes guarded memory -/
structure Updates (m : Mem) (n : Nat) (c c' : Sys Unit) : Prop where
  run : exec (start m receiveOnce) (steps n ()) = some c
  step : step c (.run ()) = some c'
  inside : stage () c.trace = .receiving
  changed : c'.mem.guarded ≠ c.mem.guarded

theorem Updates.of {α : Type} {m : Mem} {n : Nat} (f : Guarded → α) {a b : α} (hab : a ≠ b)
    (hmid : ∀ c ∈ exec (start m receiveOnce) (steps n ()),
      stage () c.trace = .receiving ∧ f c.mem.guarded = a)
    (hend : ∀ c' ∈ exec (start m receiveOnce) (steps n () ++ [.run ()]), f c'.mem.guarded = b)
    (hrun : (exec (start m receiveOnce) (steps n () ++ [.run ()])).isSome) :
    ∃ c c', Updates m n c c' := by
  obtain ⟨c', hc'⟩ := Option.isSome_iff_exists.mp hrun
  obtain ⟨c, hc, hstep⟩ := exec_last hc'
  obtain ⟨hstage, hbefore⟩ := hmid c hc
  have hafter := hend c' hc'
  refine ⟨c, c', hc, hstep, hstage, fun heq => hab ?_⟩
  rw [← hbefore, ← hafter, heq]

theorem protected_updates_hello : ∃ c c' r, Updates (freshMem [.data (helloFrame 9)] []) 40 c c' ∧
    HasRead c.trace () r ∧ ReadFrom 0 () (start (freshMem [.data (helloFrame 9)] []) receiveOnce) c r ∧
    r.Warrants c.mem.fgSessionId ∧
    (c'.mem.guarded.ports ≠ c.mem.guarded.ports → r.Settles) := by
  obtain ⟨c, c', h⟩ := Updates.of (m := freshMem [.data (helloFrame 9)] []) (n := 40) Guarded.session
    (show (7 : U32) ≠ 9 by decide) (by decide +kernel) (by decide +kernel) (by decide +kernel)
  obtain ⟨r, hr⟩ := protected_updates (freshMem_connected _ _) receiveOnce_noInit
    receiveOnce_noShutdown receiveOnce_one (exec_reach h.run) h.step (.inr h.inside) h.changed
  exact ⟨c, c', r, h, hr⟩

/-- an `RP_CMD_ID_ALL_STATUS` payload -/
def litStatus : List Byte := 1 :: List.replicate 135 0

/-- a legacy frame changes the saved status, and no v2 frame has come in -/
theorem legacy_updates : ∃ c c',
    Updates (freshMem [.data (legacyFrame 0 rpCmdIdAllStatus litStatus)] []) 47 c c' ∧
    ∀ u bytes, (u, .v2Frame bytes) ∉ c.trace := by
  obtain ⟨c, c', h⟩ := Updates.of (n := 47)
    (m := freshMem [.data (legacyFrame 0 rpCmdIdAllStatus litStatus)] [])
    (fun g => g.status.map fun s => s.byte 0) (show some (0 : Byte) ≠ some 1 by decide)
    (by decide +kernel) (by decide +kernel) (by decide +kernel)
  have hlabels : ∀ c ∈ exec (start (freshMem [.data (legacyFrame 0 rpCmdIdAllStatus litStatus)] [])
      receiveOnce) (steps 47 ()), c.trace.all fun x => !x.2 matches .v2Frame _ := by
    decide +kernel
  refine ⟨c, c', h, fun u bytes hin => ?_⟩
  have hx := List.all_eq_true.mp (hlabels c h.run) _ hin
  cases hx

end RaspikeArt
