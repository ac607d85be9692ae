import RaspikeArt.Model.Passes
import RaspikeArt.Protocol.Noise
import RaspikeArt.Protocol.Priority
import RaspikeArt.Transport.Listening

/-!
# The stages of an init

`raspike_prot_init` cut at the places where it stores what the device says.

* `raspikeProtInit_eq`  the init begins with `initBegin`, and then negotiates;
* `initBegin_finishes`  which always ends, with nothing agreed on yet;
* `performHandshake_keeps`  and the handshake leaves that as it is, however it ends.
-/

namespace RaspikeArt
open Threads

variable {α β S : Type}

/-- other devices in the same library -/
def Mem.onDevices (m : Mem) (desc : Nat → RPComDescriptor) : Mem :=
  { m with com := { m.com with desc := desc } }

/-! ## the init in parts -/

/-- the section of `raspike_prot_init` that takes the descriptor: its error, or nothing -/
def initTake (desc : Option Nat) : P (Option Int) := do
  if desc.isNone then return some (-EINVAL)
  lock .fgLifecycle
  let busy ← load fun m => m.fgDesc.isSome
  if busy then
    unlock .fgLifecycle
    return some (-EBUSY)
  modify fun m => { m with fgDesc := desc }
  modify fun m => { m with fgStopCommunication := false }
  modify fun m => { m with fgHandshakeComplete := false }
  setUseV2 false
  setSession 0
  setCapabilities 0
  modify fun m => { m with fgActiveReceivers := 0 }
  unlock .fgLifecycle
  return none

/-- from there to its handshake -/
def initSetup : P (Option Int) := do
  modify fun m => { m with fgNextSequence := 1 }
  modify fun m => { m with fgLinkStats := fun _ => 0 }
  setRuntimeTelemetry zeroTelemetry
  let status ← callocStatus
  if status.isNone then
    clearDesc
    return some (-ENOMEM)
  initPorts
  return none

/-- a part with its error, before the next one -/
def unlessFailed (p q : P (Option Int)) : P (Option Int) := do
  let failed ← p
  match failed with
  | some e => return some e
  | none => q

def initBegin (desc : Option Nat) : P (Option Int) := unlessFailed (initTake desc) initSetup

theorem raspikeProtInit_eq (desc : Option Nat) :
    raspikeProtInit desc = initBegin desc >>= fun x => x.elim initNegotiate pure := by
  have hsetup : ∀ q : P Int, (do
      modify fun m => { m with fgNextSequence := 1 }
      modify fun m => { m with fgLinkStats := fun _ => 0 }
      setRuntimeTelemetry zeroTelemetry
      let status ← callocStatus
      if status.isNone then
        clearDesc
        return -ENOMEM
      initPorts
      q : P Int) = initSetup >>= fun x => x.elim q pure := by
    intro q
    iterate 3
      apply bind_split
      intro _
    apply bind_split
    intro status
    split
    case isTrue => exact bind_split fun _ => rfl
    exact bind_split fun _ => rfl
  show _ = Prog.bind (Prog.bind _ _) _
  rw [Prog.bind_assoc]
  unfold raspikeProtInit initTake
  split
  case isTrue => rfl
  apply bind_split
  intro _
  apply bind_split
  intro busy
  split
  case isTrue => rfl
  -- one store after the other, up to the end of the section
  iterate 8
    apply bind_split
    intro _
  exact hsetup initNegotiate

/-- the handshake with the check of the version: the error of the end, or nothing -/
def initHandshake (desc : Option Nat) : P (Option Int) := unlessFailed (initBegin desc) do
  let ret ← performHandshake
  if ret < 0 then return some ret
  let supported ← load versionMatches
  if !supported then return some (-EPROTONOSUPPORT)
  return none
/-! ## up to the handshake -/

/-- only the ports change -/
def PortsOnly (m : Mem) (_ : Option Event) (m' : Mem) : Prop :=
  ∃ p b, m' = { m with gPortDevices := p, fgPortSynchronizationInitialized := b }

theorem path_ports {w w' : Solo} (h : Path PortsOnly w w') : PortsOnly w.mem none w'.mem := by
  induction h with
  | refl => exact ⟨_, _, rfl⟩
  | own _ _ ih => exact ih
  | act _ hA ih =>
    obtain ⟨p, b, hmem⟩ := ih
    obtain ⟨p', b', rfl⟩ := hA
    exact ⟨p', b', by rw [hmem]⟩

theorem initPorts_runs : Runs PortsOnly noneHeld initPorts noneHeld := by
  have hload : ∀ {γ : Type} (f : Mem → γ), Runs PortsOnly noneHeld (load f : P γ) noneHeld := fun f =>
    Runs.load fun m => ⟨_, _, rfl⟩
  apply (hload _).bind
  intro synchronized
  split
  · exact resetPortState_runs (fun m _ p _ => ⟨p, m.fgPortSynchronizationInitialized, rfl⟩) _ true
  · apply Runs.bind (M := noneHeld)
    · exact Runs.forEach fun i => Runs.act fun m => ⟨_, _, rfl⟩
    · exact fun _ => Runs.act fun m => ⟨_, _, rfl⟩

/-- the connection is new: nothing is agreed on yet -/
structure Begun (m : Mem) : Prop where
  handshake : m.fgHandshakeComplete = false
  v2 : m.fgUseProtocolV2 = false
  session : m.fgSessionId = 0
  capabilities : m.fgCapabilities = 0

theorem Begun.of_same {m m' : Mem} (h : Begun m) (hh : m'.fgHandshakeComplete = m.fgHandshakeComplete)
    (hv : m'.fgUseProtocolV2 = m.fgUseProtocolV2) (hs : m'.fgSessionId = m.fgSessionId)
    (hc : m'.fgCapabilities = m.fgCapabilities) : Begun m' :=
  ⟨hh.trans h.handshake, hv.trans h.v2, hs.trans h.session, hc.trans h.capabilities⟩

/-- how `initBegin` ends in `w'` after `w` -/
structure BeginEnd (d : Nat) (w : Solo) (x : Option Int) (w' : Solo) : Prop where
  own : w'.own = noneHeld
  com : w'.mem.com = w.mem.com
  begun : Begun w'.mem
  fails : w.mem.callocFails = true →
    x = some (-ENOMEM) ∧ w'.mem.fgDesc = none ∧ w'.mem.fgStatus = none
  goesOn : w.mem.callocFails = false → x = none ∧ w'.mem.fgDesc = some d

theorem clearDesc_finishes {w : Solo} (hfree : w.own = noneHeld) :
    Finishes clearDesc w fun _ w' => w'.own = noneHeld ∧ w'.mem = { w.mem with fgDesc := none } := by
  apply finish_bind
  apply finish_lock (congrFun hfree _)
  apply finish_bind
  apply finish_modify
  apply finish_unlock
  exact ⟨(release_acquired (congrFun hfree _) rfl).trans hfree, rfl⟩

/-- memory is left, or not -/
theorem callocStatus_finishes (w : Solo) : Finishes callocStatus w fun status w' => w'.own = w.own ∧
    (w.mem.callocFails = true → status = none ∧ w'.mem = { w.mem with fgStatus := none }) ∧
      (w.mem.callocFails = false → status.isNone = false ∧ ∃ p n h,
        w'.mem = { w.mem with fgStatus := p, heapNext := n, heap := h }) := by
  cases h : w.mem.callocFails with
  | true =>
    apply finish_eval
    case he => exact rfl
    case hf => exact if_pos h
    exact ⟨rfl, fun _ => ⟨rfl, rfl⟩, nofun⟩
  | false =>
    apply finish_eval
    case he => exact rfl
    case hf => exact if_neg (Bool.eq_false_iff.mp h)
    exact ⟨rfl, nofun, fun _ => ⟨rfl, _, _, _, rfl⟩⟩

theorem unlessFailed_finishes {p q : P (Option Int)} {w : Solo} {Q : Option Int → Solo → Prop}
    (h : Finishes p w fun x w' => match x with
      | some e => Q (some e) w'
      | none => Finishes q w' Q) : Finishes (unlessFailed p q) w Q := by
  apply finish_seq h
  intro x w' hx
  cases x with
  | some e => exact finish_pure hx
  | none => exact hx

/-- the descriptor is taken -/
structure Taken (d : Nat) (w w' : Solo) : Prop where
  own : w'.own = noneHeld
  com : w'.mem.com = w.mem.com
  begun : Begun w'.mem
  desc : w'.mem.fgDesc = some d
  calloc : w'.mem.callocFails = w.mem.callocFails

theorem initTake_finishes {d : Nat} {w : Solo} (hdown : w.mem.fgDesc = none) (hfree : w.own = noneHeld) :
    Finishes (initTake (some d)) w fun x w' => x = none ∧ Taken d w w' := by
  apply finish_bind
  apply finish_lock (congrFun hfree _)
  apply finish_bind
  apply finish_load
  rw [if_neg (by simp [World.acquire, hdown])]
  iterate 7
    apply finish_bind
    apply finish_act
  apply finish_bind
  apply finish_unlock
  apply finish_pure
  exact ⟨rfl, (release_acquired (congrFun hfree .fgLifecycle) rfl).trans hfree, rfl,
    ⟨rfl, rfl, rfl, rfl⟩, rfl, rfl⟩

theorem initSetup_finishes {d : Nat} {w : Solo} (hbegun : Begun w.mem) (hdesc : w.mem.fgDesc = some d)
    (hfree : w.own = noneHeld) : Finishes initSetup w (BeginEnd d w) := by
  iterate 3
    apply finish_bind
    apply finish_act
  apply finish_seq (callocStatus_finishes _)
  rintro status w₁ ⟨hown, hnone, hsome⟩
  have hfree₁ : w₁.own = noneHeld :=
    hown.trans hfree
  cases hcalloc : w.mem.callocFails with
  | true =>
    obtain ⟨hstatus, hmem⟩ := hnone hcalloc
    rw [if_pos (by rw [hstatus]; rfl)]
    have hcom₁ : w₁.mem.com = w.mem.com := (congrArg Mem.com hmem :)
    have hbegun₁ : Begun w₁.mem := hbegun.of_same (congrArg Mem.fgHandshakeComplete hmem :)
      (congrArg Mem.fgUseProtocolV2 hmem :) (congrArg Mem.fgSessionId hmem :) (congrArg Mem.fgCapabilities hmem :)
    have hstatus₁ : w₁.mem.fgStatus = none := (congrArg Mem.fgStatus hmem :)
    apply finish_seq (clearDesc_finishes hfree₁)
    rintro _ w₂ ⟨hfree₂, hmem₂⟩
    have hbegun₂ : Begun w₂.mem := hbegun₁.of_same (congrArg Mem.fgHandshakeComplete hmem₂ :)
      (congrArg Mem.fgUseProtocolV2 hmem₂ :) (congrArg Mem.fgSessionId hmem₂ :)
      (congrArg Mem.fgCapabilities hmem₂ :)
    apply finish_pure
    exact ⟨hfree₂, (congrArg Mem.com hmem₂).trans hcom₁, hbegun₂,
      fun _ => ⟨rfl, (congrArg Mem.fgDesc hmem₂ :), (congrArg Mem.fgStatus hmem₂).trans hstatus₁⟩,
      fun h => Bool.noConfusion (hcalloc.symm.trans h)⟩
  | false =>
    obtain ⟨hstatus, p, n, h, hmem⟩ := hsome hcalloc
    rw [if_neg (Bool.eq_false_iff.mp hstatus)]
    have hcom₁ : w₁.mem.com = w.mem.com := (congrArg Mem.com hmem :)
    have hbegun₁ : Begun w₁.mem := hbegun.of_same (congrArg Mem.fgHandshakeComplete hmem :)
      (congrArg Mem.fgUseProtocolV2 hmem :) (congrArg Mem.fgSessionId hmem :) (congrArg Mem.fgCapabilities hmem :)
    have hdesc₁ : w₁.mem.fgDesc = some d := (congrArg Mem.fgDesc hmem).trans hdesc
    apply finish_seq (initPorts_runs w₁ hfree₁)
    rintro _ w₂ ⟨hfree₂, hpath⟩
    obtain ⟨ports, b, hmem₂⟩ := path_ports hpath
    have hbegun₂ : Begun w₂.mem := hbegun₁.of_same (congrArg Mem.fgHandshakeComplete hmem₂ :)
      (congrArg Mem.fgUseProtocolV2 hmem₂ :) (congrArg Mem.fgSessionId hmem₂ :)
      (congrArg Mem.fgCapabilities hmem₂ :)
    apply finish_pure
    exact ⟨hfree₂, (congrArg Mem.com hmem₂).trans hcom₁, hbegun₂,
      fun h => Bool.noConfusion (hcalloc.symm.trans h),
      fun _ => ⟨rfl, (congrArg Mem.fgDesc hmem₂).trans hdesc₁⟩⟩

theorem initBegin_finishes {d : Nat} {w : Solo} (hdown : w.mem.fgDesc = none) (hfree : w.own = noneHeld) :
    Finishes (initBegin (some d)) w (BeginEnd d w) := by
  apply unlessFailed_finishes
  apply finish_mono (initTake_finishes hdown hfree)
  rintro _ w₁ ⟨rfl, ht⟩
  apply finish_mono (initSetup_finishes ht.begun ht.desc ht.own)
  intro x w₂ h
  exact ⟨h.own, h.com.trans ht.com, h.begun, fun hc => h.fails (ht.calloc.trans hc),
    fun hc => h.goesOn (ht.calloc.trans hc)⟩
/-! ## the handshake -/

/-- nothing that is agreed on changes -/
structure SameLink (m m' : Mem) : Prop where
  desc : m'.fgDesc = m.fgDesc
  status : m'.fgStatus = m.fgStatus
  handshake : m'.fgHandshakeComplete = m.fgHandshakeComplete
  v2 : m'.fgUseProtocolV2 = m.fgUseProtocolV2
  session : m'.fgSessionId = m.fgSessionId
  capabilities : m'.fgCapabilities = m.fgCapabilities

theorem SameLink.trans {m₁ m₂ m₃ : Mem} (h : SameLink m₁ m₂) (h' : SameLink m₂ m₃) : SameLink m₁ m₃ :=
  ⟨h'.desc.trans h.desc, h'.status.trans h.status, h'.handshake.trans h.handshake,
    h'.v2.trans h.v2, h'.session.trans h.session, h'.capabilities.trans h.capabilities⟩

theorem SameLink.begun {m m' : Mem} (h : SameLink m m') (hb : Begun m) : Begun m' :=
  hb.of_same h.handshake h.v2 h.session h.capabilities

theorem Listened.kept {w w' : Solo} (h : Listened w w') : SameLink w.mem w'.mem := by
  obtain ⟨desc, hmem⟩ := h.mem
  rw [hmem]
  exact ⟨rfl, rfl, rfl, rfl, rfl, rfl⟩

/-- the kinds of a handshake -/
def handshakeKinds : Set Kind
  | .quiet | .io _ | .input _ => True
  | _ => False

theorem kept_of_touches {k : Kind} {m m' : Mem} (hk : k ∈ handshakeKinds) (h : k.Touches m m') :
    SameLink m m' := by
  cases k with
  | quiet =>
    obtain ⟨c, s, x, y, z, -, rfl⟩ := h
    exact ⟨rfl, rfl, rfl, rfl, rfl, rfl⟩
  | io d =>
    obtain ⟨c, rfl⟩ := h
    exact ⟨rfl, rfl, rfl, rfl, rfl, rfl⟩
  | input d =>
    cases h
    exact ⟨rfl, rfl, rfl, rfl, rfl, rfl⟩
  | _ => exact hk.elim

theorem performHandshake_all : Does handshakeKinds Set.univ performHandshake := by
  have hlink : linkKinds ⊆ handshakeKinds := by
    intro k hk
    cases k with
    | quiet | input => exact hk
    | _ => exact hk.elim
  have hq : Kind.quiet ∈ handshakeKinds := trivial
  have hio : ∀ d, Kind.io d ∈ handshakeKinds := fun _ => trivial
  have hF : Passes (fun _ p => Does handshakeKinds Set.univ p) handshakeKinds Set.univ :=
    ⟨Does.pure, Does.bind, id⟩
  exact handshakeAttempts_passes hlink hF (fun desc => raspikeComSend_all hq (fun d _ => hio d) trivial)
    (fun desc => raspikeComFlush_all hq (fun d _ => hio d) trivial) _ _

/-- the mutexes of a handshake are given back -/
theorem performHandshake_leaves : Leaves (fun _ _ _ => True) noneHeld performHandshake noneHeld := by
  have hF : Passes (fun _ p => Leaves (fun _ _ _ => True) noneHeld p noneHeld) linkKinds ∅ :=
    ⟨Leaves.pure, Leaves.bind, fun hp => Leaves.of_all (fun _ _ _ _ => trivial)
      (Prog.All.mono (fun _ _ h => h) (fun _ h => h) hp)⟩
  exact handshakeAttempts_passes Set.Subset.rfl hF
    (fun desc buf => (raspikeComSend_sends rfl desc buf).mono fun _ _ _ _ => trivial)
    (fun desc => (raspikeComFlush_sends rfl desc).mono fun _ _ _ _ => trivial) _ _

theorem performHandshake_keeps {w w' : Solo} {r : Int} (h : Ends performHandshake w r w')
    (hfree : w.own = noneHeld) : w'.own = noneHeld ∧ SameLink w.mem w'.mem := by
  refine ⟨(performHandshake_leaves w r w' h hfree).1, ?_⟩
  have hsettles := settle_all (R := fun m => SameLink w.mem m) ?_ performHandshake_all
    ⟨rfl, rfl, rfl, rfl, rfl, rfl⟩
  · exact hsettles.ends r w' h
  · intro e f m hacc hm
    obtain ⟨k, hk, hstep⟩ := hacc m
    exact hm.trans (kept_of_touches hk hstep.touches)
end RaspikeArt
