import RaspikeArt.Protocol.Requests
import RaspikeArt.Protocol.Sequence
import RaspikeArt.Protocol.FramesRefine

/-!
# Requests, part 2: the code keeps to the machine, step by step

The logic `reqLogic` ties the machine to the port records and to the mutexes `request_mutex` and
`mutex` of the ports.  It takes for granted what the machines of lifetimes, sequence numbers and
frames say of the history.  The ghost of a thread:

* `port`, `request`   the port mutex and the request mutex it holds;
* `call`              the request it has under way, and what it knows of it;
* `seen`              what it has read of the port whose mutex it holds;
* `inside`, `sweep`   it is receiving; the ports its HELLO has still to reset;
* `took`, `left`      the descriptor is gone; the ports its shutdown has still to reset.
-/

set_option linter.unusedSectionVars false

namespace RaspikeArt
open Threads

/-- what a thread knows of its request -/
structure CallG where
  port : Port
  cmd : Byte
  sequence : U32
  /-- it is completed -/
  done : Bool := false
  /-- the result it has given up with -/
  quit : Option Int := none
  /-- the session has changed since its ACK -/
  stale : Bool := false
  /-- it was pending before the descriptor was taken -/
  early : Bool := false
  /-- it holds `fgSendMutex`, or has held it, for the send under way -/
  locked : Bool := false

structure ReqG where
  port : Option Port := none
  request : Option Port := none
  call : Option CallG := none
  seen : Option RPPortDevice := none
  inside : Bool := false
  sweep : Option (List Port) := none
  took : Bool := false
  left : Option (List Port) := none

/-- the part of a port record that the mutex of the port protects -/
def RPPortDevice.slot (d : RPPortDevice) : RPPortDevice := { d with device := .zero }

theorem RPPortDevice.slot_fields {d d' : RPPortDevice} (h : d'.slot = d.slot) :
    d'.pendingSequence = d.pendingSequence ∧ d'.ackSequence = d.ackSequence ∧
    d'.ackSession = d.ackSession ∧ d'.ackCmd = d.ackCmd ∧ d'.ackData = d.ackData ∧
    d'.pending = d.pending := by
  simpa [RPPortDevice.slot] using h

variable {T : Type} [DecidableEq T]

/-! ## what the port records hold -/

structure Request.Mirrors (st : Request T) (d : RPPortDevice) : Prop where
  pending : d.pending = st.done.isNone
  sequence : st.done = none → d.pendingSequence = st.sequence
  cleared : st.cleared = true → d.ackCmd = 0 ∧ d.ackData = 0 ∧ d.ackSequence = 0
  acked : ∀ session ackCmd ackData, st.done = some (.acked session ackCmd ackData) →
    st.cleared = false →
      d.ackCmd = ackCmd ∧ d.ackData = ackData ∧ d.ackSequence = st.sequence ∧ d.ackSession = session
  cancelled : ∀ session error, st.done = some (.cancelled session error) → st.cleared = false →
    d.ackCmd = -1 ∧ d.ackData = error

def SlotRel (o : Option (Request T)) (d : RPPortDevice) : Prop :=
  match o with
  | none => d.pending = false
  | some st => st.Mirrors d

theorem SlotRel.congr {o : Option (Request T)} {d d' : RPPortDevice} (h : SlotRel o d)
    (hd : d'.slot = d.slot) : SlotRel o d' := by
  obtain ⟨hpseq, hseq, hsess, hcmd, hdata, hpending⟩ := RPPortDevice.slot_fields hd
  cases o with
  | none => exact hpending.trans h
  | some st =>
    obtain ⟨h1, h2, h3, h4, h5⟩ := h
    constructor
    · rw [hpending]
      exact h1
    · rw [hpseq]
      exact h2
    · rw [hcmd, hdata, hseq]
      exact h3
    · rw [hcmd, hdata, hseq, hsess]
      exact h4
    · rw [hcmd, hdata]
      exact h5

/-- a request that is not completed is a pending port -/
theorem SlotRel.pending_iff {o : Option (Request T)} {d : RPPortDevice} (h : SlotRel o d) :
    d.pending = true ↔ ∃ st, o = some st ∧ st.done = none := by
  cases o with
  | none =>
    have hd : d.pending = false := h
    simp [hd]
  | some st =>
    have hd : d.pending = st.done.isNone := h.pending
    simp [hd]

/-! ## the invariant -/

structure Request.Known (st : Request T) (live : Bool) (t : T) (c : CallG) : Prop where
  thread : st.thread = t
  cmd : st.cmd = c.cmd
  sequence : st.sequence = c.sequence
  done : c.done = true → st.done ≠ none
  quit : st.gaveUp = c.quit
  stale : c.stale = true → st.stale = true
  early : c.early = true → st.early = true
  locked : c.locked = true → live = true → st.early = true

structure ReqLocal (a : Ports T) (life : Life T) (own : Mutex → Option T) (m : Mem) (t : T)
    (g : ReqG) : Prop where
  port : ∀ i, own (.port i) = some t ↔ g.port = some i
  request : ∀ i, own (.request i) = some t ↔ g.request = some i
  mine : ∀ i st, a.slot i = some st → st.thread = t → ∃ c, g.call = some c ∧ c.port = i
  call : ∀ c, g.call = some c →
    g.request = some c.port ∧ ∃ st, a.slot c.port = some st ∧ st.Known (life.lockedLive t) t c
  seen : ∀ d, g.seen = some d → ∃ i, g.port = some i ∧ d.slot = (m.gPortDevices i).slot
  inside : g.inside = true → t ∈ life.receivers
  sweep : ∀ is, g.sweep = some is → g.inside = true ∧ a.sweep = some is
  took : g.took = true → a.taken = true
  left : ∀ is, g.left = some is → ∀ i, i ∉ is → a.swept i = true

structure ReqInv (d₀ : Nat) (s₀ : U32) (rx : T) (w : World T Mutex Event Mem) (gs : T → ReqG) :
    Prop where
  legal : (requests T).Legal (.start s₀) w.trace
  session : w.mem.fgSessionId = (portsOf s₀ w.trace).session
  v2 : (portsOf s₀ w.trace).taken = false → w.mem.fgUseProtocolV2 = true
  slot : ∀ i, SlotRel ((portsOf s₀ w.trace).slot i) (w.mem.gPortDevices i)
  owner : ∀ i st, (portsOf s₀ w.trace).slot i = some st → w.own (.request i) = some st.thread
  sweep : (portsOf s₀ w.trace).sweep ≠ none → ∃ t, (gs t).sweep ≠ none
  only : ∀ t ∈ (lifeOf d₀ w.trace).receivers, t = rx
  thread : ∀ t, ReqLocal (portsOf s₀ w.trace) (lifeOf d₀ w.trace) w.own w.mem t (gs t)

/-- what the other machines say of the history -/
structure Before (d₀ : Nat) (s₀ : U32) (tr : Trace T) : Prop where
  life : (lifetime T d₀).Legal .start tr
  sequences : (sequences T).Legal .start tr
  frames : (framing T).Legal (.start s₀) tr

/-- a request that waits has sent its frame, and has seen its port pending -/
def ReqG.At (g : ReqG) : Place Mutex CondVar → Prop
  | .wait (.port i) (.port _) => ∃ c d, g.call = some c ∧ c.port = i ∧ c.early = true ∧
      g.port = some i ∧ g.seen = some d ∧ d.pending = true
  | .woken (.port i) => ∃ c, g.call = some c ∧ c.port = i ∧ c.early = true
  | _ => True

def reqLogic (T : Type) [DecidableEq T] (d₀ : Nat) (s₀ : U32) (rx : T) :
    Logic T Mutex CondVar Event Mem where
  G := ReqG
  K := fun w => Before d₀ s₀ w.trace
  I := ReqInv d₀ s₀ rx
  A := fun _ g => g.At

variable {d₀ : Nat} {s₀ : U32} {rx : T} {w : World T Mutex Event Mem} {gs : T → ReqG} {t : T}
  {g : ReqG}

theorem ReqInv.sound (h : ReqInv d₀ s₀ rx w gs) : (portsOf s₀ w.trace).Sound :=
  Ports.Sound.of_legal h.legal

/-! ## the machines read the same history -/

theorem session_eq (s₀ : U32) (tr : Trace T) :
    (framesOf s₀ tr).session = (portsOf s₀ tr).session := by
  induction tr with
  | nil => rfl
  | cons x tr ih =>
    obtain ⟨u, e⟩ := x
    cases e <;> first
      | exact ih
      | rfl

theorem taken_eq (d₀ : Nat) (s₀ : U32) (tr : Trace T) :
    (portsOf s₀ tr).taken = (lifeOf d₀ tr).taken := by
  induction tr with
  | nil => rfl
  | cons x tr ih =>
    obtain ⟨u, e⟩ := x
    cases e <;> first
      | exact ih
      | rfl

/-! ## what a step of one thread leaves of the others -/

/-- a request as another thread may change it -/
structure Request.Grows (st st' : Request T) : Prop where
  thread : st'.thread = st.thread
  cmd : st'.cmd = st.cmd
  sequence : st'.sequence = st.sequence
  done : st.done ≠ none → st'.done ≠ none
  gaveUp : st'.gaveUp = st.gaveUp
  stale : st.stale = true → st'.stale = true
  early : st'.early = st.early

theorem Request.Grows.refl (st : Request T) : st.Grows st := ⟨rfl, rfl, rfl, id, rfl, id, rfl⟩

theorem Ports.onSlot_grows {a : Ports T} {i : Port} {f : Request T → Request T}
    (hf : ∀ st, a.slot i = some st → st.Grows (f st)) (j : Port) (st : Request T)
    (h : a.slot j = some st) : ∃ st', (a.onSlot i f).slot j = some st' ∧ st.Grows st' := by
  by_cases hj : j = i
  · subst hj
    exact ⟨f st, by simp [Ports.onSlot, h], hf st h⟩
  · exact ⟨st, by simp [Ports.onSlot, hj, h], .refl st⟩

/-- the requests of a thread survive a step of another one -/
theorem Ports.next_grows {a : Ports T} {e : Event} (hok : a.Ok t e) {u : T} (hut : u ≠ t) (j : Port)
    (st : Request T) (h : a.slot j = some st) (hu : st.thread = u) :
    ∃ st', (a.next t e).slot j = some st' ∧ st.Grows st' := by
  cases e with
  | pend i cmd s =>
    have hj : j ≠ i := by
      rintro rfl
      rw [hok.1] at h
      cases h
    exact ⟨st, (Function.update_of_ne hj _ _).trans h, .refl st⟩
  | ack i s session ackCmd ackData =>
    refine Ports.onSlot_grows (fun _ _ => ?_) j st h
    exact ⟨rfl, rfl, rfl, nofun, rfl, id, rfl⟩
  | cancel i error =>
    refine Ports.onSlot_grows (fun _ _ => ?_) j st h
    exact ⟨rfl, rfl, rfl, nofun, rfl, id, rfl⟩
  | clear i =>
    refine Ports.onSlot_grows (fun _ _ => ?_) j st h
    exact ⟨rfl, rfl, rfl, id, rfl, id, rfl⟩
  | gaveUp i s r =>
    obtain ⟨st₀, h₀, ht, -⟩ := hok
    have hj : j ≠ i := by
      rintro rfl
      rw [h] at h₀
      cases h₀
      exact hut (hu.symm.trans ht)
    exact ⟨st, (Function.update_of_ne hj _ _).trans h, .refl st⟩
  | finish i cmd s completed b r =>
    obtain ⟨st₀, h₀, ht, -⟩ := hok
    have hj : j ≠ i := by
      rintro rfl
      rw [h] at h₀
      cases h₀
      exact hut (hu.symm.trans ht)
    exact ⟨st, (Function.update_of_ne hj _ _).trans h, .refl st⟩
  | frame port cmd s session =>
    have hne : st.thread ≠ t := by
      rw [hu]
      exact hut
    refine ⟨st, ?_, .refl st⟩
    show (a.slot j).map _ = some st
    rw [h, Option.map_some, if_neg hne]
  | session s =>
    refine ⟨{ st with stale := st.stale || st.outdated s }, ?_, ⟨rfl, rfl, rfl, id, rfl, ?_, rfl⟩⟩
    · show (a.slot j).map _ = _
      rw [h]
      rfl
    · intro hs
      show (st.stale || st.outdated s) = true
      rw [hs]
      rfl
  | _ => exact ⟨st, h, .refl st⟩

/-- a thread gets a request by its own steps only -/
theorem Ports.next_mine {a : Ports T} {e : Event} {u : T} (hut : u ≠ t) (j : Port)
    (st' : Request T) (h : (a.next t e).slot j = some st') (hu : st'.thread = u) :
    ∃ st, a.slot j = some st ∧ st.thread = u := by
  have honSlot : ∀ (i : Port) (f : Request T → Request T), (∀ st, (f st).thread = st.thread) →
      (a.onSlot i f).slot j = some st' → ∃ st, a.slot j = some st ∧ st.thread = u := by
    intro i f hf h
    rcases Ports.onSlot_some h with ⟨-, h⟩ | ⟨rfl, st₀, h₀, rfl⟩
    · exact ⟨st', h, hu⟩
    · exact ⟨st₀, h₀, (hf st₀).symm.trans hu⟩
  cases e with
  | pend i cmd s =>
    by_cases hj : j = i
    · subst hj
      simp only [Ports.next, Function.update_self, Option.some.injEq] at h
      subst h
      exact (hut hu.symm).elim
    · exact ⟨st', (Function.update_of_ne hj _ _).symm.trans h, hu⟩
  | ack | cancel | clear | gaveUp =>
    refine honSlot _ _ (fun _ => ?_) h
    rfl
  | finish i cmd s completed b r =>
    by_cases hj : j = i
    · subst hj
      simp [Ports.next] at h
    · exact ⟨st', (Function.update_of_ne hj _ _).symm.trans h, hu⟩
  | frame port cmd s session =>
    obtain ⟨st₀, h₀, rfl⟩ := Ports.mapSlots_some h
    refine ⟨st₀, h₀, ?_⟩
    split at hu
    · exact hu
    · exact hu
  | session s =>
    obtain ⟨st₀, h₀, rfl⟩ := Ports.mapSlots_some h
    exact ⟨st₀, h₀, hu⟩
  | _ => exact ⟨st', h, hu⟩

theorem Ports.next_taken {a : Ports T} {e : Event} (h : a.taken = true) :
    (a.next t e).taken = true := by
  cases e <;> first
    | exact h
    | rfl

theorem Ports.next_swept {a : Ports T} {e : Event} {i : Port} (h : a.swept i = true) :
    (a.next t e).swept i = true := by
  have hreset : ∀ (b : Ports T) (j : Port), b.swept i = true → (b.reset j).swept i = true := by
    intro b j hb
    by_cases hij : i = j
    · subst hij
      simp [Ports.reset, hb]
    · simpa [Ports.reset, hij] using hb
  cases e with
  | cancel j error => exact hreset _ j h
  | clear j => exact hreset _ j h
  | _ => exact h

theorem Life.next_other {l : Life T} {e : Event} {u : T} (hut : u ≠ t) :
    (u ∈ l.receivers → u ∈ (l.next t e).receivers) ∧ (l.next t e).lockedLive u = l.lockedLive u := by
  cases e with
  | receiverIn => exact ⟨fun h => Finset.mem_insert_of_mem h, rfl⟩
  | receiverOut => exact ⟨fun h => Finset.mem_erase.mpr ⟨hut, h⟩, rfl⟩
  | sendLocked => exact ⟨id, Function.update_of_ne hut _ _⟩
  | _ => exact ⟨id, rfl⟩

theorem ReqLocal.other {a a' : Ports T} {l l' : Life T} {own : Mutex → Option T} {m m' : Mem} {u : T}
    (h : ReqLocal a l own m u g)
    (hmine : ∀ i st', a'.slot i = some st' → st'.thread = u → ∃ st, a.slot i = some st ∧ st.thread = u)
    (hgrows : ∀ i st, a.slot i = some st → st.thread = u → ∃ st', a'.slot i = some st' ∧ st.Grows st')
    (hseen : ∀ i, own (.port i) = some u → (m'.gPortDevices i).slot = (m.gPortDevices i).slot)
    (hin : u ∈ l.receivers → u ∈ l'.receivers) (hlock : l'.lockedLive u = l.lockedLive u)
    (hsweep : g.sweep ≠ none → a'.sweep = a.sweep) (htaken : a.taken = true → a'.taken = true)
    (hswept : ∀ i, a.swept i = true → a'.swept i = true) : ReqLocal a' l' own m' u g where
  port := h.port
  request := h.request
  mine := fun i st' hst' hu => by
    obtain ⟨st, hst, hu⟩ := hmine i st' hst' hu
    exact h.mine i st hst hu
  call := fun c hcall => by
    obtain ⟨hreq, st, hst, hk⟩ := h.call c hcall
    obtain ⟨st', hst', hg⟩ := hgrows c.port st hst hk.thread
    refine ⟨hreq, st', hst', ⟨hg.thread.trans hk.thread, hg.cmd.trans hk.cmd,
      hg.sequence.trans hk.sequence, fun hd => hg.done (hk.done hd), hg.gaveUp.trans hk.quit,
      fun hs => hg.stale (hk.stale hs), fun he => hg.early.trans (hk.early he), fun hl hlive => ?_⟩⟩
    rw [hlock] at hlive
    exact hg.early.trans (hk.locked hl hlive)
  seen := fun d hd => by
    obtain ⟨i, hi, hdi⟩ := h.seen d hd
    exact ⟨i, hi, hdi.trans (hseen i ((h.port i).mpr hi)).symm⟩
  inside := fun hi => hin (h.inside hi)
  sweep := fun is his => by
    obtain ⟨hi, ha⟩ := h.sweep is his
    refine ⟨hi, (hsweep ?_).trans ha⟩
    rw [his]
    exact nofun
  took := fun ht => htaken (h.took ht)
  left := fun is his i hi => hswept i (h.left is his i hi)

/-! ## the general step -/

theorem ReqInv.step (h : ReqInv d₀ s₀ rx w gs) {m : Mem} {x : Option Event} {k : ReqG}
    (hok : ∀ e, x = some e → (portsOf s₀ w.trace).Ok t e)
    (hsess : m.fgSessionId = (portsOf s₀ (World.push t x w.trace)).session)
    (hv2 : (portsOf s₀ (World.push t x w.trace)).taken = false → m.fgUseProtocolV2 = true)
    (hslot : ∀ i, SlotRel ((portsOf s₀ (World.push t x w.trace)).slot i) (m.gPortDevices i))
    (hports : ∀ i, w.own (.port i) ≠ some t →
      (m.gPortDevices i).slot = (w.mem.gPortDevices i).slot)
    (howner : ∀ i st, (portsOf s₀ (World.push t x w.trace)).slot i = some st →
      w.own (.request i) = some st.thread)
    (hsweep : (portsOf s₀ (World.push t x w.trace)).sweep ≠ none →
      ∃ u, (Function.update gs t k u).sweep ≠ none)
    (hother : ∀ u, u ≠ t → (gs u).sweep ≠ none →
      (portsOf s₀ (World.push t x w.trace)).sweep = (portsOf s₀ w.trace).sweep)
    (honly : t ∈ (lifeOf d₀ (World.push t x w.trace)).receivers → t = rx)
    (ht : ReqLocal (portsOf s₀ (World.push t x w.trace)) (lifeOf d₀ (World.push t x w.trace)) w.own
      m t k) :
    ReqInv d₀ s₀ rx { w with mem := m, trace := World.push t x w.trace } (Function.update gs t k) := by
  have hothers : ∀ u, u ≠ t → ReqLocal (portsOf s₀ (World.push t x w.trace))
      (lifeOf d₀ (World.push t x w.trace)) w.own m u (gs u) := by
    intro u hut
    have hl := h.thread u
    have hseen : ∀ i, w.own (.port i) = some u →
        (m.gPortDevices i).slot = (w.mem.gPortDevices i).slot := by
      intro i hi
      refine hports i ?_
      rw [hi]
      simpa using hut
    cases x with
    | none =>
      exact hl.other (fun _ st' h hu => ⟨st', h, hu⟩) (fun _ st h _ => ⟨st, h, .refl st⟩) hseen id
        rfl (fun _ => rfl) id fun _ => id
    | some e =>
      exact hl.other (Ports.next_mine hut) (Ports.next_grows (hok e rfl) hut) hseen
        (Life.next_other hut).1 (Life.next_other hut).2 (hother u hut) Ports.next_taken
        fun _ => Ports.next_swept
  refine ⟨?_, hsess, hv2, hslot, howner, hsweep, fun u hu => ?_, fun u => ?_⟩
  · cases x with
    | none => exact h.legal
    | some e => exact ⟨hok e rfl, h.legal⟩
  · by_cases hut : u = t
    · subst hut
      exact honly hu
    · refine h.only u ?_
      cases x with
      | none => exact hu
      | some e =>
        cases e with
        | receiverIn => exact (Finset.mem_insert.mp hu).resolve_left hut
        | receiverOut => exact Finset.mem_of_mem_erase hu
        | _ => exact hu
  · by_cases hut : u = t
    · subst hut
      rw [Function.update_self]
      exact ht
    · rw [Function.update_of_ne hut]
      exact hothers u hut

/-- a plain read from which a thread learns something -/
theorem ReqInv.learn (h : ReqInv d₀ s₀ rx w gs) {g' : ReqG} (hsweep : g'.sweep = (gs t).sweep)
    (ht : ReqLocal (portsOf s₀ w.trace) (lifeOf d₀ w.trace) w.own w.mem t g') :
    ReqInv d₀ s₀ rx w (Function.update gs t g') := by
  refine h.step (t := t) (m := w.mem) (x := none) nofun h.session h.v2 h.slot (fun _ _ => rfl)
    h.owner (fun hs => ?_) (fun _ _ _ => rfl) (h.only t) ht
  obtain ⟨u, hu⟩ := h.sweep hs
  refine ⟨u, ?_⟩
  by_cases hut : u = t
  · subst hut
    rw [Function.update_self, hsweep]
    exact hu
  · rw [Function.update_of_ne hut]
    exact hu

/-- the globals the machine is about -/
structure SameReq (m m' : Mem) : Prop where
  session : m'.fgSessionId = m.fgSessionId
  v2 : m'.fgUseProtocolV2 = m.fgUseProtocolV2
  ports : ∀ i, (m'.gPortDevices i).slot = (m.gPortDevices i).slot

/-- a label that neither machine sees -/
structure Unseen (t : T) (e : Event) : Prop where
  ports : ∀ a : Ports T, a.Ok t e ∧ a.next t e = a
  life : ∀ l : Life T, (l.next t e).receivers = l.receivers ∧ (l.next t e).lockedLive = l.lockedLive

theorem ReqLocal.same {a : Ports T} {l l' : Life T} {own : Mutex → Option T} {m m' : Mem}
    (h : ReqLocal a l own m t g) (hm : ∀ i, (m'.gPortDevices i).slot = (m.gPortDevices i).slot)
    (hl : l'.receivers = l.receivers ∧ l'.lockedLive = l.lockedLive) : ReqLocal a l' own m' t g := by
  refine h.other (fun _ st' h hu => ⟨st', h, hu⟩) (fun _ st h _ => ⟨st, h, .refl st⟩)
    (fun i _ => hm i) (fun h => ?_) ?_ (fun _ => rfl) id fun _ => id
  · rw [hl.1]
    exact h
  · rw [hl.2]

theorem ReqInv.same (h : ReqInv d₀ s₀ rx w gs) {m : Mem} {x : Option Event} (hm : SameReq w.mem m)
    (hx : ∀ e, x = some e → Unseen t e) :
    ReqInv d₀ s₀ rx { w with mem := m, trace := World.push t x w.trace } gs := by
  have hrep : portsOf s₀ (World.push t x w.trace) = portsOf s₀ w.trace := by
    cases x with
    | none => rfl
    | some e => exact ((hx e rfl).ports _).2
  have hlife : (lifeOf d₀ (World.push t x w.trace)).receivers = (lifeOf d₀ w.trace).receivers ∧
      (lifeOf d₀ (World.push t x w.trace)).lockedLive = (lifeOf d₀ w.trace).lockedLive := by
    cases x with
    | none => exact ⟨rfl, rfl⟩
    | some e => exact (hx e rfl).life _
  have hstep := h.step (t := t) (m := m) (x := x) (k := gs t)
    (fun e he => ((hx e he).ports _).1) (by rw [hrep, hm.session]; exact h.session)
    (by rw [hrep, hm.v2]; exact h.v2) (fun i => by rw [hrep]; exact (h.slot i).congr (hm.ports i))
    (fun i _ => hm.ports i) (by rw [hrep]; exact h.owner)
    (by rw [hrep, Function.update_eq_self]; exact h.sweep) (fun _ _ _ => by rw [hrep])
    (by rw [hlife.1]; exact h.only t) (by rw [hrep]; exact (h.thread t).same hm.ports hlife)
  rwa [Function.update_eq_self] at hstep

/-! ## mutexes -/

theorem ReqInv.relock (h : ReqInv d₀ s₀ rx w gs) {own : Mutex → Option T} {g' : ReqG}
    (hown : ∀ u, u ≠ t → ∀ i, (own (.port i) = some u ↔ w.own (.port i) = some u) ∧
      (own (.request i) = some u ↔ w.own (.request i) = some u))
    (howner : ∀ i st, (portsOf s₀ w.trace).slot i = some st → st.thread = t →
      own (.request i) = some t)
    (hsweep : g'.sweep = (gs t).sweep)
    (ht : ReqLocal (portsOf s₀ w.trace) (lifeOf d₀ w.trace) own w.mem t g') :
    ReqInv d₀ s₀ rx { w with own := own } (Function.update gs t g') := by
  refine ⟨h.legal, h.session, h.v2, h.slot, fun i st hst => ?_, fun hs => ?_, h.only, fun u => ?_⟩
  · by_cases htt : st.thread = t
    · rw [htt]
      exact howner i st hst htt
    · exact ((hown _ htt i).2).mpr (h.owner i st hst)
  · obtain ⟨u, hu⟩ := h.sweep hs
    refine ⟨u, ?_⟩
    by_cases hut : u = t
    · subst hut
      rw [Function.update_self, hsweep]
      exact hu
    · rw [Function.update_of_ne hut]
      exact hu
  · by_cases hut : u = t
    · subst hut
      rw [Function.update_self]
      exact ht
    · rw [Function.update_of_ne hut]
      have hl := h.thread u
      exact { hl with
        port := fun i => (hown u hut i).1.trans (hl.port i)
        request := fun i => (hown u hut i).2.trans (hl.request i) }

/-- a mutex that `t` takes or gives back changes nothing for another thread -/
theorem update_own_iff {own : Mutex → Option T} {l l' : Mutex} {o : Option T} {u : T}
    (hut : u ≠ t) (ho : o = none ∧ own l = some t ∨ o = some t ∧ own l = none) :
    Function.update own l o l' = some u ↔ own l' = some u := by
  by_cases hl : l' = l
  · subst hl
    rw [Function.update_self]
    rcases ho with ⟨rfl, ho⟩ | ⟨rfl, ho⟩
    · simp [ho, Ne.symm hut]
    · simp [ho, Ne.symm hut]
  · rw [Function.update_of_ne hl]

theorem ReqInv.acquire_port (h : ReqInv d₀ s₀ rx w gs) {i : Port} (hfree : w.own (.port i) = none)
    (hg : (gs t).port = none) :
    ReqInv d₀ s₀ rx (w.acquire t (.port i)) (Function.update gs t { gs t with port := some i }) := by
  have hl := h.thread t
  refine h.relock (fun u hut j => ⟨update_own_iff hut (.inr ⟨rfl, hfree⟩),
    update_own_iff hut (.inr ⟨rfl, hfree⟩)⟩) (fun j st hst htt => ?_) rfl ?_
  · rw [← htt]
    exact h.owner j st hst
  · have hnone : ∀ j, w.own (.port j) ≠ some t := fun j hj => by
      rw [(hl.port j).mp hj] at hg
      cases hg
    refine { hl with port := fun j => ?_, seen := fun d hd => ?_ }
    · by_cases hji : j = i
      · subst hji
        simp
      · simp [hji, Ne.symm hji, hnone j]
    · obtain ⟨j, hj, -⟩ := hl.seen d hd
      rw [hg] at hj
      cases hj

theorem ReqInv.release_port (h : ReqInv d₀ s₀ rx w gs) {i : Port} (hg : (gs t).port = some i) :
    ReqInv d₀ s₀ rx (w.release (.port i))
      (Function.update gs t { gs t with port := none, seen := none }) := by
  have hl := h.thread t
  have hown := (hl.port i).mpr hg
  refine h.relock (fun u hut j => ⟨update_own_iff hut (.inl ⟨rfl, hown⟩),
    update_own_iff hut (.inl ⟨rfl, hown⟩)⟩) (fun j st hst htt => ?_) rfl ?_
  · rw [← htt]
    exact h.owner j st hst
  · refine { hl with port := fun j => ?_, seen := nofun }
    by_cases hji : j = i
    · subst hji
      simp
    · have hne : w.own (.port j) ≠ some t := fun hj => by
        have := (hl.port j).mp hj
        rw [hg] at this
        cases this
        exact hji rfl
      simp [hji, hne]

theorem ReqInv.acquire_request (h : ReqInv d₀ s₀ rx w gs) {i : Port}
    (hfree : w.own (.request i) = none) (hg : (gs t).request = none) :
    ReqInv d₀ s₀ rx (w.acquire t (.request i))
      (Function.update gs t { gs t with request := some i }) := by
  have hl := h.thread t
  have hnone : ∀ j, w.own (.request j) ≠ some t := fun j hj => by
    rw [(hl.request j).mp hj] at hg
    cases hg
  refine h.relock (fun u hut j => ⟨update_own_iff hut (.inr ⟨rfl, hfree⟩),
    update_own_iff hut (.inr ⟨rfl, hfree⟩)⟩) (fun j st hst htt => ?_) rfl ?_
  · have hj := h.owner j st hst
    rw [htt] at hj
    exact (hnone j hj).elim
  · refine { hl with request := fun j => ?_, call := fun c hc => ?_ }
    · by_cases hji : j = i
      · subst hji
        simp
      · simp [hji, Ne.symm hji, hnone j]
    · have hj := (hl.call c hc).1
      rw [hg] at hj
      cases hj

theorem ReqInv.release_request (h : ReqInv d₀ s₀ rx w gs) {i : Port} (hg : (gs t).request = some i)
    (hcall : (gs t).call = none) :
    ReqInv d₀ s₀ rx (w.release (.request i))
      (Function.update gs t { gs t with request := none }) := by
  have hl := h.thread t
  have hown := (hl.request i).mpr hg
  refine h.relock (fun u hut j => ⟨update_own_iff hut (.inl ⟨rfl, hown⟩),
    update_own_iff hut (.inl ⟨rfl, hown⟩)⟩) (fun j st hst htt => ?_) rfl ?_
  · obtain ⟨c, hc, -⟩ := hl.mine j st hst htt
    rw [hcall] at hc
    cases hc
  · refine { hl with
      request := fun j => ?_
      call := fun c hc => by rw [hcall] at hc; cases hc }
    by_cases hji : j = i
    · subst hji
      simp
    · have hne : w.own (.request j) ≠ some t := fun hj => by
        have := (hl.request j).mp hj
        rw [hg] at this
        cases this
        exact hji rfl
      simp [hji, hne]

/-! ## the labels of the machine -/

/-- the port records after a change of one port by the thread that holds its mutex -/
theorem ReqInv.setPort (h : ReqInv d₀ s₀ rx w gs) {i : Port} {f : RPPortDevice → RPPortDevice}
    {k : Port → Option (Request T)} (hport : (gs t).port = some i)
    (hi : SlotRel (k i) (f (w.mem.gPortDevices i)))
    (hj : ∀ j, j ≠ i → k j = (portsOf s₀ w.trace).slot j) :
    (∀ j, SlotRel (k j) ((w.mem.setPort i f).gPortDevices j)) ∧
    ∀ j, w.own (.port j) ≠ some t →
      ((w.mem.setPort i f).gPortDevices j).slot = (w.mem.gPortDevices j).slot := by
  refine ⟨fun j => ?_, fun j hown => ?_⟩
  · by_cases hji : j = i
    · subst hji
      rw [setPort_self]
      exact hi
    · rw [setPort_of_ne _ _ hji, hj j hji]
      exact h.slot j
  · have hji : j ≠ i := by
      rintro rfl
      exact hown (((h.thread t).port j).mpr hport)
    rw [setPort_of_ne _ _ hji]

/-- the sweep, when neither it nor the ghost of it moves -/
theorem ReqInv.still_sweep (h : ReqInv d₀ s₀ rx w gs) {g' : ReqG} (hg : g'.sweep = (gs t).sweep)
    (hs : (portsOf s₀ w.trace).sweep ≠ none) : ∃ u, (Function.update gs t g' u).sweep ≠ none := by
  obtain ⟨u, hu⟩ := h.sweep hs
  refine ⟨u, ?_⟩
  by_cases hut : u = t
  · subst hut
    rw [Function.update_self, hg]
    exact hu
  · rw [Function.update_of_ne hut]
    exact hu

theorem ReqInv.pend (h : ReqInv d₀ s₀ rx w gs) {i : Port} {cmd : Byte} {s : U32}
    (hport : (gs t).port = some i) (hreq : (gs t).request = some i) (hcall : (gs t).call = none)
    (hK : Before d₀ s₀ ((t, .pend i cmd s) :: w.trace)) :
    ReqInv d₀ s₀ rx (w.act t (fun _ => some (.pend i cmd s)) fun m => ((), m.setPort i fun d =>
      { d with pending := true, pendingSequence := s, ackSequence := 0, ackSession := 0,
               ackCmd := 0, ackData := 0 }))
      (Function.update gs t
        { gs t with call := some { port := i, cmd := cmd, sequence := s }, seen := none }) := by
  have hl := h.thread t
  have hnot : ∀ j st, (portsOf s₀ w.trace).slot j = some st → st.thread ≠ t := by
    intro j st hst htt
    obtain ⟨c, hc, -⟩ := hl.mine j st hst htt
    rw [hcall] at hc
    cases hc
  have hfree : (portsOf s₀ w.trace).slot i = none := by
    cases hslot : (portsOf s₀ w.trace).slot i with
    | none => rfl
    | some st =>
      have hown := h.owner i st hslot
      rw [(hl.request i).mpr hreq] at hown
      cases hown
      exact (hnot i st hslot rfl).elim
  have hzero : s ≠ 0 := requested_ne_zero hK.sequences (s := s) List.mem_cons_self
  have hself : ((portsOf s₀ w.trace).next t (.pend i cmd s)).slot i
      = some ⟨t, cmd, s, !(portsOf s₀ w.trace).taken, none, false, false, none, []⟩ :=
    Function.update_self ..
  have hother : ∀ j, j ≠ i → ((portsOf s₀ w.trace).next t (.pend i cmd s)).slot j
      = (portsOf s₀ w.trace).slot j := fun j hj => Function.update_of_ne hj _ _
  have hmem := h.setPort (t := t) (i := i) (f := fun d =>
      { d with pending := true, pendingSequence := s, ackSequence := 0, ackSession := 0,
               ackCmd := 0, ackData := 0 })
    (k := ((portsOf s₀ w.trace).next t (.pend i cmd s)).slot) hport
    (by rw [hself]; exact ⟨rfl, fun _ => rfl, nofun, nofun, nofun⟩) hother
  refine h.step (x := some (.pend i cmd s)) ?_ h.session h.v2 hmem.1 hmem.2 ?_
    (fun hs => h.still_sweep rfl hs) (fun _ _ _ => rfl) (h.only t) ?_
  · rintro _ ⟨⟩
    exact ⟨hfree, hzero⟩
  · intro j st hst
    by_cases hji : j = i
    · subst hji
      have hst' := hself.symm.trans hst
      cases hst'
      exact (hl.request j).mpr hreq
    · exact h.owner j st ((hother j hji).symm.trans hst)
  · refine { hl with mine := fun j st hst htt => ?_, call := fun c hc => ?_, seen := nofun }
    · by_cases hji : j = i
      · exact ⟨_, rfl, hji.symm⟩
      · exact (hnot j st ((hother j hji).symm.trans hst) htt).elim
    · cases hc
      exact ⟨hreq, _, hself, rfl, rfl, rfl, nofun, rfl, nofun, nofun, nofun⟩

/-- the request of a thread -/
theorem ReqInv.mine (h : ReqInv d₀ s₀ rx w gs) {c : CallG} (hc : (gs t).call = some c) :
    ∃ st, (portsOf s₀ w.trace).slot c.port = some st ∧ st.Known ((lifeOf d₀ w.trace).lockedLive t) t c ∧
      st.Sound (portsOf s₀ w.trace) c.port ∧ st.Mirrors (w.mem.gPortDevices c.port) := by
  obtain ⟨-, st, hst, hk⟩ := (h.thread t).call c hc
  have hslot := h.slot c.port
  rw [hst] at hslot
  exact ⟨st, hst, hk, h.sound.slot c.port st hst, hslot⟩

theorem ReqInv.gaveUp (h : ReqInv d₀ s₀ rx w gs) {c : CallG} (hc : (gs t).call = some c)
    (hquit : c.quit = none) (r : Int) :
    ReqInv d₀ s₀ rx (w.act t (fun _ => some (.gaveUp c.port c.sequence r)) fun m => ((), m))
      (Function.update gs t { gs t with call := some { c with quit := some r } }) := by
  have hl := h.thread t
  obtain ⟨hreq, -⟩ := hl.call c hc
  obtain ⟨st, hst, hk, -, hmirrors⟩ := h.mine hc
  have hself : ((portsOf s₀ w.trace).next t (.gaveUp c.port c.sequence r)).slot c.port
      = some { st with gaveUp := some r } := by
    show Function.update _ _ _ _ = _
    rw [Function.update_self, hst]
    rfl
  have hother : ∀ j, j ≠ c.port → ((portsOf s₀ w.trace).next t (.gaveUp c.port c.sequence r)).slot j
      = (portsOf s₀ w.trace).slot j := fun j hj => Function.update_of_ne hj _ _
  refine h.step (x := some (.gaveUp c.port c.sequence r)) ?_ h.session h.v2 (fun j => ?_)
    (fun _ _ => rfl) ?_ (fun hs => h.still_sweep rfl hs) (fun _ _ _ => rfl) (h.only t) ?_
  · rintro _ ⟨⟩
    exact ⟨st, hst, hk.thread, hk.sequence, hk.quit.trans hquit⟩
  · by_cases hj : j = c.port
    · subst hj
      show SlotRel (((portsOf s₀ w.trace).next t (.gaveUp c.port c.sequence r)).slot _) _
      rw [hself]
      exact ⟨hmirrors.pending, hmirrors.sequence, hmirrors.cleared, hmirrors.acked,
        hmirrors.cancelled⟩
    · show SlotRel (((portsOf s₀ w.trace).next t (.gaveUp c.port c.sequence r)).slot j) _
      rw [hother j hj]
      exact h.slot j
  · intro j st' hst'
    by_cases hj : j = c.port
    · subst hj
      cases hself.symm.trans hst'
      exact h.owner _ st hst
    · exact h.owner j st' ((hother j hj).symm.trans hst')
  · refine { hl with mine := fun j st' hst' htt => ?_, call := fun c' hc' => ?_ }
    · by_cases hj : j = c.port
      · exact ⟨_, rfl, hj.symm⟩
      · obtain ⟨c', hc', hport⟩ := hl.mine j st' ((hother j hj).symm.trans hst') htt
        rw [hc] at hc'
        cases hc'
        exact (hj hport.symm).elim
    · cases hc'
      exact ⟨hreq, _, hself, hk.thread, hk.cmd, hk.sequence, hk.done, rfl, hk.stale, hk.early,
        hk.locked⟩

/-- the final section ends the request -/
theorem ReqInv.finish (h : ReqInv d₀ s₀ rx w gs) {c : CallG} {completed : Bool} {b : Branch} {r : Int}
    (hc : (gs t).call = some c) (hport : (gs t).port = some c.port)
    (hcompleted : completed = c.quit.isNone)
    (hreturns : ∀ st, (portsOf s₀ w.trace).slot c.port = some st →
      st.Returns (portsOf s₀ w.trace).taken b r) :
    ReqInv d₀ s₀ rx (w.act t (fun _ => some (.finish c.port c.cmd c.sequence completed b r))
        fun m => ((), m.setPort c.port fun d => { d with pending := false }))
      (Function.update gs t { gs t with call := none, seen := none, took := false }) := by
  have hl := h.thread t
  obtain ⟨st, hst, hk, -, hmirrors⟩ := h.mine hc
  have hself : ((portsOf s₀ w.trace).next t (.finish c.port c.cmd c.sequence completed b r)).slot
      c.port = none := Function.update_self ..
  have hother : ∀ j, j ≠ c.port → ((portsOf s₀ w.trace).next t
      (.finish c.port c.cmd c.sequence completed b r)).slot j = (portsOf s₀ w.trace).slot j :=
    fun j hj => Function.update_of_ne hj _ _
  have hmem := h.setPort (t := t) (f := fun d => { d with pending := false })
    (k := ((portsOf s₀ w.trace).next t (.finish c.port c.cmd c.sequence completed b r)).slot)
    hport (by rw [hself]; rfl) hother
  have hsome : ∀ j st', ((portsOf s₀ w.trace).next t
      (.finish c.port c.cmd c.sequence completed b r)).slot j = some st' →
      j ≠ c.port ∧ (portsOf s₀ w.trace).slot j = some st' := by
    intro j st' hst'
    have hj : j ≠ c.port := by
      rintro rfl
      rw [hself] at hst'
      cases hst'
    exact ⟨hj, (hother j hj).symm.trans hst'⟩
  refine h.step (x := some (.finish c.port c.cmd c.sequence completed b r)) ?_ h.session h.v2
    hmem.1 hmem.2 (fun j st' hst' => h.owner j st' (hsome j st' hst').2)
    (fun hs => h.still_sweep rfl hs) (fun _ _ _ => rfl) (h.only t) ?_
  · rintro _ ⟨⟩
    refine ⟨st, hst, hk.thread, hk.cmd, hk.sequence, ?_, hreturns st hst⟩
    rw [hcompleted, hk.quit]
  · refine { hl with mine := fun j st' hst' htt => ?_, call := nofun, seen := nofun, took := nofun }
    obtain ⟨hj, hold⟩ := hsome j st' hst'
    obtain ⟨c', hc', hport'⟩ := hl.mine j st' hold htt
    rw [hc] at hc'
    cases hc'
    exact (hj hport'.symm).elim

/-- a request changed by the thread that holds the mutex of its port: what `t` knows of its own -/
theorem ReqInv.own_call (h : ReqInv d₀ s₀ rx w gs) {i : Port} {f : Request T → Request T}
    {slot' : Port → Option (Request T)}
    (hslot' : slot' = Function.update (portsOf s₀ w.trace).slot i
      (((portsOf s₀ w.trace).slot i).map f))
    (hf : ∀ st : Request T, st.Grows (f st)) {c : CallG} (hc : (gs t).call = some c) :
    ∃ st, slot' c.port = some st ∧ st.Known ((lifeOf d₀ w.trace).lockedLive t) t c := by
  obtain ⟨st, hst, hk, -⟩ := h.mine hc
  subst hslot'
  by_cases hi : c.port = i
  · rw [hi] at hst ⊢
    have hg := hf st
    refine ⟨f st, by rw [Function.update_self, hst]; rfl, hg.thread.trans hk.thread,
      hg.cmd.trans hk.cmd, hg.sequence.trans hk.sequence, fun hd => hg.done (hk.done hd),
      hg.gaveUp.trans hk.quit, fun hs => hg.stale (hk.stale hs),
      fun he => hg.early.trans (hk.early he), fun hl hlive => hg.early.trans (hk.locked hl hlive)⟩
  · exact ⟨st, by rw [Function.update_of_ne hi, hst], hk⟩

theorem slot_update_some {slot : Port → Option (Request T)} {i j : Port}
    {f : Request T → Request T} {st' : Request T}
    (h : Function.update slot i ((slot i).map f) j = some st') :
    ∃ st, slot j = some st ∧ (st' = st ∨ st' = f st) := by
  by_cases hj : j = i
  · subst hj
    rw [Function.update_self] at h
    obtain ⟨st, hst, rfl⟩ := Option.map_eq_some_iff.mp h
    exact ⟨st, hst, .inr rfl⟩
  · rw [Function.update_of_ne hj] at h
    exact ⟨st', h, .inl rfl⟩

/-- the requests of the ports, after a change of the one whose port mutex `t` holds -/
theorem ReqInv.slot_local (h : ReqInv d₀ s₀ rx w gs) {i : Port} {f : Request T → Request T}
    (hf : ∀ st : Request T, st.Grows (f st)) :
    (∀ j st', Function.update (portsOf s₀ w.trace).slot i
        (((portsOf s₀ w.trace).slot i).map f) j = some st' →
      w.own (.request j) = some st'.thread) ∧
    ∀ j st', Function.update (portsOf s₀ w.trace).slot i
        (((portsOf s₀ w.trace).slot i).map f) j = some st' → st'.thread = t →
      ∃ c, (gs t).call = some c ∧ c.port = j := by
  have hsame : ∀ j st', Function.update (portsOf s₀ w.trace).slot i
      (((portsOf s₀ w.trace).slot i).map f) j = some st' →
      ∃ st, (portsOf s₀ w.trace).slot j = some st ∧ st'.thread = st.thread := by
    intro j st' hst'
    obtain ⟨st, hst, rfl | rfl⟩ := slot_update_some hst'
    · exact ⟨st', hst, rfl⟩
    · exact ⟨st, hst, (hf st).thread⟩
  constructor
  · intro j st' hst'
    obtain ⟨st, hst, hth⟩ := hsame j st' hst'
    rw [hth]
    exact h.owner j st hst
  · intro j st' hst' htt
    obtain ⟨st, hst, hth⟩ := hsame j st' hst'
    exact (h.thread t).mine j st hst (hth.symm.trans htt)

/-- an ACK is accepted -/
theorem ReqInv.ack (h : ReqInv d₀ s₀ rx w gs) {i : Port} {d : RPPortDevice} {s session : U32}
    {ackCmd ackData : Int} (hport : (gs t).port = some i) (hseen : (gs t).seen = some d)
    (hpending : d.pending = true) (hs : s = d.pendingSequence) (hpos : 0 ≤ ackCmd)
    (hK : Before d₀ s₀ ((t, .ack i s session ackCmd ackData) :: w.trace)) :
    ReqInv d₀ s₀ rx (w.act t (fun _ => some (.ack i s session ackCmd ackData)) fun m =>
        ((), m.setPort i fun d =>
          { d with ackCmd := ackCmd, ackData := ackData, ackSequence := s,
                   ackSession := session, pending := false }))
      (Function.update gs t { gs t with seen := none }) := by
  have hl := h.thread t
  obtain ⟨j, hj, hd⟩ := hl.seen d hseen
  rw [hport] at hj
  cases hj
  obtain ⟨hpseq, -, -, -, -, hpend⟩ := RPPortDevice.slot_fields hd
  obtain ⟨st, hst, hnone⟩ := (h.slot i).pending_iff.mp (hpend.symm.trans hpending)
  have hmirrors : st.Mirrors (w.mem.gPortDevices i) := by
    have := h.slot i
    rwa [hst] at this
  have hseq : s = st.sequence := hs.trans (hpseq.trans (hmirrors.sequence hnone))
  have hsound := h.sound.slot i st hst
  have hcurrent : session = (portsOf s₀ w.trace).session :=
    hK.frames.1.1.trans (session_eq s₀ w.trace)
  have hf : ∀ st : Request T, st.Grows { st with done := some (.acked session ackCmd ackData) } :=
    fun st => ⟨rfl, rfl, rfl, nofun, rfl, id, rfl⟩
  have hmem := h.setPort (t := t) (i := i) (f := fun d =>
      { d with ackCmd := ackCmd, ackData := ackData, ackSequence := s,
               ackSession := session, pending := false })
    (k := ((portsOf s₀ w.trace).next t (.ack i s session ackCmd ackData)).slot) hport ?_
    fun j hj => Function.update_of_ne hj _ _
  · have hslots := h.slot_local (t := t) (i := i) hf
    refine h.step (x := some (.ack i s session ackCmd ackData)) ?_ h.session h.v2 hmem.1 hmem.2
      hslots.1 (fun hs => h.still_sweep rfl hs) (fun _ _ _ => rfl) (h.only t) ?_
    · rintro _ ⟨⟩
      exact ⟨hcurrent, hpos, st, hst, hnone, hseq⟩
    · refine { hl with mine := hslots.2, call := fun c hc => ?_, seen := nofun }
      exact ⟨(hl.call c hc).1, h.own_call rfl hf hc⟩
  · have hself : ((portsOf s₀ w.trace).next t (.ack i s session ackCmd ackData)).slot i
        = some { st with done := some (.acked session ackCmd ackData) } := by
      show Function.update _ _ _ _ = _
      rw [Function.update_self, hst]
      rfl
    rw [hself]
    refine ⟨rfl, nofun, fun hcl => ?_, fun _ _ _ heq _ => ?_, nofun⟩
    · exact (hsound.cleared hcl hnone).elim
    · cases heq
      exact ⟨rfl, rfl, hseq, rfl⟩

/-- the next reset of a port, by a HELLO or by a shutdown; what becomes of the ghost -/
inductive ReqG.Resetting (g : ReqG) (i : Port) : Int → ReqG → Prop where
  | hello (is : List Port) (h : g.sweep = some (i :: is)) :
      Resetting g i (-ESTALE) { g with sweep := some is, seen := none }
  | shutdown (is : List Port) (h : g.sweep = none) (ht : g.took = true) (hl : g.left = some (i :: is)) :
      Resetting g i (-ENOTCONN) { g with left := some is, seen := none }

/-- once the connection is taken nobody receives, so that no HELLO is under way -/
theorem ReqInv.taken_sweep (h : ReqInv d₀ s₀ rx w gs)
    (hlife : (lifetime T d₀).Legal .start w.trace) (ht : (portsOf s₀ w.trace).taken = true) :
    (portsOf s₀ w.trace).sweep = none := by
  by_contra hs
  obtain ⟨u, hu⟩ := h.sweep hs
  obtain ⟨is, his⟩ := Option.ne_none_iff_exists'.mp hu
  have hin := (h.thread u).inside ((h.thread u).sweep is his).1
  have hfalse := (Life.Sound.of_legal hlife).live ⟨u, hin⟩
  rw [← taken_eq d₀ s₀, ht] at hfalse
  cases hfalse

/-- only the receiver sweeps -/
theorem ReqInv.one_sweep (h : ReqInv d₀ s₀ rx w gs) {u : T} (ht : (gs t).inside = true)
    (hu : (gs u).sweep ≠ none) : u = t := by
  obtain ⟨is, his⟩ := Option.ne_none_iff_exists'.mp hu
  have hin := (h.thread u).inside ((h.thread u).sweep is his).1
  exact (h.only u hin).trans (h.only t ((h.thread t).inside ht)).symm

theorem ReqInv.resets (h : ReqInv d₀ s₀ rx w gs) (hlife : (lifetime T d₀).Legal .start w.trace)
    {i : Port} {error : Int} {g' : ReqG} (hg : (gs t).Resetting i error g') :
    (portsOf s₀ w.trace).Resets i error := by
  cases hg with
  | hello is his =>
    rw [Ports.Resets, ((h.thread t).sweep _ his).2]
    exact ⟨rfl, rfl⟩
  | shutdown is his ht hleft =>
    have htaken := (h.thread t).took ht
    rw [Ports.Resets, h.taken_sweep hlife htaken]
    exact ⟨htaken, rfl⟩

/-- the ghosts after a reset -/
theorem ReqInv.reset_ghost (h : ReqInv d₀ s₀ rx w gs)
    (hlife : (lifetime T d₀).Legal .start w.trace) {i : Port} {error : Int} {g' : ReqG}
    (hg : (gs t).Resetting i error g') {b : Ports T}
    (hsweep : b.sweep = (portsOf s₀ w.trace).sweep.map List.tail)
    (hswept : b.swept = Function.update (portsOf s₀ w.trace).swept i
      ((portsOf s₀ w.trace).swept i || (portsOf s₀ w.trace).taken)) :
    (b.sweep ≠ none → ∃ u, (Function.update gs t g' u).sweep ≠ none) ∧
    (∀ u, u ≠ t → (gs u).sweep ≠ none → b.sweep = (portsOf s₀ w.trace).sweep) ∧
    (∀ is, g'.sweep = some is → g'.inside = true ∧ b.sweep = some is) ∧
    (∀ is, g'.left = some is → ∀ j, j ∉ is → b.swept j = true) := by
  have hl := h.thread t
  have hkept : ∀ j, (portsOf s₀ w.trace).swept j = true → b.swept j = true := by
    intro j hj
    rw [hswept]
    by_cases hji : j = i
    · subst hji
      simp [hj]
    · rwa [Function.update_of_ne hji]
  cases hg with
  | hello is his =>
    obtain ⟨hin, ha⟩ := hl.sweep _ his
    rw [ha] at hsweep
    refine ⟨fun _ => ⟨t, by simp⟩, fun u hut hu => (hut (h.one_sweep hin hu)).elim, ?_, ?_⟩
    · intro is' his'
      cases his'
      exact ⟨hin, hsweep⟩
    · exact fun is' his' j hj => hkept j (hl.left is' his' j hj)
  | shutdown is his ht hleft =>
    have htaken := hl.took ht
    have hnone := h.taken_sweep hlife htaken
    rw [hnone] at hsweep
    refine ⟨fun hne => (hne hsweep).elim, fun u _ _ => hsweep.trans hnone.symm, ?_, ?_⟩
    · intro is' his'
      have hne : (gs t).sweep = some is' := his'
      rw [his] at hne
      cases hne
    · intro is' his' j hj
      cases his'
      by_cases hji : j = i
      · subst hji
        rw [hswept, Function.update_self, htaken, Bool.or_true]
      · refine hkept j (hl.left _ hleft j ?_)
        simp [hji, hj]

theorem ReqG.Resetting.fields {g g' : ReqG} {i : Port} {error : Int} (h : g.Resetting i error g') :
    g'.port = g.port ∧ g'.request = g.request ∧ g'.call = g.call ∧ g'.seen = none ∧
      g'.inside = g.inside ∧ g'.took = g.took := by
  cases h <;> exact ⟨rfl, rfl, rfl, rfl, rfl, rfl⟩

/-- a reset of one port: the request in it changes to `f` of it -/
theorem ReqInv.reset (h : ReqInv d₀ s₀ rx w gs) (hlife : (lifetime T d₀).Legal .start w.trace)
    {i : Port} {error : Int} {g' : ReqG} {e : Event} {f : Request T → Request T}
    {k : RPPortDevice → RPPortDevice} (hport : (gs t).port = some i)
    (hg : (gs t).Resetting i error g') (hok : (portsOf s₀ w.trace).Ok t e)
    (hnext : (portsOf s₀ w.trace).next t e = ((portsOf s₀ w.trace).onSlot i f).reset i)
    (hl' : ∀ l : Life T, l.next t e = l) (hf : ∀ st : Request T, st.Grows (f st))
    (hslot : SlotRel (((portsOf s₀ w.trace).slot i).map f) (k (w.mem.gPortDevices i))) :
    ReqInv d₀ s₀ rx (w.act t (fun _ => some e) fun m => ((), m.setPort i k))
      (Function.update gs t g') := by
  have hl := h.thread t
  obtain ⟨h1, h2, h3, h4, h5, h6⟩ := hg.fields
  have hrep : portsOf s₀ ((t, e) :: w.trace) = ((portsOf s₀ w.trace).onSlot i f).reset i := hnext
  have hlrep : lifeOf d₀ ((t, e) :: w.trace) = lifeOf d₀ w.trace := hl' _
  have hmem := h.setPort (t := t) (i := i) (f := k)
    (k := (((portsOf s₀ w.trace).onSlot i f).reset i).slot) hport
    (by
      show SlotRel (Function.update (portsOf s₀ w.trace).slot i
        (((portsOf s₀ w.trace).slot i).map f) i) _
      rw [Function.update_self]
      exact hslot)
    fun j hj => Function.update_of_ne hj _ _
  have hslots := h.slot_local (t := t) (i := i) hf
  obtain ⟨hsweep, hother, hgsweep, hgleft⟩ := h.reset_ghost hlife hg
    (b := ((portsOf s₀ w.trace).onSlot i f).reset i) rfl rfl
  refine h.step (x := some e) ?_ ?_ ?_ ?_ hmem.2 ?_ ?_ ?_ ?_ ?_
  · rintro _ ⟨⟩
    exact hok
  · rw [World.push_some, hrep]
    exact h.session
  · rw [World.push_some, hrep]
    exact h.v2
  · rw [World.push_some, hrep]
    exact hmem.1
  · rw [World.push_some, hrep]
    exact hslots.1
  · rw [World.push_some, hrep]
    exact hsweep
  · rw [World.push_some, hrep]
    exact hother
  · rw [World.push_some, hlrep]
    exact h.only t
  · rw [World.push_some, hrep, hlrep]
    refine ⟨?_, ?_, ?_, ?_, ?_, ?_, hgsweep, ?_, hgleft⟩
    · rw [h1]
      exact hl.port
    · rw [h2]
      exact hl.request
    · rw [h3]
      exact hslots.2
    · intro c hc
      rw [h3] at hc
      rw [h2]
      exact ⟨(hl.call c hc).1, h.own_call rfl hf hc⟩
    · rw [h4]
      exact nofun
    · rw [h5]
      exact hl.inside
    · rw [h6]
      exact hl.took

theorem ReqInv.cancel (h : ReqInv d₀ s₀ rx w gs) (hlife : (lifetime T d₀).Legal .start w.trace)
    {i : Port} {d : RPPortDevice} {error : Int} {session : U32} {g' : ReqG}
    (hport : (gs t).port = some i) (hseen : (gs t).seen = some d) (hpending : d.pending = true)
    (hg : (gs t).Resetting i error g') :
    ReqInv d₀ s₀ rx (w.act t (fun _ => some (.cancel i error)) fun m =>
        ((), m.setPort i fun d =>
          { d with ackData := error, ackCmd := -1, ackSequence := d.pendingSequence,
                   ackSession := session, pending := false }))
      (Function.update gs t g') := by
  have hl := h.thread t
  obtain ⟨j, hj, hd⟩ := hl.seen d hseen
  rw [hport] at hj
  cases hj
  obtain ⟨-, -, -, -, -, hpend⟩ := RPPortDevice.slot_fields hd
  obtain ⟨st, hst, hnone⟩ := (h.slot i).pending_iff.mp (hpend.symm.trans hpending)
  have hsound := h.sound.slot i st hst
  refine h.reset hlife hport hg ⟨⟨st, hst, hnone⟩, h.resets hlife hg⟩
    (f := fun st => { st with done := some (.cancelled (portsOf s₀ w.trace).session error) })
    rfl (fun _ => rfl) (fun st => ⟨rfl, rfl, rfl, nofun, rfl, id, rfl⟩) ?_
  · rw [hst]
    refine ⟨rfl, nofun, fun hcl => (hsound.cleared hcl hnone).elim, nofun, fun _ _ heq _ => ?_⟩
    cases heq
    exact ⟨rfl, rfl⟩

theorem ReqInv.clear (h : ReqInv d₀ s₀ rx w gs) (hlife : (lifetime T d₀).Legal .start w.trace)
    {i : Port} {d : RPPortDevice} {error : Int} {g' : ReqG}
    (hport : (gs t).port = some i) (hseen : (gs t).seen = some d) (hpending : d.pending = false)
    (hg : (gs t).Resetting i error g') :
    ReqInv d₀ s₀ rx (w.act t (fun _ => some (.clear i)) fun m => ((), m.setPort i fun d =>
        { d with pendingSequence := 0, ackSequence := 0, ackSession := 0, ackCmd := 0,
                 ackData := 0 }))
      (Function.update gs t g') := by
  have hl := h.thread t
  obtain ⟨j, hj, hd⟩ := hl.seen d hseen
  rw [hport] at hj
  cases hj
  obtain ⟨-, -, -, -, -, hpend⟩ := RPPortDevice.slot_fields hd
  have hfalse : (w.mem.gPortDevices i).pending = false := hpend.symm.trans hpending
  have hdone : ∀ st, (portsOf s₀ w.trace).slot i = some st → st.done ≠ none := by
    intro st hst hnone
    rw [(h.slot i).pending_iff.mpr ⟨st, hst, hnone⟩] at hfalse
    cases hfalse
  refine h.reset hlife hport hg ⟨hdone, error, h.resets hlife hg⟩
    (f := fun st => { st with cleared := true })
    rfl (fun _ => rfl) (fun st => ⟨rfl, rfl, rfl, id, rfl, id, rfl⟩) ?_
  have hslot := h.slot i
  cases hst : (portsOf s₀ w.trace).slot i with
  | none => exact hfalse
  | some st =>
    rw [hst] at hslot
    exact ⟨hslot.pending, fun hnone => (hdone st hst hnone).elim, fun _ => ⟨rfl, rfl, rfl⟩, nofun,
      nofun⟩

/-- a HELLO announces a new session -/
theorem ReqInv.newSession (h : ReqInv d₀ s₀ rx w gs) {s : U32} (hin : (gs t).inside = true)
    (hsweep : (gs t).sweep = none) (hK : Before d₀ s₀ ((t, .session s) :: w.trace)) :
    ReqInv d₀ s₀ rx (w.act t (fun _ => some (.session s)) fun m => ((), { m with fgSessionId := s }))
      (Function.update gs t { gs t with sweep := some allPorts }) := by
  have hl := h.thread t
  have hmem := hl.inside hin
  have htaken : (portsOf s₀ w.trace).taken = false := by
    rw [taken_eq d₀]
    exact (Life.Sound.of_legal hK.life.tail).live ⟨t, hmem⟩
  have hnone : (portsOf s₀ w.trace).sweep = none := by
    by_contra hne
    obtain ⟨u, hu⟩ := h.sweep hne
    rw [h.one_sweep hin hu] at hu
    exact hu hsweep
  have hnew : s ≠ (portsOf s₀ w.trace).session := by
    have hread := (reading_inside_iff d₀ s₀ w.trace t).mpr hmem
    obtain ⟨d, -, -, hne⟩ := hK.frames.1 hread
    rwa [session_eq] at hne
  have hf : ∀ st : Request T, st.Grows { st with stale := st.stale || st.outdated s } := by
    refine fun st => ⟨rfl, rfl, rfl, id, rfl, fun hs => ?_, rfl⟩
    show (st.stale || st.outdated s) = true
    rw [hs]
    rfl
  have hslot : ∀ j, ((portsOf s₀ w.trace).next t (.session s)).slot j
      = ((portsOf s₀ w.trace).slot j).map fun st => { st with stale := st.stale || st.outdated s } :=
    fun _ => rfl
  refine h.step (x := some (.session s)) ?_ rfl h.v2 (fun j => ?_) (fun _ _ => rfl)
    (fun j st' hst' => ?_) (fun _ => ⟨t, by simp⟩)
    (fun u hut hu => (hut (h.one_sweep hin hu)).elim) (h.only t) ?_
  · rintro _ ⟨⟩
    exact fun _ => ⟨hnone, hnew⟩
  · show SlotRel (((portsOf s₀ w.trace).next t (.session s)).slot j) _
    have hj := h.slot j
    rw [hslot]
    cases hst : (portsOf s₀ w.trace).slot j with
    | none =>
      rw [hst] at hj
      exact hj
    | some st =>
      rw [hst] at hj
      exact ⟨hj.pending, hj.sequence, hj.cleared, hj.acked, hj.cancelled⟩
  · obtain ⟨st, hst, rfl⟩ := Option.map_eq_some_iff.mp ((hslot j).symm.trans hst')
    exact h.owner j st hst
  · refine { hl with
      mine := fun j st' hst' htt => ?_
      call := fun c hc => ?_
      sweep := fun is his => ?_ }
    · obtain ⟨st, hst, rfl⟩ := Option.map_eq_some_iff.mp ((hslot j).symm.trans hst')
      exact hl.mine j st hst htt
    · obtain ⟨hreq, st, hst, hk⟩ := hl.call c hc
      refine ⟨hreq, _, (hslot c.port).trans (by rw [hst]; rfl), ?_⟩
      exact { hk with stale := fun hs => (hf st).stale (hk.stale hs) }
    · cases his
      refine ⟨hin, ?_⟩
      show (if (portsOf s₀ w.trace).taken then _ else some allPorts) = some allPorts
      rw [htaken]
      rfl

/-- a shutdown forgets the session -/
theorem ReqInv.noSession (h : ReqInv d₀ s₀ rx w gs) {s : U32} (htook : (gs t).took = true) :
    ReqInv d₀ s₀ rx (w.act t (fun _ => some (.session s)) fun m => ((), { m with fgSessionId := s }))
      gs := by
  have hl := h.thread t
  have htaken := hl.took htook
  have hslot : ∀ j, ((portsOf s₀ w.trace).next t (.session s)).slot j
      = ((portsOf s₀ w.trace).slot j).map fun st => { st with stale := st.stale || st.outdated s } :=
    fun _ => rfl
  have hsame : ((portsOf s₀ w.trace).next t (.session s)).sweep = (portsOf s₀ w.trace).sweep := by
    show (if (portsOf s₀ w.trace).taken then (portsOf s₀ w.trace).sweep else _) = _
    rw [htaken]
    rfl
  have hstep := h.step (t := t) (k := gs t) (m := { w.mem with fgSessionId := s })
    (x := some (.session s)) ?_ rfl h.v2 (fun j => ?_) (fun _ _ => rfl)
    (fun j st' hst' => ?_) (fun hs => h.still_sweep rfl (hsame ▸ hs)) (fun _ _ _ => hsame)
    (h.only t) ?_
  · rw [Function.update_eq_self] at hstep
    exact hstep
  · rintro _ ⟨⟩
    intro hfalse
    rw [htaken] at hfalse
    cases hfalse
  · show SlotRel (((portsOf s₀ w.trace).next t (.session s)).slot j) _
    have hj := h.slot j
    rw [hslot]
    cases hst : (portsOf s₀ w.trace).slot j with
    | none =>
      rw [hst] at hj
      exact hj
    | some st =>
      rw [hst] at hj
      exact ⟨hj.pending, hj.sequence, hj.cleared, hj.acked, hj.cancelled⟩
  · obtain ⟨st, hst, rfl⟩ := Option.map_eq_some_iff.mp ((hslot j).symm.trans hst')
    exact h.owner j st hst
  · refine { hl with
      mine := fun j st' hst' htt => ?_
      call := fun c hc => ?_
      sweep := fun is his => ?_ }
    · obtain ⟨st, hst, rfl⟩ := Option.map_eq_some_iff.mp ((hslot j).symm.trans hst')
      exact hl.mine j st hst htt
    · obtain ⟨hreq, st, hst, hk⟩ := hl.call c hc
      refine ⟨hreq, _, (hslot c.port).trans (by rw [hst]; rfl), ?_⟩
      refine { hk with stale := fun hs => ?_ }
      show (st.stale || st.outdated s) = true
      rw [hk.stale hs]
      rfl
    · exact ⟨(hl.sweep is his).1, hsame.trans (hl.sweep is his).2⟩

/-- the sweep of a HELLO is over -/
theorem ReqInv.helloDone (h : ReqInv d₀ s₀ rx w gs) (s : U32) (hsweep : (gs t).sweep = some []) :
    ReqInv d₀ s₀ rx (w.act t (fun _ => some (.helloDone s)) fun m => ((), m))
      (Function.update gs t { gs t with sweep := none }) := by
  have hl := h.thread t
  obtain ⟨hin, ha⟩ := hl.sweep _ hsweep
  refine h.step (x := some (.helloDone s)) ?_ h.session h.v2 h.slot (fun _ _ => rfl) h.owner
    (fun hne => (hne rfl).elim) (fun u hut hu => (hut (h.one_sweep hin hu)).elim) (h.only t) ?_
  · rintro _ ⟨⟩
    exact ha
  · exact { hl with sweep := nofun }

/-- the descriptor is taken away -/
theorem ReqInv.takeDesc (h : ReqInv d₀ s₀ rx w gs) (d : Option Nat) :
    ReqInv d₀ s₀ rx (w.act t (fun _ => some (.takeDesc d)) fun m => ((), { m with fgDesc := none }))
      (Function.update gs t { gs t with took := true, left := some allPorts }) := by
  refine h.step (x := some (.takeDesc d)) ?_ h.session nofun h.slot (fun _ _ => rfl) h.owner
    (fun hs => h.still_sweep rfl hs) (fun _ _ _ => rfl) (h.only t) ?_
  · rintro _ ⟨⟩
    trivial
  · refine { h.thread t with took := fun _ => rfl, left := fun is his i hi => ?_ }
    cases his
    exact (hi (List.mem_finRange i)).elim

/-- the protocol is only changed once the connection is taken -/
theorem ReqInv.useV2 (h : ReqInv d₀ s₀ rx w gs) (b : Bool)
    (hK : Before d₀ s₀ ((t, .useV2 b) :: w.trace)) :
    ReqInv d₀ s₀ rx (w.act t (fun _ => some (.useV2 b)) fun m =>
      ((), { m with fgUseProtocolV2 := b })) gs := by
  have htaken : (portsOf s₀ w.trace).taken = true := by
    rw [taken_eq d₀]
    exact hK.life.1.1
  have hl := h.thread t
  have hstep := h.step (t := t) (k := gs t) (m := { w.mem with fgUseProtocolV2 := b })
    (x := some (.useV2 b)) (by rintro _ ⟨⟩; trivial) h.session (fun hfalse => ?_) h.slot
    (fun _ _ => rfl) h.owner (fun hs => h.still_sweep rfl hs) (fun _ _ _ => rfl) (h.only t)
    { hl with }
  · rwa [Function.update_eq_self] at hstep
  · have hfalse' : (portsOf s₀ w.trace).taken = false := hfalse
    rw [htaken] at hfalse'
    cases hfalse'

/-- a frame of the request is on its way -/
theorem ReqInv.frame (h : ReqInv d₀ s₀ rx w gs) (port cmd : Byte) (s : U32) :
    ReqInv d₀ s₀ rx (w.act t (fun m => some (.frame port cmd s m.fgSessionId)) fun m =>
      (m.fgSessionId, m)) gs := by
  have hl := h.thread t
  have hslot : ∀ j, ((portsOf s₀ w.trace).next t (.frame port cmd s w.mem.fgSessionId)).slot j
      = ((portsOf s₀ w.trace).slot j).map fun st =>
        if st.thread = t then { st with frames := w.mem.fgSessionId :: st.frames } else st :=
    fun _ => rfl
  have hsome : ∀ j st', ((portsOf s₀ w.trace).next t
      (.frame port cmd s w.mem.fgSessionId)).slot j = some st' →
      ∃ st, (portsOf s₀ w.trace).slot j = some st ∧ st'.thread = st.thread := by
    intro j st' hst'
    obtain ⟨st, hst, rfl⟩ := Option.map_eq_some_iff.mp ((hslot j).symm.trans hst')
    refine ⟨st, hst, ?_⟩
    split <;> rfl
  have hstep := h.step (t := t) (k := gs t) (m := w.mem)
    (x := some (.frame port cmd s w.mem.fgSessionId)) ?_ h.session h.v2 (fun j => ?_)
    (fun _ _ => rfl) (fun j st' hst' => ?_) (fun hs => h.still_sweep rfl hs) (fun _ _ _ => rfl)
    (h.only t) ?_
  · rw [Function.update_eq_self] at hstep
    exact hstep
  · rintro _ ⟨⟩
    exact h.session
  · show SlotRel (((portsOf s₀ w.trace).next t (.frame port cmd s w.mem.fgSessionId)).slot j) _
    have hj := h.slot j
    rw [hslot]
    cases hst : (portsOf s₀ w.trace).slot j with
    | none =>
      rw [hst] at hj
      exact hj
    | some st =>
      rw [hst] at hj
      rw [Option.map_some]
      split
      · exact ⟨hj.pending, hj.sequence, hj.cleared, hj.acked, hj.cancelled⟩
      · exact hj
  · obtain ⟨st, hst, hth⟩ := hsome j st' hst'
    rw [hth]
    exact h.owner j st hst
  · refine { hl with mine := fun j st' hst' htt => ?_, call := fun c hc => ?_ }
    · obtain ⟨st, hst, hth⟩ := hsome j st' hst'
      exact hl.mine j st hst (hth.symm.trans htt)
    · obtain ⟨hreq, st, hst, hk⟩ := hl.call c hc
      refine ⟨hreq, { st with frames := w.mem.fgSessionId :: st.frames },
        (hslot c.port).trans ?_, { hk with }⟩
      rw [hst, Option.map_some, if_pos hk.thread]

/-- `fgSendMutex` is held for the send of a request -/
theorem ReqInv.sendLocked (h : ReqInv d₀ s₀ rx w gs) :
    ReqInv d₀ s₀ rx (w.act t (fun _ => some .sendLocked) fun m => ((), m))
      (Function.update gs t
        { gs t with call := (gs t).call.map fun c => { c with locked := true } }) := by
  have hl := h.thread t
  refine h.step (x := some .sendLocked) ?_ h.session h.v2 h.slot (fun _ _ => rfl) h.owner
    (fun hs => h.still_sweep rfl hs) (fun _ _ _ => rfl) (h.only t) ?_
  · rintro _ ⟨⟩
    trivial
  · refine { hl with mine := fun j st hst htt => ?_, call := fun c hc => ?_ }
    · obtain ⟨c, hc, hport⟩ := hl.mine j st hst htt
      refine ⟨{ c with locked := true }, ?_, hport⟩
      show (gs t).call.map _ = _
      rw [hc]
      rfl
    · obtain ⟨c₀, hc₀, rfl⟩ := Option.map_eq_some_iff.mp hc
      obtain ⟨hreq, st, hst, hk⟩ := hl.call c₀ hc₀
      refine ⟨hreq, st, hst, { hk with locked := fun _ hlive => ?_ }⟩
      have hlive' : Function.update (lifeOf d₀ w.trace).lockedLive t (!(lifeOf d₀ w.trace).taken) t
          = true := hlive
      rw [Function.update_self, Bool.not_eq_true', ← taken_eq d₀ s₀] at hlive'
      by_contra hearly
      rw [(h.sound.slot c₀.port st hst).late (by simpa using hearly)] at hlive'
      cases hlive'

/-- a send that went out was the send of an early request -/
theorem ReqInv.sendEnd (h : ReqInv d₀ s₀ rx w gs) {r : Int}
    (hlocked : ∀ c, (gs t).call = some c → c.locked = true)
    (hK : Before d₀ s₀ ((t, .sendEnd r) :: w.trace)) :
    ReqInv d₀ s₀ rx (w.act t (fun _ => some (.sendEnd r)) fun m => ((), m))
      (Function.update gs t { gs t with call := (gs t).call.map fun c =>
        { c with locked := false, early := c.early || decide (r ≠ -ENOTCONN) } }) := by
  have hl := h.thread t
  have hplain := h.same (t := t) (m := w.mem) (x := some (.sendEnd r)) ⟨rfl, rfl, fun _ => rfl⟩
    (by rintro _ ⟨⟩; exact ⟨fun _ => ⟨trivial, rfl⟩, fun _ => ⟨rfl, rfl⟩⟩)
  refine hplain.learn rfl ?_
  have hl' := hplain.thread t
  refine { hl' with mine := fun j st hst htt => ?_, call := fun c hc => ?_ }
  · obtain ⟨c, hc, hport⟩ := hl'.mine j st hst htt
    refine ⟨{ c with locked := false, early := c.early || decide (r ≠ -ENOTCONN) }, ?_, hport⟩
    show (gs t).call.map _ = _
    rw [hc]
    rfl
  · obtain ⟨c₀, hc₀, rfl⟩ := Option.map_eq_some_iff.mp hc
    obtain ⟨hreq, st, hst, hk⟩ := hl'.call c₀ hc₀
    refine ⟨hreq, st, hst, { hk with locked := nofun, early := fun he => ?_ }⟩
    rcases Bool.or_eq_true_iff.mp he with he | hne
    · exact hk.early he
    · refine hk.locked (hlocked c₀ hc₀) ?_
      exact (hK.life.1 (of_decide_eq_true hne)).1

theorem ReqInv.receiverIn (h : ReqInv d₀ s₀ t w gs) :
    ReqInv d₀ s₀ t (w.act t (fun _ => some .receiverIn) fun m =>
      ((), { m with fgActiveReceivers := m.fgActiveReceivers + 1 }))
      (Function.update gs t { gs t with inside := true }) := by
  have hl := h.thread t
  refine h.step (x := some .receiverIn) ?_ h.session h.v2 h.slot (fun _ _ => rfl) h.owner
    (fun hs => h.still_sweep rfl hs) (fun _ _ _ => rfl) (fun _ => rfl) ?_
  · rintro _ ⟨⟩
    trivial
  · exact { hl with
      inside := fun _ => Finset.mem_insert_self _ _
      sweep := fun is his => ⟨rfl, (hl.sweep is his).2⟩ }

theorem ReqInv.receiverOut (h : ReqInv d₀ s₀ rx w gs) (hin : (gs t).inside = true)
    (hsweep : (gs t).sweep = none) :
    ReqInv d₀ s₀ rx (w.act t (fun _ => some .receiverOut) fun m =>
      ((), { m with fgActiveReceivers := m.fgActiveReceivers - 1 }))
      (Function.update gs t { gs t with inside := false }) := by
  have hl := h.thread t
  refine h.step (x := some .receiverOut) ?_ h.session h.v2 h.slot (fun _ _ => rfl) h.owner
    (fun hs => h.still_sweep rfl hs) (fun _ _ _ => rfl) (fun _ => h.only t (hl.inside hin)) ?_
  · rintro _ ⟨⟩
    trivial
  · exact { hl with
      inside := nofun
      sweep := fun is his => by
        have hne : (gs t).sweep = some is := his
        rw [hsweep] at hne
        cases hne }

/-- a shutdown returns with every port reset -/
theorem ReqInv.shutdownReturned (h : ReqInv d₀ s₀ rx w gs) (r : Ret)
    (hleft : (gs t).left = some []) :
    ReqInv d₀ s₀ rx (w.act t (fun _ => some (.returned .shutdown r)) fun m => ((), m))
      (Function.update gs t { gs t with took := false, left := none }) := by
  have hl := h.thread t
  refine h.step (x := some (.returned .shutdown r)) ?_ h.session h.v2 h.slot (fun _ _ => rfl)
    h.owner (fun hs => h.still_sweep rfl hs) (fun _ _ _ => rfl) (h.only t) ?_
  · rintro _ ⟨⟩
    exact fun i => hl.left [] hleft i List.not_mem_nil
  · exact { hl with took := nofun, left := nofun }

end RaspikeArt
