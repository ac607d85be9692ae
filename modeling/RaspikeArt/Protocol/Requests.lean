import RaspikeArt.Model.System
import RaspikeArt.Threads.History

/-!
# Requests, part 1: the machine

Each port has room for one request.  It is taken when a call of `raspike_request` marks the port
pending and free again after the final section of that call; in between the request is completed
at most once, by an accepted ACK or by a cancellation.

* `Completion`, `Request`   a request and what has become of it;
* `Ports`                   the seven ports, and the sweep that a new session makes over them;
* `Request.Returns`         what the final section may return;
* `requests`                the machine.
-/

set_option linter.unusedSectionVars false

namespace RaspikeArt
open Threads

/-- how a request was completed, and in which session -/
inductive Completion where
  | acked (session : U32) (ackCmd ackData : Int)
  | cancelled (session : U32) (error : Int)
  deriving DecidableEq

/-- a call of `raspike_request`, from its `pend` to its `finish` -/
structure Request (T : Type) where
  thread : T
  cmd : Byte
  sequence : U32
  /-- it was pending before the descriptor was taken away -/
  early : Bool
  done : Option Completion
  /-- its completion has been cleared -/
  cleared : Bool
  /-- it was completed by an ACK and the session has changed since -/
  stale : Bool
  /-- it has left its loop uncompleted, with this result -/
  gaveUp : Option Int
  /-- the sessions of its frames -/
  frames : List U32

structure Ports (T : Type) where
  session : U32
  slot : Port → Option (Request T)
  /-- the ports that a HELLO has still to reset -/
  sweep : Option (List Port)
  /-- the descriptor has been taken away by a shutdown -/
  taken : Bool
  /-- the ports that a shutdown has reset -/
  swept : Port → Bool

variable {T : Type}

def Ports.start (s₀ : U32) : Ports T := ⟨s₀, fun _ => none, none, false, fun _ => false⟩

/-- the ACK of a request is out of date once the session is `s` -/
def Request.outdated (st : Request T) (s : U32) : Bool :=
  match st.done with
  | some (.acked session _ _) => session != s
  | _ => false

def Ports.mapSlots (a : Ports T) (f : Request T → Request T) : Ports T :=
  { a with slot := fun i => (a.slot i).map f }

def Ports.onSlot (a : Ports T) (i : Port) (f : Request T → Request T) : Ports T :=
  { a with slot := Function.update a.slot i ((a.slot i).map f) }

/-- a port has been reset -/
def Ports.reset (a : Ports T) (i : Port) : Ports T :=
  { a with sweep := a.sweep.map List.tail, swept := Function.update a.swept i (a.swept i || a.taken) }

variable [DecidableEq T]

def Ports.next (a : Ports T) (t : T) : Event → Ports T
  | .pend i cmd s =>
    { a with slot := Function.update a.slot i (some ⟨t, cmd, s, !a.taken, none, false, false, none, []⟩) }
  | .ack i _ session ackCmd ackData =>
    a.onSlot i fun st => { st with done := some (.acked session ackCmd ackData) }
  | .cancel i error =>
    (a.onSlot i fun st => { st with done := some (.cancelled a.session error) }).reset i
  | .clear i => (a.onSlot i fun st => { st with cleared := true }).reset i
  | .gaveUp i _ r => a.onSlot i fun st => { st with gaveUp := some r }
  | .finish i .. => { a with slot := Function.update a.slot i none }
  | .frame _ _ _ s => a.mapSlots fun st => if st.thread = t then { st with frames := s :: st.frames } else st
  | .session s =>
    { a.mapSlots (fun st => { st with stale := st.stale || st.outdated s }) with
      session := s, sweep := if a.taken then a.sweep else some allPorts }
  | .helloDone _ => { a with sweep := none }
  | .takeDesc _ => { a with taken := true }
  | _ => a

/-- the reset of a port is the next step of a HELLO, or one of a shutdown -/
def Ports.Resets (a : Ports T) (i : Port) (error : Int) : Prop :=
  match a.sweep with
  | some (j :: _) => j = i ∧ error = -ESTALE
  | some [] => False
  | none => a.taken = true ∧ error = -ENOTCONN

/-- the branch of a request that is not answered -/
def unanswered (r : Int) : Branch := if r = -ETIMEDOUT then .timedOut else .failed

/-- what the final section returns of a completion -/
def Completion.Returns (comp : Completion) (cmd : Byte) (stale : Bool) (b : Branch) (r : Int) : Prop :=
  match comp with
  | .cancelled _ error => b = .cancelled ∧ r = error
  | .acked _ ackCmd ackData =>
    ackCmd = cmd.toNat ∧ b = .acked ∧ r = ackData ∨
      (ackCmd = cmd.toNat → stale = true) ∧ b = unanswered r

def Request.Returns (st : Request T) (taken : Bool) (b : Branch) (r : Int) : Prop :=
  match st.gaveUp with
  | some r₀ => r = r₀ ∧ b = unanswered r₀
  | none => ∃ comp, st.done = some comp ∧
      if st.cleared then
        b = unanswered r ∨ taken = true ∧ st.cmd = 0 ∧ b = .acked ∧ r = 0
      else comp.Returns st.cmd st.stale b r

def Ports.Ok (a : Ports T) (t : T) : Event → Prop
  | .pend i _ s => a.slot i = none ∧ s ≠ 0
  | .ack i s session ackCmd _ =>
    session = a.session ∧ 0 ≤ ackCmd ∧
      ∃ st, a.slot i = some st ∧ st.done = none ∧ s = st.sequence
  | .cancel i error => (∃ st, a.slot i = some st ∧ st.done = none) ∧ a.Resets i error
  | .clear i => (∀ st, a.slot i = some st → st.done ≠ none) ∧ ∃ error, a.Resets i error
  | .gaveUp i s _ => ∃ st, a.slot i = some st ∧ st.thread = t ∧ st.sequence = s ∧ st.gaveUp = none
  | .finish i cmd s completed b r => ∃ st, a.slot i = some st ∧ st.thread = t ∧ st.cmd = cmd ∧
      st.sequence = s ∧ completed = st.gaveUp.isNone ∧ st.Returns a.taken b r
  | .frame _ _ _ s => s = a.session
  | .session s => a.taken = false → a.sweep = none ∧ s ≠ a.session
  | .helloDone _ => a.sweep = some []
  | .returned .shutdown _ => ∀ i, a.swept i = true
  | _ => True

def requests (T : Type) [DecidableEq T] : Machine T Event (Ports T) where
  next := Ports.next
  ok := Ports.Ok

abbrev portsOf (s₀ : U32) (tr : Trace T) : Ports T := (requests T).replay (.start s₀) tr

/-! ## what the machine promises -/

structure Request.Sound (a : Ports T) (i : Port) (st : Request T) : Prop where
  sequence : st.sequence ≠ 0
  late : st.early = false → a.taken = true
  cleared : st.cleared = true → st.done ≠ none
  ackCmd : ∀ session ackCmd ackData, st.done = some (.acked session ackCmd ackData) → 0 ≤ ackCmd
  error : ∀ session error, st.done = some (.cancelled session error) →
    error = -ESTALE ∨ error = -ENOTCONN
  current : ∀ session ackCmd ackData, st.done = some (.acked session ackCmd ackData) →
    st.stale = false → session = a.session
  /-- a reset of the port by a shutdown has completed it -/
  swept : st.early = true → a.swept i = true → st.done ≠ none

structure Ports.Sound (a : Ports T) : Prop where
  slot : ∀ i st, a.slot i = some st → st.Sound a i
  swept : ∀ i, a.swept i = true → a.taken = true

theorem Ports.onSlot_some {a : Ports T} {i j : Port} {f : Request T → Request T} {st : Request T}
    (h : (a.onSlot i f).slot j = some st) :
    (j ≠ i ∧ a.slot j = some st) ∨ (j = i ∧ ∃ st₀, a.slot i = some st₀ ∧ st = f st₀) := by
  by_cases hj : j = i
  · subst hj
    simp only [Ports.onSlot, Function.update_self, Option.map_eq_some_iff] at h
    obtain ⟨st₀, h₀, rfl⟩ := h
    exact .inr ⟨rfl, st₀, h₀, rfl⟩
  · simp only [Ports.onSlot, Function.update_of_ne hj] at h
    exact .inl ⟨hj, h⟩

theorem Ports.mapSlots_some {a : Ports T} {f : Request T → Request T} {j : Port} {st : Request T}
    (h : (a.mapSlots f).slot j = some st) : ∃ st₀, a.slot j = some st₀ ∧ st = f st₀ := by
  obtain ⟨st₀, h₀, rfl⟩ := Option.map_eq_some_iff.mp h
  exact ⟨st₀, h₀, rfl⟩

/-- a reset of a port that leaves a completed request, or none -/
theorem Ports.Sound.reset {a : Ports T} {i : Port} (h : a.Sound)
    (hi : ∀ st, a.slot i = some st → st.done ≠ none) : (a.reset i).Sound := by
  have hswept : ∀ j, (a.reset i).swept j = true → a.swept j = true ∨ j = i ∧ a.taken = true := by
    intro j hj
    by_cases hji : j = i
    · subst hji
      simpa [Ports.reset, or_comm] using hj
    · exact .inl (by simpa [Ports.reset, hji] using hj)
  refine ⟨fun j st hst => ?_, fun j hj => ?_⟩
  · have hs := h.slot j st hst
    refine { hs with swept := fun he hj => ?_ }
    rcases hswept j hj with hj | ⟨rfl, -⟩
    · exact hs.swept he hj
    · exact hi st hst
  · rcases hswept j hj with hj | ⟨-, ht⟩
    · exact h.swept j hj
    · exact ht

/-- a change of one request -/
theorem Ports.Sound.onSlot {a : Ports T} {i : Port} {f : Request T → Request T} (h : a.Sound)
    (hf : ∀ st, a.slot i = some st → st.Sound a i → (f st).Sound a i) : (a.onSlot i f).Sound := by
  refine ⟨fun j st hst => ?_, h.swept⟩
  have hsame : ∀ k st, Request.Sound a k st → Request.Sound (a.onSlot i f) k st :=
    fun k st hs => { hs with }
  rcases Ports.onSlot_some hst with ⟨-, hj⟩ | ⟨rfl, st₀, h₀, rfl⟩
  · exact hsame j st (h.slot j st hj)
  · exact hsame j _ (hf st₀ h₀ (h.slot j st₀ h₀))

theorem Ports.Resets.error {a : Ports T} {i : Port} {error : Int} (h : a.Resets i error) :
    error = -ESTALE ∨ error = -ENOTCONN := by
  unfold Ports.Resets at h
  split at h
  · exact .inl h.2
  · exact h.elim
  · exact .inr h.2

theorem Ports.Sound.next {a : Ports T} {t : T} {e : Event} (h : a.Sound) (hok : a.Ok t e) :
    (a.next t e).Sound := by
  cases e with
  | pend i cmd s =>
    refine ⟨fun j st hst => ?_, h.swept⟩
    by_cases hj : j = i
    · subst hj
      simp only [Ports.next, Function.update_self, Option.some.injEq] at hst
      subst hst
      refine ⟨hok.2, fun he => ?_, nofun, nofun, nofun, nofun, fun he hs => ?_⟩
      · show a.taken = true
        simpa using he
      have htaken := h.swept j hs
      simp only [htaken] at he
      cases he
    · simp only [Ports.next, Function.update_of_ne hj] at hst
      exact { h.slot j st hst with }
  | ack i s session ackCmd ackData =>
    obtain ⟨hsess, hpos, -⟩ := hok
    refine h.onSlot fun st hst hs => ?_
    refine { hs with
      cleared := nofun, error := nofun, swept := nofun
      ackCmd := fun _ _ _ heq => ?_
      current := fun _ _ _ heq _ => ?_ }
    · cases heq
      exact hpos
    · cases heq
      exact hsess
  | cancel i error =>
    obtain ⟨-, hresets⟩ := hok
    refine Ports.Sound.reset (h.onSlot fun st hst hs => ?_) fun st hst => ?_
    · refine { hs with
        cleared := nofun, ackCmd := nofun, current := nofun, swept := nofun
        error := fun _ _ heq => ?_ }
      cases heq
      exact hresets.error
    · rcases Ports.onSlot_some hst with ⟨hne, -⟩ | ⟨-, st₀, -, rfl⟩
      · exact (hne rfl).elim
      · exact nofun
  | clear i =>
    obtain ⟨hdone, -⟩ := hok
    refine Ports.Sound.reset (h.onSlot fun st hst hs => ?_) fun st hst => ?_
    · exact { hs with cleared := fun _ => hdone st hst }
    · rcases Ports.onSlot_some hst with ⟨hne, -⟩ | ⟨-, st₀, h₀, rfl⟩
      · exact (hne rfl).elim
      · exact hdone st₀ h₀
  | gaveUp i s r => exact h.onSlot fun st _ hs => { hs with }
  | finish i cmd s completed b r =>
    refine ⟨fun j st hst => ?_, h.swept⟩
    by_cases hj : j = i
    · subst hj
      simp [Ports.next] at hst
    · simp only [Ports.next, Function.update_of_ne hj] at hst
      exact { h.slot j st hst with }
  | frame port cmd s session =>
    refine ⟨fun j st hst => ?_, h.swept⟩
    obtain ⟨st₀, h₀, rfl⟩ := Ports.mapSlots_some hst
    have hs := h.slot j st₀ h₀
    split
    · exact { hs with }
    · exact { hs with }
  | session s =>
    refine ⟨fun j st hst => ?_, h.swept⟩
    obtain ⟨st₀, h₀, rfl⟩ := Ports.mapSlots_some hst
    have hs := h.slot j st₀ h₀
    refine { hs with current := fun sess ac ad hdone hstale => ?_ }
    have hout : st₀.outdated s = false := by
      simp only [Bool.or_eq_false_iff] at hstale
      exact hstale.2
    have hdone' : st₀.done = some (.acked sess ac ad) := hdone
    rw [Request.outdated, hdone'] at hout
    show sess = s
    simpa using hout
  | helloDone s => exact ⟨fun j st hst => { h.slot j st hst with }, h.swept⟩
  | takeDesc d =>
    refine ⟨fun j st hst => ?_, fun _ _ => rfl⟩
    exact { h.slot j st hst with late := fun _ => rfl }
  | _ => exact h

theorem Ports.Sound.of_legal {s₀ : U32} {tr : Trace T}
    (h : (requests T).Legal (.start s₀) tr) : (portsOf s₀ tr).Sound :=
  h.inv ⟨nofun, nofun⟩ fun _ _ _ hb hok => hb.next hok

end RaspikeArt
