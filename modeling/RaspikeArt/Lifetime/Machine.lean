import RaspikeArt.Model.System
import RaspikeArt.Threads.History
import Mathlib.Data.Finset.Card

/-!
# Lifetime of a connection, part 1: the abstract machine

What `fgActiveReceivers`, `fgStopCommunication`, `fgDesc` and the two mutexes are for, told of the
history alone: one connection on a descriptor `d₀` is open, is taken away once by a shutdown, and
is closed.

* `Life`        who is receiving, whether the connection is stopped, taken, closed; and for each
                thread whether its present call, or send, began after the stop;
* `lifetime`    the machine.  Its guard says when each label may appear: input and output only
                before the close, at most one close, receivers only before the descriptor is taken.
-/

namespace RaspikeArt
open Threads

variable {T : Type}

structure Life (T : Type) where
  receivers : Finset T
  stopped : Bool
  taken : Bool
  closed : Bool
  /-- the present call of the thread began after the stop -/
  lateCall : T → Bool
  /-- the present send of the thread began after the stop -/
  lateSend : T → Bool
  /-- the descriptor was still there when the present send of the thread got `fgSendMutex` -/
  lockedLive : T → Bool

def Life.start : Life T :=
  ⟨∅, false, false, false, fun _ => false, fun _ => false, fun _ => false⟩

variable [DecidableEq T]

def Life.next (a : Life T) (t : T) : Event → Life T
  | .receiverIn => { a with receivers := insert t a.receivers }
  | .receiverOut => { a with receivers := a.receivers.erase t }
  | .stop => { a with stopped := true }
  | .takeDesc _ => { a with taken := true }
  | .close _ => { a with closed := true }
  | .call _ => { a with lateCall := Function.update a.lateCall t a.stopped }
  | .sendBegin => { a with lateSend := Function.update a.lateSend t a.stopped }
  | .sendLocked => { a with lockedLive := Function.update a.lockedLive t (!a.taken) }
  | _ => a

def Life.Ok (d₀ : Nat) (a : Life T) (t : T) : Event → Prop
  | .receiverIn => t ∉ a.receivers ∧ a.taken = false
  | .receiverOut => t ∈ a.receivers
  | .takeDesc _ => a.receivers = ∅ ∧ a.stopped = true
  | .close d => d = d₀ ∧ a.taken = true ∧ a.closed = false
  | .io d _ | .wrote d _ => d = d₀ ∧ a.closed = false
  | .ack .. | .v2Frame _ | .legacyFrame _ | .command .. | .helloDone _ | .capabilities _
  | .runtimeTelemetry => t ∈ a.receivers
  | .session s => t ∈ a.receivers ∨ a.taken = true ∧ s = 0
  | .useV2 b => a.taken = true ∧ b = false
  | .cancel .. | .clear _ => t ∈ a.receivers ∨ a.taken = true
  | .frame .. => a.lockedLive t = true ∧ a.taken = false
  | .sendEnd r => r ≠ -ENOTCONN → a.lockedLive t = true ∧ a.lateSend t = false
  | .returned .receive r => a.lateCall t = true → r = .int (-ENOTCONN)
  | .returned .shutdown _ => a.closed = true
  | _ => True

def lifetime (T : Type) [DecidableEq T] (d₀ : Nat) : Machine T Event (Life T) where
  next := Life.next
  ok := Life.Ok d₀

/-! ## what the machine promises -/

/-- receivers and a close exclude one another; a connection is stopped before it is taken -/
structure Life.Sound (a : Life T) : Prop where
  live : a.receivers.Nonempty → a.taken = false
  closed : a.closed = true → a.taken = true
  stopped : a.taken = true → a.stopped = true
  lateCall : ∀ t, a.lateCall t = true → a.stopped = true
  lateSend : ∀ t, a.lateSend t = true → a.stopped = true

omit [DecidableEq T] in
theorem Life.Sound.start : (Life.start : Life T).Sound :=
  ⟨fun h => (Finset.not_nonempty_empty h).elim, fun h => (nomatch h), fun h => (nomatch h),
    fun _ h => (nomatch h), fun _ h => (nomatch h)⟩

omit [DecidableEq T] in
/-- nothing is late on a connection that is not stopped -/
theorem Life.Sound.prompt {a : Life T} (h : a.Sound) (hs : a.stopped = false) (t : T) :
    a.lateCall t = false ∧ a.lateSend t = false := by
  constructor
  · by_contra hc
    rw [h.lateCall t (by simpa using hc)] at hs
    cases hs
  · by_contra hc
    rw [h.lateSend t (by simpa using hc)] at hs
    cases hs

theorem Life.Sound.next {d₀ : Nat} {a : Life T} {t : T} {e : Event} (h : a.Sound)
    (hok : a.Ok d₀ t e) : (a.next t e).Sound := by
  cases e with
  | call =>
    refine { h with lateCall := fun u hu => ?_ }
    by_cases hut : u = t
    · subst hut
      simpa [Life.next] using hu
    · exact h.lateCall u (by simpa [Life.next, hut] using hu)
  | sendBegin =>
    refine { h with lateSend := fun u hu => ?_ }
    by_cases hut : u = t
    · subst hut
      simpa [Life.next] using hu
    · exact h.lateSend u (by simpa [Life.next, hut] using hu)
  | receiverIn => exact { h with live := fun _ => hok.2 }
  | receiverOut =>
    exact { h with live := fun hne => h.live (hne.mono (Finset.erase_subset _ _)) }
  | stop =>
    exact { h with stopped := fun _ => rfl, lateCall := fun _ _ => rfl, lateSend := fun _ _ => rfl }
  | takeDesc =>
    refine { h with live := fun hne => ?_, closed := fun _ => rfl, stopped := fun _ => hok.2 }
    have hne' : a.receivers.Nonempty := hne
    rw [hok.1] at hne'
    exact (Finset.not_nonempty_empty hne').elim
  | close => exact { h with closed := fun _ => hok.2.1 }
  | sendLocked => exact ⟨h.live, h.closed, h.stopped, h.lateCall, h.lateSend⟩
  | _ => exact h

theorem Life.Sound.of_legal {d₀ : Nat} {tr : Trace T} (h : (lifetime T d₀).Legal .start tr) :
    ((lifetime T d₀).replay .start tr).Sound :=
  h.inv Life.Sound.start fun _ _ _ hb hok => hb.next hok

theorem closed_of_close {d₀ : Nat} {tr : Trace T} {t : T} {d : Nat} (h : (t, Event.close d) ∈ tr) :
    ((lifetime T d₀).replay .start tr).closed = true := by
  induction tr with
  | nil => cases h
  | cons x tr ih =>
    obtain ⟨u, e⟩ := x
    rw [Machine.replay_cons]
    rcases List.mem_cons.mp h with hx | hx
    · cases hx
      rfl
    · have hc := ih hx
      show (Life.next _ u e).closed = true
      cases e <;> first | exact hc | rfl

end RaspikeArt
