import RaspikeArt.Lifetime.Specs
import RaspikeArt.Model.Connected

/-!
# Lifetime of a connection, part 4: the descriptor and the receivers

* `insideReceive`         the thread is between the entry check and the `done` section;
* `descriptor_lifetime`   at most one close, no input or output after it, and
                          `fgActiveReceivers` counts the threads inside.
-/

set_option linter.unusedSectionVars false

namespace RaspikeArt
open Threads

variable {T : Type} [DecidableEq T]

/-- the newest of the two labels of a thread says whether it is inside -/
def insideReceive : Trace T → T → Prop
  | [], _ => False
  | (u, e) :: tr, t =>
    match e with
    | .receiverIn => u = t ∨ insideReceive tr t
    | .receiverOut => u ≠ t ∧ insideReceive tr t
    | _ => insideReceive tr t

theorem insideReceive_iff (d₀ : Nat) (tr : Trace T) (t : T) :
    insideReceive tr t ↔ t ∈ (lifeOf d₀ tr).receivers := by
  induction tr with
  | nil => exact ⟨False.elim, fun h => absurd h (Finset.notMem_empty t)⟩
  | cons x tr ih =>
    obtain ⟨u, e⟩ := x
    cases e with
    | receiverIn =>
      show u = t ∨ insideReceive tr t ↔ t ∈ insert u (lifeOf d₀ tr).receivers
      rw [Finset.mem_insert, ih, eq_comm]
    | receiverOut =>
      show u ≠ t ∧ insideReceive tr t ↔ t ∈ (lifeOf d₀ tr).receivers.erase u
      rw [Finset.mem_erase, ih, ne_comm]
    | _ => exact ih

/-- a receive has passed its entry check -/
def Event.enters : Event → Bool
  | .receiverIn => true
  | _ => false

/-- a receive is done -/
def Event.leaves : Event → Bool
  | .receiverOut => true
  | _ => false

/-- input or output on a descriptor -/
def Event.isIo : Event → Prop
  | .io _ _ | .wrote _ _ => True
  | _ => False

def Event.isClose : Event → Bool
  | .close _ => true
  | _ => false

def closes (tr : Trace T) : Nat := tr.countP fun x => x.2.isClose

theorem closes_le {d₀ : Nat} {tr : Trace T} (h : (lifetime T d₀).Legal .start tr) :
    closes tr ≤ if (lifeOf d₀ tr).closed then 1 else 0 := by
  induction tr with
  | nil => exact Nat.zero_le _
  | cons x tr ih =>
    obtain ⟨u, e⟩ := x
    have hle := ih h.tail
    cases e with
    | close d =>
      rw [h.1.2.2] at hle
      have hz : closes tr = 0 := Nat.le_zero.mp hle
      show closes ((u, .close d) :: tr) ≤ 1
      rw [closes, List.countP_cons_of_pos rfl]
      exact Nat.succ_le_succ (Nat.le_of_eq hz)
    | _ =>
      rw [closes, List.countP_cons_of_neg (by exact Bool.false_ne_true)]
      exact hle

theorem no_io_after_close {d₀ : Nat} {as bs : Trace T} {t : T} {d : Nat}
    (h : (lifetime T d₀).Legal .start (as ++ (t, .close d) :: bs)) :
    ∀ x ∈ as, ¬ x.2.isIo := by
  rintro ⟨u, e⟩ hx hio
  obtain ⟨as₁, as₂, rfl⟩ := List.append_of_mem hx
  rw [List.append_assoc, List.cons_append] at h
  have hguard := h.guard
  have hclosed : (lifeOf d₀ (as₂ ++ (t, .close d) :: bs)).closed = true :=
    closed_of_close (t := t) (d := d) (by simp)
  cases e with
  | io d' k => rw [hguard.2] at hclosed; cases hclosed
  | wrote d' bs' => rw [hguard.2] at hclosed; cases hclosed
  | _ => exact hio

theorem Connected.idle {d₀ : Nat} {m : Mem} (h : Connected d₀ m) : Idle d₀ m := ⟨h.desc, h.active⟩

/-- **the descriptor**: closed at most once and not used after, whoever runs; and the count of
active receivers is exact -/
theorem descriptor_lifetime {d₀ : Nat} {m : Mem} (hm : Connected d₀ m) {calls : T → List Call}
    (hc : NoInit calls) {c : Sys T} (hr : Reach (start m calls) c) :
    closes c.trace ≤ 1 ∧
    (∀ as bs t d, c.trace = as ++ (t, .close d) :: bs → d = d₀ ∧ ∀ x ∈ as, ¬ x.2.isIo) ∧
    ∃ s : Finset T, (∀ t, t ∈ s ↔ insideReceive c.trace t) ∧ c.mem.fgActiveReceivers = s.card := by
  obtain ⟨gs, hI⟩ := lifetime_refines hm.idle hc hr
  refine ⟨?_, ?_, (lifeOf d₀ c.trace).receivers, ?_, hI.count⟩
  · have hle := closes_le hI.legal
    split at hle <;> omega
  · intro as bs t d htr
    have hlegal := hI.legal
    rw [htr] at hlegal
    exact ⟨hlegal.guard.1, no_io_after_close hlegal⟩
  · exact fun t => (insideReceive_iff d₀ c.trace t).symm

/-- a thread receives, another one shuts the connection down -/
def receiveThenShutdown : Bool → List Call
  | false => [.receive]
  | true => [.shutdown]

theorem descriptor_lifetime_run : ∃ c, exec (start (freshMem [] []) receiveThenShutdown)
      (steps 20 false ++ steps 74 true) = some c ∧
    closes c.trace ≤ 1 ∧
    (∀ as bs t d, c.trace = as ++ (t, .close d) :: bs → d = 0 ∧ ∀ x ∈ as, ¬ x.2.isIo) ∧
    ∃ s : Finset Bool, (∀ t, t ∈ s ↔ insideReceive c.trace t) ∧
      c.mem.fgActiveReceivers = s.card := by
  obtain ⟨c, hrun⟩ := Option.isSome_iff_exists.mp (show (exec
    (start (freshMem [] []) receiveThenShutdown) (steps 20 false ++ steps 74 true)).isSome
    by decide +kernel)
  have hc : NoInit receiveThenShutdown := by
    intro t
    cases t <;> simp [receiveThenShutdown]
  exact ⟨c, hrun, descriptor_lifetime (freshMem_connected [] []) hc (exec_reach hrun)⟩

end RaspikeArt
