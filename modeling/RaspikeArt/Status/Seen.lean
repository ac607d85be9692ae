import RaspikeArt.Status.History
import RaspikeArt.Model.Returns

/-!
# The saved status, part 6: what a thread has seen of it

* `lastStored`        what the last of the frames that a stretch of a history stores carries;
* `part_recordOf`     a part of the record that only frames change is what the last of them carries;
* `watching p hs A`     the labels of a thread, each with the record at its access;
* `seen_history`      what it has seen is what the history says.
-/

namespace RaspikeArt
open Threads

variable {T V : Type} [DecidableEq T]

/-! ## frames that have been stored -/

/-- what the frame carries that the thread stores with its next use of the saved status -/
def Doing.stores (a : Doing) (carry : Byte → List Byte → Option V) : Option V :=
  match a.call, a.frame with
  | some .receive, some (cmd, payload) => carry cmd payload
  | _, _ => none

/-- what the last frame carries that is stored in `xs`, after the history `ys` -/
def lastStored (carry : Byte → List Byte → Option V) (ys : Trace T) : Trace T → Option V
  | [] => none
  | (u, e) :: xs =>
    Option.or (if e.isUse then (doing u (xs ++ ys)).stores carry else none) (lastStored carry ys xs)

theorem lastStored_append (carry : Byte → List Byte → Option V) (ys zs xs : Trace T) :
    lastStored carry ys (zs ++ xs) = (lastStored carry (xs ++ ys) zs).or (lastStored carry ys xs) := by
  induction zs with
  | nil => rfl
  | cons x zs ih =>
    obtain ⟨u, e⟩ := x
    show Option.or (if e.isUse then (doing u (zs ++ xs ++ ys)).stores carry else none)
      (lastStored carry ys (zs ++ xs)) = _
    rw [ih, List.append_assoc]
    exact Option.or_assoc.symm

/-- the frames of a history say what has become of the part, whoever else has used the record -/
structure Carries (part : SpikeStatus → V) (carry : Byte → List Byte → Option V) (ys xs : Trace T) : Prop where
  frame : ∀ cmd payload s, part (frameStore cmd payload s) = (carry cmd payload).getD (part s)
  other : ∀ as u e bs i, xs = as ++ (u, e) :: bs → e.isUse = true →
    (doing u (bs ++ ys)).call = some (.motorResetCount (some i)) → ∀ s, part (clearCount i s) = part s

theorem Carries.tail {part : SpikeStatus → V} {carry : Byte → List Byte → Option V} {ys xs : Trace T}
    {x : T × Event} (h : Carries part carry ys (x :: xs)) : Carries part carry ys xs where
  frame := h.frame
  other as u e bs i hxs := h.other (x :: as) u e bs i (congrArg (x :: ·) hxs)

theorem part_writes {part : SpikeStatus → V} {carry : Byte → List Byte → Option V} {a : Doing}
    (hframe : ∀ cmd payload s, part (frameStore cmd payload s) = (carry cmd payload).getD (part s))
    (hother : ∀ i, a.call = some (.motorResetCount (some i)) → ∀ s, part (clearCount i s) = part s)
    (s : SpikeStatus) : part (a.writes s) = (a.stores carry).getD (part s) := by
  obtain ⟨call, frame⟩ := a
  cases call with
  | none => rfl
  | some c =>
    cases c with
    | receive =>
      cases frame with
      | none => rfl
      | some f => exact hframe f.1 f.2 s
    | motorResetCount motor =>
      cases motor with
      | none => rfl
      | some i => exact hother i rfl s
    | _ => rfl

/-- the part is what the last stored frame carries, or what it was -/
theorem part_recordOf {part : SpikeStatus → V} {carry : Byte → List Byte → Option V} {ys xs : Trace T}
    {s : SpikeStatus} (h : Carries part carry ys xs) :
    part (recordOf s (xs ++ ys)) = (lastStored carry ys xs).getD (part (recordOf s ys)) := by
  induction xs with
  | nil => rfl
  | cons x xs ih =>
    obtain ⟨u, e⟩ := x
    have hrest := ih h.tail
    show part (if e.isUse then (doing u (xs ++ ys)).writes (recordOf s (xs ++ ys)) else recordOf s (xs ++ ys)) =
      (Option.or (if e.isUse then (doing u (xs ++ ys)).stores carry else none) (lastStored carry ys xs)).getD _
    by_cases he : e.isUse = true
    · rw [if_pos he, if_pos he, part_writes h.frame fun i hi => h.other [] u e xs i rfl he hi, hrest]
      cases (doing u (xs ++ ys)).stores carry <;> rfl
    · rw [if_neg he, if_neg he, hrest]
      rfl

/-! ## what a thread is at -/

theorem doing_call {t : T} {tr : Trace T} {c : Call} (h : (doing t tr).call = some c) : (t, .call c) ∈ tr := by
  induction tr with
  | nil => cases h
  | cons x tr ih =>
    obtain ⟨u, e⟩ := x
    by_cases hu : u = t
    · subst hu
      have hnext : ((doing u tr).next e).call = some c := by rwa [doing, ownFold, if_pos rfl] at h
      cases e with
      | call c' =>
        cases hnext
        exact List.mem_cons_self
      | returned => cases hnext
      | _ => exact List.mem_cons_of_mem _ (ih hnext)
    · rw [doing, ownFold, if_neg hu] at h
      exact List.mem_cons_of_mem _ (ih h)

/-! ## what a thread has seen -/

section
variable {p : Nat} {hs : Set Port} {A : List (Event × SpikeStatus) → Event → SpikeStatus → Prop}
  {calls : T → List Call} {m : Mem} {c : Sys T} {t : T}

/-- the labels of a thread, each with the record at its access -/
def watching (p : Nat) (hs : Set Port) (A : List (Event × SpikeStatus) → Event → SpikeStatus → Prop) :
    Local CondVar Event Mem := reading Mem.record (Live p hs) A

/-- at every own entry of a run the promise holds of what the thread has seen -/
theorem seen_history (hports : ∀ i ∈ hs, i.val < 6) (hinit : NoInit calls) (hdown : NoShutdown calls)
    (hreset : Resets hs calls) (hm : Live p hs m) (hr : Reach (start m calls) c)
    (hp : along (watching p hs A) (client (calls t)) (fun _ _ => True) []) {as bs : Trace T} {e : Event}
    (hsplit : c.trace = as ++ (t, e) :: bs) :
    A (ownReads (recordOf m.record) t bs) e (recordOf m.record bs) :=
  hr.reads (recordOf m.record) rfl (fun _ h => ⟨(record_history hports hinit hdown hreset hm h).1,
    (record_history hports hinit hdown hreset hm h).2.1⟩) hp hsplit

end

end RaspikeArt
