import RaspikeArt.Model.Calls
import RaspikeArt.Threads.History

/-!
# The call a thread is in

* `stage t tr`     the call that the thread `t` has begun and not finished, and whether it is
                   counted as a receiver;
* `inside_kinds`   the labels that a thread leaves are of the kinds of its stage.
-/

set_option linter.unusedSectionVars false

namespace RaspikeArt
open Threads

variable {T : Type} [DecidableEq T]

inductive Stage where
  | idle
  | inCall (c : Call)
  /-- in `raspike_prot_receive`, between the entry section and the `done` section -/
  | receiving
  deriving DecidableEq

/-- the stage that begins with a label -/
def Event.stage : Event → Option Stage
  | .call c => some (.inCall c)
  | .returned _ _ => some .idle
  | .receiverIn => some .receiving
  | .receiverOut => some (.inCall .receive)
  | _ => none

def stage (t : T) : Trace T → Stage
  | [] => .idle
  | (u, e) :: tr => if u = t then e.stage.getD (stage t tr) else stage t tr

theorem stage_of_ne {t u : T} {e : Event} {tr : Trace T} (h : u ≠ t) :
    stage t ((u, e) :: tr) = stage t tr := if_neg h

theorem stage_of_none {t u : T} {e : Event} {tr : Trace T} (h : e.stage = none) :
    stage t ((u, e) :: tr) = stage t tr := by
  show (if u = t then e.stage.getD (stage t tr) else stage t tr) = stage t tr
  rw [h]
  exact ite_self _

theorem stage_self {t : T} {e : Event} {s : Stage} (tr : Trace T) (h : e.stage = some s) :
    stage t ((t, e) :: tr) = s := by
  rw [stage, if_pos rfl, h]
  rfl

theorem Event.stage_none {e : Event} (h : e.kind ≠ .call) (h' : e.kind ≠ .receivers) :
    e.stage = none := by
  cases e with
  | call | returned => exact (h rfl).elim
  | receiverIn | receiverOut => exact (h' rfl).elim
  | _ => rfl

variable {kindsOf : Stage → Set Kind} {t : T}

/-- a label is of a kind of the stage, or ends it -/
def Within (kindsOf : Stage → Set Kind) (tr : Trace T) (t : T) (e : Event) : Prop :=
  e.kind ∈ kindsOf (stage t tr) ∨ e.stage ≠ none

/-- the ghost of a thread is its stage -/
def insideLogic (T : Type) [DecidableEq T] (kindsOf : Stage → Set Kind) :
    Logic T Mutex CondVar Event Mem where
  G := Stage
  K := fun _ => True
  I := fun w gs => (∀ t, gs t = stage t w.trace) ∧ Along (Within kindsOf) w.trace
  A := fun _ _ _ => True

/-- a set of kinds that leave the stage alone -/
def Staying (ks : Set Kind) : Prop := Kind.call ∉ ks ∧ Kind.receivers ∉ ks

theorem inside_neutral {s : Stage} (hs : Staying (kindsOf s)) :
    (insideLogic T kindsOf).Neutral (Acc (kindsOf s)) (· ∈ Set.univ) t s where
  act := by
    rintro e f hacc w gs ⟨hstage, hwithin⟩ hg -
    obtain ⟨k, hk, hstep⟩ := hacc w.mem
    cases hx : e w.mem with
    | none => exact ⟨hstage, hwithin⟩
    | some x =>
      have hkind : x.kind = k := hstep.label x hx
      have hnone : x.stage = none := by
        apply Event.stage_none
        · exact fun h => hs.1 (h ▸ hkind ▸ hk)
        · exact fun h => hs.2 (h ▸ hkind ▸ hk)
      refine ⟨fun u => (hstage u).trans (stage_of_none hnone).symm, .inl ?_, hwithin⟩
      rw [← hstage t, hg, hkind]
      exact hk
  acquire _ _ _ hI _ _ := hI
  release _ _ _ hI _ := hI
  places _ := ⟨trivial, trivial, fun _ => trivial, trivial⟩

theorem inside_skip {s : Stage} (hs : Staying (kindsOf s)) {α : Type} {p : P α}
    {Q : α → Stage → Prop} (hp : Does (kindsOf s) Set.univ p) (hQ : ∀ a, Q a s) :
    wp (insideLogic T kindsOf) t p Q s :=
  wp_all (inside_neutral hs) hp hQ

/-- an access that begins a stage -/
theorem inside_mark {e : Event} {f : Mem → Unit × Mem} {s s' : Stage} {Q : Unit → Stage → Prop}
    (hs : e.stage = some s') (hQ : Q () s') :
    wp (insideLogic T kindsOf) t (.act (fun _ => some e) f .ret : P Unit) Q s := by
  apply wp_act
  rintro w gs ⟨hstage, hwithin⟩ hg -
  refine ⟨s', ⟨fun u => ?_, .inr (by rw [hs]; exact nofun), hwithin⟩, hQ⟩
  show Function.update gs t s' u = stage u ((t, e) :: w.trace)
  by_cases hu : u = t
  · subst hu
    exact (Function.update_self ..).trans (stage_self _ hs).symm
  · apply (Function.update_of_ne hu ..).trans
    exact (hstage u).trans (stage_of_ne (Ne.symm hu)).symm

/-! ## the calls -/

/-- what is asked of the kinds: every call but a receive has them, and the sections of a receive -/
structure Covers (kindsOf : Stage → Set Kind) (calls : List Call) : Prop where
  staying : ∀ s, Staying (kindsOf s)
  body : ∀ c ∈ calls, c ≠ .receive → Does (kindsOf (.inCall c)) Set.univ c.body
  entry : Kind.quiet ∈ kindsOf (.inCall .receive)
  frame : Does (kindsOf .receiving) Set.univ receiveFrame

theorem raspikeProtReceive_inside {calls : List Call} (h : Covers kindsOf calls) :
    wp (insideLogic T kindsOf) t raspikeProtReceive (fun _ s => s = .inCall .receive)
      (.inCall .receive) := by
  have hin := h.staying (.inCall .receive)
  have hrec := h.staying .receiving
  refine wp_bind (inside_skip hin (Does.lock (Set.mem_univ _)) fun _ => ?_)
  refine wp_bind (inside_skip hin (Does.orElse (Does.load h.entry)
    (Does.orElse (Does.load h.entry) (Does.load h.entry))) fun down => ?_)
  split
  · exact wp_bind (inside_skip hin (Does.unlock (Set.mem_univ _)) fun _ => wp_pure rfl)
  refine wp_bind (inside_mark rfl ?_)
  refine wp_bind (inside_skip hrec (Does.unlock (Set.mem_univ _)) fun _ => ?_)
  refine wp_bind (inside_skip hrec h.frame fun result => wp_bind ?_)
  refine wp_bind (inside_skip hrec (Does.lock (Set.mem_univ _)) fun _ => ?_)
  refine wp_bind (inside_mark rfl ?_)
  refine wp_bind (inside_skip hin (Does.load h.entry) fun active => wp_bind ?_)
  have hend : wp (insideLogic T kindsOf) t (unlock .fgLifecycle : P Unit)
      (fun _ => wp (insideLogic T kindsOf) t (pure result : P Int)
        fun _ s => s = .inCall .receive) (.inCall .receive) :=
    inside_skip hin (Does.unlock (Set.mem_univ _)) fun _ => wp_pure rfl
  split
  · exact wp_broadcast hend
  · exact wp_pure hend

theorem client_inside {calls : List Call} (h : Covers kindsOf calls) {s : Stage} :
    wp (insideLogic T kindsOf) t (client calls) (fun _ _ => True) s := by
  induction calls generalizing s with
  | nil => exact wp_pure trivial
  | cons c calls ih =>
    refine wp_seq (fun _ _ => True) ?_ fun _ _ _ =>
      ih { h with body := fun c' hmem => h.body c' (List.mem_cons_of_mem _ hmem) }
    refine wp_bind (inside_mark rfl (wp_seq (fun _ s => s = .inCall c) ?_ fun r s' hs' => ?_))
    · by_cases hc : c = .receive
      · subst hc
        exact wp_seq _ (raspikeProtReceive_inside h) fun _ _ hs => wp_pure hs
      · exact inside_skip (h.staying _) (h.body c List.mem_cons_self hc) fun _ => rfl
    · exact inside_mark rfl trivial

/-- in every run, the labels of a thread are of the kinds of its stage -/
theorem inside_kinds {m : Mem} {calls : T → List Call} (h : ∀ t, Covers kindsOf (calls t)) {c : Sys T}
    (hr : Reach (start m calls) c) : Along (Within kindsOf) c.trace := by
  have hstart : (insideLogic T kindsOf).Holds (start m calls) fun _ => .idle :=
    ⟨⟨fun _ => rfl, trivial⟩, fun t => client_inside (h t)⟩
  have hv := hr.via (K := fun _ => True) (fun _ _ _ => trivial) trivial
  obtain ⟨gs, hI, -⟩ := (insideLogic T kindsOf).reach hstart hv
  exact hI.2

end RaspikeArt
