import RaspikeArt.Protocol.Sequence
import RaspikeArt.Model.Connected
import RaspikeArt.Threads.Finish
import RaspikeArt.Threads.Outcome
import RaspikeArt.Threads.Local

/-!
# Sequence numbers across the wrap-around

* `drawn tr`               the numbers that `next_sequence` has given, in the order of the draws;
* `nextSequence_draws`     a call returns the number it draws, whatever the other threads do;
* `nextSequence_finishes`  and it does return;
* `raspikeProtInit_next`   the counter starts at 1;
* `sequence_numbers`       the `k`-th draw gives `1 + k % (2 ^ 32 - 1)`.
-/

namespace RaspikeArt
open Threads

def Event.number : Event → Option U32
  | .drawn s => some s
  | _ => none

def drawn {T : Type} (tr : Trace T) : List U32 := (tr.filterMap fun x => x.2.number).reverse

section
variable {T : Type} [DecidableEq T]

theorem drawn_eq {tr : Trace T} (h : (sequences T).Legal .start tr) :
    drawn tr = (List.range (draws tr)).map nthSequence := by
  induction tr with
  | nil => rfl
  | cons x tr ih =>
    obtain ⟨u, e⟩ := x
    have htl := ih h.tail
    cases e with
    | drawn s =>
      have hs : s = nthSequence (draws tr) := by
        rw [← draws_eq]
        exact h.1
      have hcount : draws ((u, .drawn s) :: tr) = draws tr + 1 := by simp [draws, Event.isDrawn]
      rw [hcount, List.range_succ, List.map_append, ← htl, hs]
      exact List.reverse_cons
    | _ =>
      show drawn tr = _
      rw [htl]
      simp [draws, Event.isDrawn]

end

/-! ## one call -/

/-- the own steps of a call: one draw, which the call returns -/
def ReturnsDraw (ss : List (Own CondVar Event Mem)) (s : U32) (ss' : List (Own CondVar Event Mem)) :
    Prop :=
  ∃ xs, ss' = xs ++ ss ∧ xs.filterMap Own.label = [.drawn s]

theorem nextSequence_draws (ss : List (Own CondVar Event Mem)) :
    along (recording (fun _ => True) fun _ _ => True) (nextSequence : P U32) (ReturnsDraw ss) ss := by
  apply along_bind
  apply along_lock
  apply along_bind
  apply along_act
  intro m _
  refine ⟨trivial, ?_⟩
  apply along_bind
  apply along_act
  intro m₁ _
  refine ⟨trivial, ?_⟩
  apply along_bind
  by_cases hz : m₁.fgNextSequence = 0
  · rw [if_pos hz]
    apply along_act
    intro m₂ _
    exact ⟨trivial, [_, _, _], rfl, rfl⟩
  · rw [if_neg hz]
    exact ⟨[_, _], rfl, rfl⟩

theorem nextSequence_finishes {w : World Unit Mutex Event Mem} (hl : w.own .fgSequence = none) :
    Finishes nextSequence w fun s w' => drawn w'.trace = drawn w.trace ++ [s] := by
  have hdrawn : ∀ s, drawn (((), .drawn s) :: w.trace) = drawn w.trace ++ [s] :=
    fun _ => List.reverse_cons
  apply finish_bind
  apply finish_lock hl
  apply finish_bind
  apply finish_act
  apply finish_bind
  apply finish_load
  apply finish_bind
  split
  · apply finish_modify
    apply finish_bind
    apply finish_unlock
    exact finish_pure (hdrawn _)
  · apply finish_pure
    apply finish_bind
    apply finish_unlock
    exact finish_pure (hdrawn _)

/-! ## the start -/

theorem raspikeProtInit_next {d : Nat} {w : World Unit Mutex Event Mem} (hdesc : w.mem.fgDesc = none) :
    Settles (raspikeProtInit (some d)) w fun _ w' => w'.mem.fgNextSequence = 1 := by
  let F : ∀ α : Type, P α → Prop := fun _ p => Does {k | k ≠ .seq} Set.univ p
  have hF : Passes F {k | k ≠ .seq} Set.univ := ⟨Does.pure, Does.bind, id⟩
  have hkeeps : ∀ {α : Type} {p : P α} {w : World Unit Mutex Event Mem}, F α p →
      w.mem.fgNextSequence = 1 → Settles p w fun _ w' => w'.mem.fgNextSequence = 1 := by
    intro α p w hp hw
    apply settle_all (R := fun m => m.fgNextSequence = 1) _ hp hw
    intro e f m hacc hm
    obtain ⟨k, hk, hstep⟩ := hacc m
    exact (hstep.touches.rest.next hk).trans hm
  have hall : ∀ k ≠ Kind.seq, k ∈ ({k | k ≠ .seq} : Set Kind) := fun _ h => h
  have hlock : ∀ l, l ∈ (Set.univ : Set Mutex) := Set.mem_univ
  have hk : negotiateKinds ⊆ {k | k ≠ .seq} := by
    rintro _ h rfl
    exact h
  rw [raspikeProtInit, if_neg (by simp)]
  apply settle_bind
  apply settle_lock
  intro _
  apply settle_bind
  apply settle_load
  rw [if_neg (by simp [World.acquire, hdesc])]
  apply settle_bind
  apply settle_modify
  apply settle_bind
  apply settle_modify
  apply settle_bind
  apply settle_modify
  apply settle_bind
  apply settle_act
  apply settle_bind
  apply settle_act
  apply settle_bind
  apply settle_act
  apply settle_bind
  apply settle_modify
  apply settle_bind
  apply settle_unlock
  apply settle_bind
  apply settle_modify
  -- nothing after this writes the counter
  refine hkeeps ?_ rfl
  refine hF.bind (hF.does ?_) fun _ => ?_
  · exact Does.modify .quiet (hall _ (by simp)) rfl fun m => ⟨⟨m.com, _, _, _, _, rfl, rfl⟩, fun _ => rfl⟩
  refine hF.bind (hF.does (setRuntimeTelemetry_all (hall _ (by simp)) _)) fun _ => ?_
  refine hF.bind (hF.does (callocStatus_all (hall _ (by simp)))) fun status => ?_
  split
  · exact hF.bind (hF.does (clearDesc_all hk (Set.subset_univ _))) fun _ => hF.pure _
  refine hF.bind (hF.does ?_) fun _ => ?_
  · exact initPorts_all (hall _ (by simp)) (hall _ (by simp)) (hall _ (by simp)) (hall _ (by simp)) (fun _ => hlock _)
      fun _ => hlock _
  exact initNegotiate_passes hk (Set.subset_univ _) hF
    (fun desc buf => raspikeComSend_all (hall _ (by simp)) (fun _ _ => hall _ (by simp)) (hlock _) buf)
    (fun desc => raspikeComFlush_all (hall _ (by simp)) (fun _ _ => hall _ (by simp)) (hlock _))
    (setUseV2_all (hall _ (by simp))) (setSession_all (hall _ (by simp)))

/-! ## all calls -/

section
variable {T : Type} [DecidableEq T]

/-- **Sequence numbers** are never 0 and do not come back within `2 ^ 32 - 1` draws. -/
theorem sequence_numbers {d : Nat} {w w' : World Unit Mutex Event Mem} {r : Int}
    {calls : T → List Call} {c : Sys T} (hdesc : w.mem.fgDesc = none)
    (hinit : Ends (raspikeProtInit (some d)) w r w') (hc : NoInit calls)
    (hr : Reach (start w'.mem calls) c) :
    (∀ k (hk : k < (drawn c.trace).length), (drawn c.trace)[k].toNat = 1 + k % (2 ^ 32 - 1)) ∧
    0 ∉ drawn c.trace ∧
    (∀ xs ys zs, drawn c.trace = xs ++ ys ++ zs → ys.length ≤ 2 ^ 32 - 1 → ys.Nodup) ∧
    (∀ ss, along (recording (fun _ => True) fun _ _ => True) (nextSequence : P U32) (ReturnsDraw ss) ss) ∧
    ∀ u : World Unit Mutex Event Mem, u.own .fgSequence = none →
      Finishes nextSequence u fun s u' => drawn u'.trace = drawn u.trace ++ [s] := by
  have hone := (raspikeProtInit_next hdesc).ends r w' hinit
  have heq := drawn_eq (sequence_refines hone hc hr)
  have hnth : ∀ k (hk : k < (drawn c.trace).length), (drawn c.trace)[k] = nthSequence k := by
    intro k hk
    simp only [heq, List.getElem_map, List.getElem_range]
  refine ⟨fun k hk => ?_, fun hzero => ?_, fun xs ys zs hsplit hlen => ?_, nextSequence_draws,
    fun _ => nextSequence_finishes⟩
  · rw [hnth k hk]
    exact nthSequence_toNat k
  · obtain ⟨k, hk, h0⟩ := List.getElem_of_mem hzero
    rw [hnth k hk] at h0
    exact nthSequence_ne_zero k h0
  · -- the window starts after `xs.length` draws
    have hys : ∀ i (hi : i < ys.length), ys[i] = nthSequence (xs.length + i) := by
      intro i hi
      have hlt : xs.length + i < (drawn c.trace).length := by
        rw [hsplit, List.length_append, List.length_append]
        omega
      rw [← hnth _ hlt]
      simp only [hsplit]
      rw [List.getElem_append_left (by rw [List.length_append]; omega),
        List.getElem_append_right (Nat.le_add_right ..)]
      simp only [Nat.add_sub_cancel_left]
    rw [List.nodup_iff_injective_getElem]
    intro i j hij
    dsimp only at hij
    rw [hys i i.isLt, hys j j.isLt] at hij
    have hmod := congrArg BitVec.toNat hij
    rw [nthSequence_toNat, nthSequence_toNat] at hmod
    have hperiod : sequencePeriod = 2 ^ 32 - 1 := rfl
    have hi := i.isLt
    have hj := j.isLt
    rw [hperiod] at hmod
    apply Fin.ext
    omega

end

/-- the answer to the handshake, and a HELLO of session 9 -/
def welcome : List Byte :=
  [rpCmdInit, rpCmdInitMagic, 0, 8, 4] ++
    legacyFrame rpPortNone rpCmdIdLinkHello [2, 1, 255, 0, 9, 0, 0, 0, 0, 0, 0, 0]

/-- not connected, and the device welcomes an init -/
def welcomeWorld : World Unit Mutex Event Mem :=
  ⟨{ freshMem [.data welcome] [] with fgDesc := none }, fun _ => none, []⟩

def drawingCalls : Bool → List Call
  | false => [.send 0 96 none 0, .request 2 3 none 0]
  | true => [.sendPriority 1 96 none 0]

/-- the init succeeds, and two threads draw the first three numbers -/
theorem sequence_numbers_run : ∃ w' c, Ends (raspikeProtInit (some 0)) welcomeWorld 0 w' ∧
    Reach (start w'.mem drawingCalls) c ∧ drawn c.trace = [1, 2, 3] ∧
    (∀ k (hk : k < (drawn c.trace).length), (drawn c.trace)[k].toNat = 1 + k % (2 ^ 32 - 1)) ∧
    0 ∉ drawn c.trace := by
  obtain ⟨⟨r, w'⟩, heval⟩ : ∃ x, evalAlone 160 (raspikeProtInit (some 0)) welcomeWorld = some x :=
    Option.isSome_iff_exists.mp (by decide +kernel)
  have hzero : ∀ x ∈ evalAlone 160 (raspikeProtInit (some 0)) welcomeWorld, x.1 = 0 := by
    decide +kernel
  cases hzero _ heval
  obtain ⟨c, hc⟩ : ∃ c, exec (start w'.mem drawingCalls)
      (steps 5 true ++ steps 6 false ++ steps 28 true ++ steps 28 false) = some c := by
    have hsome : ∀ x ∈ evalAlone 160 (raspikeProtInit (some 0)) welcomeWorld,
        (exec (start x.2.mem drawingCalls)
          (steps 5 true ++ steps 6 false ++ steps 28 true ++ steps 28 false)).isSome := by
      decide +kernel
    exact Option.isSome_iff_exists.mp (hsome _ heval)
  have hdrawn : ∀ x ∈ evalAlone 160 (raspikeProtInit (some 0)) welcomeWorld,
      ∀ c ∈ exec (start x.2.mem drawingCalls)
        (steps 5 true ++ steps 6 false ++ steps 28 true ++ steps 28 false),
      drawn c.trace = [1, 2, 3] := by
    decide +kernel
  have hinit := evalAlone_ends heval
  have hno : NoInit drawingCalls := by
    intro t
    cases t <;> simp [drawingCalls]
  obtain ⟨hnth, hpos, -⟩ := sequence_numbers rfl hinit hno (exec_reach hc)
  exact ⟨w', c, hinit, exec_reach hc, hdrawn _ heval c hc, hnth, hpos⟩

end RaspikeArt
