import RaspikeArt.Protocol.RequestsSpecs

/-!
# Requests, part 4: the requests in flight, as the history shows them

* `openRequests`     the calls between their `pend` and their `finish`, on one port;
* `Request.Story`    where in the history a request was made pending, and where it was completed;
* `story`            every request of the machine has one.
-/

set_option linter.unusedSectionVars false

namespace RaspikeArt
open Threads

variable {T : Type} [DecidableEq T] {d₀ : Nat} {s₀ : U32} {i : Port} {st : Request T}

/-- a request is made pending on the port, or finishes there -/
def Event.opens (i : Port) : Event → Prop
  | .pend j _ _ | .finish j .. => j = i
  | _ => False

/-- a request is completed on the port -/
def Event.completes (i : Port) : Event → Prop
  | .ack j .. | .cancel j _ => j = i
  | _ => False

/-- the calls inside a request on the port, with their sequence numbers -/
def openRequests (i : Port) : Trace T → List (T × U32)
  | [] => []
  | (t, e) :: tr =>
    match e with
    | .pend j _ s => if j = i then (t, s) :: openRequests i tr else openRequests i tr
    | .finish j _ s .. => if j = i then (openRequests i tr).erase (t, s) else openRequests i tr
    | _ => openRequests i tr

/-- the sessions of the frames of a thread, newest first -/
def sentBy (t : T) (tr : Trace T) : List U32 :=
  tr.filterMap fun x => match x.2 with
    | .frame _ _ _ s => if x.1 = t then some s else none
    | _ => none

theorem sentBy_frame (t u : T) (p c : Byte) (q s : U32) (tr : Trace T) :
    sentBy t ((u, .frame p c q s) :: tr) = if u = t then s :: sentBy t tr else sentBy t tr := by
  by_cases h : u = t <;> simp [sentBy, h]

/-- the completion of a request, in the history since it was made pending -/
def Completion.In (s₀ : U32) (i : Port) (s : U32) (xs ys : Trace T) : Option Completion → Prop
  | none => ∀ x ∈ xs, ¬ x.2.completes i
  | some (.acked session ackCmd ackData) => ∃ x₁ v x₂,
      xs = x₁ ++ (v, .ack i s session ackCmd ackData) :: x₂ ∧
      (∀ x ∈ x₁, ¬ x.2.completes i) ∧ ∀ x ∈ x₂, ¬ x.2.completes i
  | some (.cancelled session error) => ∃ x₁ v x₂, xs = x₁ ++ (v, .cancel i error) :: x₂ ∧
      (∀ x ∈ x₁, ¬ x.2.completes i) ∧ (∀ x ∈ x₂, ¬ x.2.completes i) ∧
      (portsOf s₀ (x₂ ++ ys)).session = session

/-- `xs` is the history since the request was made pending, `ys` what came before -/
structure Request.Story (s₀ : U32) (i : Port) (st : Request T) (tr xs ys : Trace T) : Prop where
  split : tr = xs ++ (st.thread, .pend i st.cmd st.sequence) :: ys
  opens : ∀ x ∈ xs, ¬ x.2.opens i
  frames : st.frames = sentBy st.thread xs
  done : Completion.In s₀ i st.sequence xs ((st.thread, .pend i st.cmd st.sequence) :: ys) st.done

theorem Completion.In.cons {s : U32} {xs ys : Trace T} {o : Option Completion} {x : T × Event}
    (h : Completion.In s₀ i s xs ys o) (hx : ¬ x.2.completes i) :
    Completion.In s₀ i s (x :: xs) ys o := by
  have hall : ∀ {zs : Trace T}, (∀ y ∈ zs, ¬ y.2.completes i) → ∀ y ∈ x :: zs, ¬ y.2.completes i := by
    intro zs hzs y hy
    rcases List.mem_cons.mp hy with rfl | hy
    · exact hx
    · exact hzs y hy
  match o, h with
  | none, h => exact hall h
  | some (.acked ..), ⟨x₁, v, x₂, hxs, h1, h2⟩ =>
    exact ⟨x :: x₁, v, x₂, by rw [hxs]; rfl, hall h1, h2⟩
  | some (.cancelled ..), ⟨x₁, v, x₂, hxs, h1, h2, h3⟩ =>
    exact ⟨x :: x₁, v, x₂, by rw [hxs]; rfl, hall h1, h2, h3⟩

/-- an entry that changes neither the thread, the frames nor the completion of the request -/
theorem Request.Story.cons {st' : Request T} {tr xs ys : Trace T} {x : T × Event}
    (h : st.Story s₀ i tr xs ys) (ho : ¬ x.2.opens i) (hc : ¬ x.2.completes i)
    (ht : st'.thread = st.thread) (hcmd : st'.cmd = st.cmd) (hseq : st'.sequence = st.sequence)
    (hframes : st'.frames = sentBy st.thread (x :: xs)) (hdone : st'.done = st.done) :
    st'.Story s₀ i (x :: tr) (x :: xs) ys := by
  refine ⟨?_, fun y hy => ?_, ?_, ?_⟩
  · rw [h.split, ht, hcmd, hseq]
    rfl
  · rcases List.mem_cons.mp hy with rfl | hy
    · exact ho
    · exact h.opens y hy
  · rw [ht]
    exact hframes
  · rw [ht, hcmd, hseq, hdone]
    exact h.done.cons hc

theorem story {tr : Trace T} (h : (requests T).Legal (.start s₀) tr)
    (hst : (portsOf s₀ tr).slot i = some st) : ∃ xs ys, st.Story s₀ i tr xs ys := by
  induction tr generalizing st with
  | nil => cases hst
  | cons x tr ih =>
    obtain ⟨t, e⟩ := x
    have hnext : ((portsOf s₀ tr).next t e).slot i = some st := hst
    -- a change of the request that its story does not tell
    have hkeep : ∀ {st₀ : Request T}, (portsOf s₀ tr).slot i = some st₀ → ¬ e.opens i →
        ¬ e.completes i → (∀ p c q s, e ≠ .frame p c q s) → st.thread = st₀.thread →
        st.cmd = st₀.cmd → st.sequence = st₀.sequence → st.frames = st₀.frames →
        st.done = st₀.done → ∃ xs ys, st.Story s₀ i ((t, e) :: tr) xs ys := by
      intro st₀ h₀ ho hc hf ht hcmd hseq hframes hdone
      obtain ⟨xs, ys, hs⟩ := ih h.tail h₀
      refine ⟨(t, e) :: xs, ys, hs.cons ho hc ht hcmd hseq ?_ hdone⟩
      rw [hframes, hs.frames]
      cases e <;> first
        | rfl
        | exact (hf _ _ _ _ rfl).elim
    cases e with
    | pend j cmd s =>
      by_cases hj : j = i
      · subst hj
        simp only [Ports.next, Function.update_self, Option.some.injEq] at hnext
        subst hnext
        exact ⟨[], tr, rfl, by simp, rfl, List.forall_mem_nil _⟩
      · simp only [Ports.next, Function.update_of_ne (Ne.symm hj)] at hnext
        exact hkeep hnext hj id (by simp) rfl rfl rfl rfl rfl
    | finish j cmd s completed b r =>
      by_cases hj : j = i
      · subst hj
        simp [Ports.next] at hnext
      · simp only [Ports.next, Function.update_of_ne (Ne.symm hj)] at hnext
        exact hkeep hnext hj id (by simp) rfl rfl rfl rfl rfl
    | ack j s session ackCmd ackData =>
      rcases Ports.onSlot_some hnext with ⟨hj, h₀⟩ | ⟨rfl, st₀, h₀, rfl⟩
      · exact hkeep h₀ id (Ne.symm hj) (by simp) rfl rfl rfl rfl rfl
      · obtain ⟨-, -, st₁, h₁, hnone, hs⟩ := h.1
        cases h₀.symm.trans h₁
        obtain ⟨xs, ys, hsplit, hopens, hframes, hdone⟩ := ih h.tail h₀
        rw [hnone] at hdone
        refine ⟨(t, .ack i s session ackCmd ackData) :: xs, ys, by rw [hsplit]; rfl, ?_, hframes,
          [], t, xs, by rw [hs]; rfl, by simp, hdone⟩
        intro y hy
        rcases List.mem_cons.mp hy with rfl | hy
        · exact id
        · exact hopens y hy
    | cancel j error =>
      rcases Ports.onSlot_some hnext with ⟨hj, h₀⟩ | ⟨rfl, st₀, h₀, rfl⟩
      · exact hkeep h₀ id (Ne.symm hj) (by simp) rfl rfl rfl rfl rfl
      · obtain ⟨⟨st₁, h₁, hnone⟩, -⟩ := h.1
        cases h₀.symm.trans h₁
        obtain ⟨xs, ys, hsplit, hopens, hframes, hdone⟩ := ih h.tail h₀
        rw [hnone] at hdone
        refine ⟨(t, .cancel i error) :: xs, ys, by rw [hsplit]; rfl, ?_, hframes, [], t, xs, rfl,
          (by simp), hdone, by rw [hsplit]⟩
        intro y hy
        rcases List.mem_cons.mp hy with rfl | hy
        · exact id
        · exact hopens y hy
    | clear j =>
      rcases Ports.onSlot_some hnext with ⟨hj, h₀⟩ | ⟨rfl, st₀, h₀, rfl⟩
      · exact hkeep h₀ id id (by simp) rfl rfl rfl rfl rfl
      · exact hkeep h₀ id id (by simp) rfl rfl rfl rfl rfl
    | gaveUp j s r =>
      rcases Ports.onSlot_some hnext with ⟨hj, h₀⟩ | ⟨rfl, st₀, h₀, rfl⟩
      · exact hkeep h₀ id id (by simp) rfl rfl rfl rfl rfl
      · exact hkeep h₀ id id (by simp) rfl rfl rfl rfl rfl
    | session s =>
      obtain ⟨st₀, h₀, rfl⟩ := Ports.mapSlots_some hnext
      exact hkeep h₀ id id (by simp) rfl rfl rfl rfl rfl
    | frame p c q s =>
      obtain ⟨st₀, h₀, rfl⟩ := Ports.mapSlots_some hnext
      obtain ⟨xs, ys, hs⟩ := ih h.tail h₀
      refine ⟨(t, .frame p c q s) :: xs, ys, hs.cons id id ?_ ?_ ?_ ?_ ?_⟩
      · split <;> rfl
      · split <;> rfl
      · split <;> rfl
      · by_cases ht : st₀.thread = t
        · rw [if_pos ht, sentBy_frame, if_pos ht.symm, ← hs.frames]
        · rw [if_neg ht, sentBy_frame, if_neg (Ne.symm ht), ← hs.frames]
      · split <;> rfl
    | _ => exact hkeep hnext id id (by simp) rfl rfl rfl rfl rfl

/-- the port of the machine holds the one call that is inside -/
theorem openRequests_eq {tr : Trace T} (h : (requests T).Legal (.start s₀) tr) (i : Port) :
    openRequests i tr = ((portsOf s₀ tr).slot i).toList.map fun st => (st.thread, st.sequence) := by
  induction tr with
  | nil => rfl
  | cons x tr ih =>
    obtain ⟨t, e⟩ := x
    have hold := ih h.tail
    -- a change of the request that leaves its thread and its sequence number
    have hmap : ∀ {a : Ports T} {f : Request T → Request T},
        (∀ st, (f st).thread = st.thread ∧ (f st).sequence = st.sequence) →
        a.slot i = ((portsOf s₀ tr).slot i).map f →
        openRequests i tr = (a.slot i).toList.map fun st => (st.thread, st.sequence) := by
      intro a f hf ha
      rw [hold, ha]
      cases (portsOf s₀ tr).slot i with
      | none => rfl
      | some st => simp [(hf st).1, (hf st).2]
    have honSlot : ∀ (j : Port) {f : Request T → Request T},
        (∀ st, (f st).thread = st.thread ∧ (f st).sequence = st.sequence) →
        openRequests i tr = (((portsOf s₀ tr).onSlot j f).slot i).toList.map fun st =>
          (st.thread, st.sequence) := by
      intro j f hf
      by_cases hj : i = j
      · subst hj
        exact hmap hf (Function.update_self ..)
      · exact hmap (f := id) (fun _ => ⟨rfl, rfl⟩) (by
          rw [Option.map_id]
          exact Function.update_of_ne hj _ _)
    cases e with
    | pend j cmd s =>
      show (if j = i then _ else _) = _
      by_cases hj : j = i
      · subst hj
        rw [if_pos rfl, hold, h.1.1]
        simp [requests, Ports.next]
      · rw [if_neg hj]
        exact hmap (f := id) (fun _ => ⟨rfl, rfl⟩) (by
          rw [Option.map_id]
          exact Function.update_of_ne (Ne.symm hj) _ _)
    | finish j cmd s completed b r =>
      show (if j = i then _ else _) = _
      by_cases hj : j = i
      · subst hj
        obtain ⟨st, hst, ht, -, hs, -⟩ := h.1
        rw [if_pos rfl, hold, hst, ← ht, ← hs]
        simp [requests, Ports.next]
      · rw [if_neg hj]
        exact hmap (f := id) (fun _ => ⟨rfl, rfl⟩) (by
          rw [Option.map_id]
          exact Function.update_of_ne (Ne.symm hj) _ _)
    | ack j s session ackCmd ackData => exact honSlot j fun _ => ⟨rfl, rfl⟩
    | cancel j error => exact honSlot j fun _ => ⟨rfl, rfl⟩
    | clear j => exact honSlot j fun _ => ⟨rfl, rfl⟩
    | gaveUp j s r => exact honSlot j fun _ => ⟨rfl, rfl⟩
    | session s =>
      exact hmap (f := fun st => { st with stale := st.stale || st.outdated s })
        (fun _ => ⟨rfl, rfl⟩) rfl
    | frame p c q s =>
      refine hmap (fun st => ?_) rfl
      split <;> exact ⟨rfl, rfl⟩
    | _ => exact hold

/-- a request that returns a cancellation was cancelled -/
theorem Request.Returns.cancelled {taken : Bool} {r : Int} (h : st.Returns taken .cancelled r) :
    ∃ s, st.done = some (.cancelled s r) := by
  have hun : ∀ r, unanswered r ≠ .cancelled := by
    intro r
    unfold unanswered
    split <;> exact nofun
  unfold Request.Returns at h
  split at h
  · exact (hun _ h.2.symm).elim
  · obtain ⟨comp, hcomp, h⟩ := h
    split at h
    · rcases h with h | ⟨-, -, h, -⟩
      · exact (hun _ h.symm).elim
      · cases h
    · cases comp with
      | cancelled s error =>
        obtain ⟨-, rfl⟩ := h
        exact ⟨s, hcomp⟩
      | acked s ackCmd ackData =>
        rcases h with ⟨-, h, -⟩ | ⟨-, h⟩
        · cases h
        · exact (hun _ h.symm).elim

/-- a request that returns an ACK was completed by it, on a connection that is not taken -/
theorem Request.Returns.acked {r : Int} (h : st.Returns false .acked r) :
    ∃ s, st.done = some (.acked s st.cmd.toNat r) := by
  have hun : ∀ r, unanswered r ≠ .acked := by
    intro r
    unfold unanswered
    split <;> exact nofun
  unfold Request.Returns at h
  split at h
  · exact (hun _ h.2.symm).elim
  · obtain ⟨comp, hcomp, h⟩ := h
    split at h
    · rcases h with h | ⟨h, -⟩
      · exact (hun _ h.symm).elim
      · cases h
    · cases comp with
      | cancelled s error => cases h.1
      | acked s ackCmd ackData =>
        rcases h with ⟨rfl, -, rfl⟩ | ⟨-, h⟩
        · exact ⟨s, hcomp⟩
        · exact (hun _ h.symm).elim

end RaspikeArt
