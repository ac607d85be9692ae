import RaspikeArt.Devices.Told
import RaspikeArt.Protocol.Announced

/-!
# Device types, part 6: an ACK is for the open request

`process_command` compares an ACK with the pending request under the mutex of the port, and only who
holds this mutex opens a request or closes one.

* `FitsRequest` the ACK has the sequence number of the open request, and the session of the moment;
* `Matcher`     where a thread is with the mutex of the port;
* `Matches`     a pending request is the open one, and what a thread has seen of it stays so;
* `fits_run`    every ACK that a run accepts fits, or the protocol was not in use meanwhile.
-/

set_option linter.unusedSectionVars false

namespace RaspikeArt
open Threads

variable {T : Type} [DecidableEq T] {b₀ : Bool} {s₀ : U32} {i : Port} {t : T}

/-- the open request of the port has this sequence number -/
def AskedWith (i : Port) (s : U32) (tr : Trace T) : Prop := ∃ cmd, AskedFor i cmd s tr

/-- What is compared of an ACK that `v` has in hand: while `v` handled it, the protocol without sequence
numbers and sessions was in use, or the session was that of the ACK, and the open request has its number. -/
def FitsRequest (b₀ : Bool) (s₀ : U32) (i : Port) (v : T) (s session : U32) (tr : Trace T) : Prop :=
  Meanwhile v (fun bs => usesV2 b₀ bs = false) tr ∨
    AskedWith i s tr ∧ Meanwhile v (fun bs => currentSession s₀ bs = session) tr

/-- an ACK that is accepted fits -/
def FitsAt (b₀ : Bool) (s₀ : U32) (i : Port) (tr : Trace T) (t : T) (e : Event) : Prop :=
  ∀ s session ackCmd ackData, e = .ack i s session ackCmd ackData → FitsRequest b₀ s₀ i t s session tr

/-- a label that opens no request of the port, closes none and accepts no ACK for it -/
def OffPort (i : Port) (x : Option Event) : Prop :=
  ∀ e, x = some e → ¬ e.opens i ∧ ∀ s session ackCmd ackData, e ≠ .ack i s session ackCmd ackData

theorem offPort_none : OffPort i none := by rintro _ ⟨⟩

theorem AskedWith.push {s : U32} {tr : Trace T} {x : Option Event} (h : AskedWith i s tr) (hx : OffPort i x) :
    AskedWith i s (World.push t x tr) := by
  cases x with
  | none => exact h
  | some e =>
    obtain ⟨cmd, us, u, vs, rfl, hus⟩ := h
    exact ⟨cmd, (t, e) :: us, u, vs, rfl, List.forall_mem_cons.mpr ⟨(hx e rfl).1, hus⟩⟩

theorem FitsRequest.push {v : T} {s session : U32} {tr : Trace T} {x : Option Event} (h : FitsRequest b₀ s₀ i v s session tr)
    (hx : OffPort i x) (ht : t ≠ v) : FitsRequest b₀ s₀ i v s session (World.push t x tr) :=
  h.imp (fun h => h.other ht x) fun h => ⟨h.1.push hx, h.2.other ht x⟩

/-! ## where a thread is -/

inductive Matcher where
  | out
  /-- it holds the mutex of the port -/
  | inside
  /-- and has seen that no request is pending -/
  | idle
  /-- and has seen that the request with this number is -/
  | asked (s : U32)
  /-- and has compared it with the ACK -/
  | fits (s session : U32)
  deriving DecidableEq

def Matcher.compared : Matcher → Bool
  | .fits .. => true
  | _ => false

/-- what a thread knows at its place -/
def Placed (b₀ : Bool) (s₀ : U32) (i : Port) (t : T) (m : Mem) (tr : Trace T) : Matcher → Prop
  | .out | .inside => True
  | .idle => (m.gPortDevices i).pending = false
  | .asked s => AskedWith i s tr
  | .fits s session => FitsRequest b₀ s₀ i t s session tr

structure Matches (b₀ : Bool) (s₀ : U32) (i : Port) (w : World T Mutex Event Mem) (gs : T → Matcher) : Prop where
  port : ∀ t, gs t ≠ .out → w.own (.port i) = some t
  pending : (w.mem.gPortDevices i).pending = true → AskedWith i (w.mem.gPortDevices i).pendingSequence w.trace
  placed : ∀ t, Placed b₀ s₀ i t w.mem w.trace (gs t)
  past : Along (FitsAt b₀ s₀ i) w.trace

/-- the session and the protocol are taken as the history says them -/
def matchLogic (T : Type) [DecidableEq T] (b₀ : Bool) (s₀ : U32) (i : Port) : Logic T Mutex CondVar Event Mem where
  G := Matcher
  K := fun w => w.mem.fgSessionId = currentSession s₀ w.trace ∧ w.mem.fgUseProtocolV2 = usesV2 b₀ w.trace
  I := Matches b₀ s₀ i
  A := fun _ _ _ => True

namespace Matches

variable {w : World T Mutex Event Mem} {gs : T → Matcher}

theorem past_push (h : Matches b₀ s₀ i w gs) {x : Option Event} (hx : ∀ e, x = some e → FitsAt b₀ s₀ i w.trace t e) :
    Along (FitsAt b₀ s₀ i) (World.push t x w.trace) := by
  cases x with
  | none => exact h.past
  | some e => exact ⟨hx e rfl, h.past⟩

/-- only one thread is inside -/
theorem alone (h : Matches b₀ s₀ i w gs) (ht : gs t ≠ .out) {u : T} (hu : u ≠ t) : gs u = .out := by
  by_contra hout
  have hsame := (h.port u hout).symm.trans (h.port t ht)
  exact hu (Option.some.inj hsame)

/-- an access of the thread that is inside -/
theorem own (h : Matches b₀ s₀ i w gs) {g g' : Matcher} (hg : gs t = g) (hin : g ≠ .out) {x : Option Event} {m' : Mem}
    (hpending : (m'.gPortDevices i).pending = true →
      AskedWith i (m'.gPortDevices i).pendingSequence (World.push t x w.trace))
    (hplaced : Placed b₀ s₀ i t m' (World.push t x w.trace) g')
    (hpast : ∀ e, x = some e → FitsAt b₀ s₀ i w.trace t e) :
    Matches b₀ s₀ i { w with mem := m', trace := World.push t x w.trace } (Function.update gs t g') := by
  subst hg
  refine ⟨fun u hu => ?_, hpending, fun u => ?_, h.past_push hpast⟩
  · by_cases hut : u = t
    · subst hut
      exact h.port u hin
    · rw [Function.update_of_ne hut] at hu
      exact h.port u hu
  · by_cases hut : u = t
    · subst hut
      rwa [Function.update_self]
    · rw [Function.update_of_ne hut, h.alone hin hut]
      trivial

end Matches

/-! ## accesses that leave the port alone -/

/-- nothing becomes pending on the port, and what is pending stays what it is -/
def OffPortAcc (i : Port) (e : Mem → Option Event) (f : Mem → Mem) : Prop := ∀ m, OffPort i (e m) ∧
  (((f m).gPortDevices i).pending = true → (m.gPortDevices i).pending = true ∧
    ((f m).gPortDevices i).pendingSequence = (m.gPortDevices i).pendingSequence)

theorem match_neutral {g : Matcher} (hg : g.compared = false) :
    (matchLogic T b₀ s₀ i).Neutral (OffPortAcc i) (· ≠ .port i) t g where
  act := by
    rintro e f hacc w gs (hI : Matches b₀ s₀ i w gs) hgs -
    obtain ⟨hx, hkeep⟩ := hacc w.mem
    refine ⟨hI.port, fun hp => ?_, fun u => ?_, hI.past_push fun x hx' => ?_⟩
    · obtain ⟨hp', hs⟩ := hkeep hp
      have hasked := (hI.pending hp').push (t := t) hx
      rwa [← hs] at hasked
    · have hu := hI.placed u
      -- what others have seen of the port stays so
      cases hgu : gs u with
      | out | inside => trivial
      | idle =>
        rw [hgu] at hu
        by_contra hp
        have hp' := (hkeep (Bool.not_eq_false _ ▸ hp)).1
        exact Bool.false_ne_true ((show (w.mem.gPortDevices i).pending = false from hu).symm.trans hp')
      | asked s =>
        rw [hgu] at hu
        exact AskedWith.push hu hx
      | fits s session =>
        rw [hgu] at hu
        refine FitsRequest.push hu hx ?_
        rintro rfl
        obtain rfl := hgu.symm.trans hgs
        cases hg
    · intro s session ackCmd ackData hack
      exact ((hx x hx').2 _ _ _ _ hack).elim
  acquire := by
    rintro l hl w gs (hI : Matches b₀ s₀ i w gs) - -
    exact ⟨fun u hu => (Function.update_of_ne (Ne.symm hl) ..).trans (hI.port u hu), hI.pending, hI.placed, hI.past⟩
  release := by
    rintro l hl w gs (hI : Matches b₀ s₀ i w gs) -
    exact ⟨fun u hu => (Function.update_of_ne (Ne.symm hl) ..).trans (hI.port u hu), hI.pending, hI.placed, hI.past⟩
  places _ := ⟨trivial, trivial, fun _ => trivial, trivial⟩

/-- the kinds that leave every port alone -/
def offPortKinds : Set Kind := {k | k ≠ .pend ∧ k ≠ .finish ∧ k ≠ .ack ∧ k ≠ .reset ∧ k ≠ .setup}

theorem offPort_of {x : Option Event} (h : ∀ e, x = some e → e.kind ≠ .pend ∧ e.kind ≠ .finish ∧ e.kind ≠ .ack) :
    OffPort i x := by
  intro e he
  obtain ⟨hpend, hfinish, hack⟩ := h e he
  cases e with
  | pend => exact (hpend rfl).elim
  | finish => exact (hfinish rfl).elim
  | ack => exact (hack rfl).elim
  | _ => exact ⟨id, by simp⟩

theorem Acc.offPort {e : Mem → Option Event} {f : Mem → Mem} (h : Acc offPortKinds e f) : OffPortAcc i e f := by
  intro m
  obtain ⟨k, ⟨hpend, hfinish, hack, hreset, hsetup⟩, hstep⟩ := h m
  refine ⟨offPort_of fun x hx => hstep.label x hx ▸ ⟨hpend, hfinish, hack⟩, fun hp => ?_⟩
  have hsame : ((f m).gPortDevices i).pending = (m.gPortDevices i).pending ∧
      ((f m).gPortDevices i).pendingSequence = (m.gPortDevices i).pendingSequence := by
    by_cases hdev : k = .dev
    · subst hdev
      obtain ⟨j, dv, hf⟩ := hstep.touches
      rw [hf]
      by_cases hj : i = j
      · subst hj
        rw [setPort_self]
        exact ⟨rfl, rfl⟩
      · rw [setPort_of_ne _ _ hj]
        exact ⟨rfl, rfl⟩
    · rw [hstep.touches.ports ⟨hpend, hfinish, hack, hreset, hdev, hsetup⟩]
      exact ⟨rfl, rfl⟩
  exact ⟨hsame.1 ▸ hp, hsame.2⟩

section
variable {g : Matcher} (hg : g.compared = false) {α : Type} {Q : α → Matcher → Prop}
include hg

theorem offPort_skip {p : P α} (hp : p.All (OffPortAcc i) (· ≠ .port i)) (hQ : ∀ a, Q a g) :
    wp (matchLogic T b₀ s₀ i) t p Q g :=
  wp_all (match_neutral hg) hp hQ

theorem match_skip {p : P α} (hp : Does offPortKinds {l | l ≠ .port i} p) (hQ : ∀ a, Q a g) :
    wp (matchLogic T b₀ s₀ i) t p Q g :=
  offPort_skip hg (Prog.All.mono (fun _ _ h => h.offPort) (fun _ h => h) hp) hQ

end

theorem match_passes (T : Type) [DecidableEq T] (b₀ : Bool) (s₀ : U32) (i : Port) (t : T) :
    Passes (fun _ p => wp (matchLogic T b₀ s₀ i) t p (fun _ g => g = .out) .out) offPortKinds
      {l | l ≠ .port i} where
  pure _ := wp_pure rfl
  bind hp hq := wp_call hp hq
  does hp := match_skip rfl hp fun _ => rfl

theorem offPort_quiet : Kind.quiet ∈ offPortKinds := by simp [offPortKinds]

/-- an access to the record of another port -/
theorem other_port {j : Port} (hj : j ≠ i) {α : Type} {a : α} {x : Option Event} (hx : OffPort i x)
    {f : RPPortDevice → RPPortDevice} :
    (Prog.act (fun _ => x) (fun m => (a, m.setPort j f)) .ret : P α).All (OffPortAcc i) (· ≠ .port i) := by
  refine ⟨fun m => ⟨hx, fun hp => ?_⟩, fun _ => trivial⟩
  have hsame : (m.setPort j f).gPortDevices i = m.gPortDevices i := setPort_of_ne m f (Ne.symm hj)
  exact ⟨(congrArg RPPortDevice.pending hsame).symm.trans hp, congrArg RPPortDevice.pendingSequence hsame⟩

/-! ## the mutex of the port -/

/-- the place of a thread that has taken the mutex of `j` -/
def Matcher.within (i j : Port) : Matcher := if j = i then .inside else .out

theorem within_compared (j : Port) : (Matcher.within i j).compared = false := by
  unfold Matcher.within
  split <;> rfl

theorem lock_keeps {w : World T Mutex Event Mem} {gs : T → Matcher} (h : Matches b₀ s₀ i w gs)
    (hfree : w.own (.port i) = none) :
    Matches b₀ s₀ i (w.acquire t (.port i)) (Function.update gs t .inside) := by
  refine ⟨fun u hu => ?_, h.pending, fun u => ?_, h.past⟩
  · by_cases hut : u = t
    · subst hut
      exact Function.update_self ..
    · rw [Function.update_of_ne hut] at hu
      have hown := h.port u hu
      rw [hfree] at hown
      cases hown
  · by_cases hut : u = t
    · subst hut
      rw [Function.update_self]
      trivial
    · rw [Function.update_of_ne hut]
      exact h.placed u

theorem lock_inside {Q : Unit → Matcher → Prop} (hQ : Q () .inside) :
    wp (matchLogic T b₀ s₀ i) t (lock (.port i)) Q .out :=
  wp_lock trivial fun _ _ hI _ hfree => ⟨.inside, lock_keeps hI hfree, hQ⟩

theorem unlock_keeps {w : World T Mutex Event Mem} {gs : T → Matcher} (h : Matches b₀ s₀ i w gs) (hin : gs t ≠ .out) :
    Matches b₀ s₀ i (w.release (.port i)) (Function.update gs t .out) := by
  refine ⟨fun u hu => ?_, h.pending, fun u => ?_, h.past⟩
  · by_cases hut : u = t
    · subst hut
      rw [Function.update_self] at hu
      exact (hu rfl).elim
    · rw [Function.update_of_ne hut] at hu
      exact (hu (h.alone hin hut)).elim
  · by_cases hut : u = t
    · subst hut
      rw [Function.update_self]
      trivial
    · rw [Function.update_of_ne hut]
      exact h.placed u

theorem unlock_inside {g : Matcher} (hg : g ≠ .out) {Q : Unit → Matcher → Prop} (hQ : Q () .out) :
    wp (matchLogic T b₀ s₀ i) t (unlock (.port i)) Q g :=
  wp_unlock trivial fun _ _ hI hgs => ⟨.out, unlock_keeps hI (hgs ▸ hg), hQ⟩

theorem lock_within (j : Port) {Q : Unit → Matcher → Prop} (hQ : Q () (.within i j)) :
    wp (matchLogic T b₀ s₀ i) t (lock (.port j)) Q .out := by
  by_cases hj : j = i
  · subst hj
    rw [Matcher.within, if_pos rfl] at hQ
    exact lock_inside hQ
  · rw [Matcher.within, if_neg hj] at hQ
    exact match_skip rfl (Does.lock fun h => hj (Mutex.port.inj h)) fun _ => hQ

theorem unlock_within (j : Port) {Q : Unit → Matcher → Prop} (hQ : Q () .out) :
    wp (matchLogic T b₀ s₀ i) t (unlock (.port j)) Q (.within i j) := by
  by_cases hj : j = i
  · subst hj
    rw [Matcher.within, if_pos rfl]
    exact unlock_inside (by simp) hQ
  · rw [Matcher.within, if_neg hj]
    exact match_skip rfl (Does.unlock fun h => hj (Mutex.port.inj h)) fun _ => hQ

theorem condWait_within (c : CondVar) (j : Port) {Q : Int → Matcher → Prop} (hQ : ∀ r, Q r (.within i j)) :
    wp (matchLogic T b₀ s₀ i) t (condWait c (.port j)) Q (.within i j) := by
  by_cases hj : j = i
  · subst hj
    rw [Matcher.within, if_pos rfl] at hQ ⊢
    have hin : Matcher.inside ≠ .out := by simp
    exact wp_condWait .out trivial trivial (fun _ _ hI hgs => unlock_keeps hI (hgs ▸ hin))
      fun _ _ hI _ hfree => ⟨.inside, lock_keeps hI hfree, hQ⟩
  · rw [Matcher.within, if_neg hj] at hQ ⊢
    exact match_skip rfl (Does.condWait fun h => hj (Mutex.port.inj h)) hQ

/-- a change of the record of a port, by the holder of its mutex -/
theorem port_within (j : Port) {e : Event} {f : RPPortDevice → RPPortDevice}
    (hoff : j ≠ i → OffPort i (some e)) (hack : ∀ i s session ackCmd ackData, e ≠ .ack i s session ackCmd ackData)
    (hpending : ∀ d tr, (f d).pending = true → AskedWith (T := T) j (f d).pendingSequence ((t, e) :: tr))
    {Q : Unit → Matcher → Prop} (hQ : Q () (.within i j)) :
    wp (matchLogic T b₀ s₀ i) t (.act (fun _ => some e) (fun m => ((), m.setPort j f)) .ret : P Unit) Q
      (.within i j) := by
  by_cases hj : j = i
  · subst hj
    rw [Matcher.within, if_pos rfl] at hQ ⊢
    apply wp_act
    intro w gs hI hgs _
    have hI' : Matches b₀ s₀ j w gs := hI
    refine ⟨.inside, hI'.own hgs (by simp) ?_ trivial ?_, hQ⟩
    · rw [setPort_self]
      exact hpending _ _
    · rintro _ ⟨⟩ s session ackCmd ackData rfl
      exact (hack _ _ _ _ _ rfl).elim
  · rw [Matcher.within, if_neg hj] at hQ ⊢
    exact offPort_skip rfl (other_port hj (hoff hj)) fun _ => hQ

/-! ## requests -/

section
variable {j : Port}

theorem requestBegin_match (cmd : Byte) :
    wp (matchLogic T b₀ s₀ i) t (requestBegin j cmd) (fun _ g => g = .out) .out := by
  apply wp_bind
  apply match_skip rfl (nextSequence_all offPort_quiet (by simp [offPortKinds]) (by simp))
  intro sequence
  apply wp_bind
  apply lock_within
  apply wp_bind
  apply port_within
  · rintro hj e ⟨⟩
    exact ⟨hj, by simp⟩
  · simp
  · rintro d tr -
    exact ⟨cmd, [], t, tr, rfl, by simp⟩
  apply wp_bind
  apply unlock_within
  exact wp_pure rfl

theorem requestSleep_match (result : Int) :
    wp (matchLogic T b₀ s₀ i) t (requestSleep j result) (fun _ g => g = Matcher.within i j)
      (.within i j) := by
  apply wp_loopFrom (fun _ g => g = Matcher.within i j) rfl
  rintro result _ rfl
  apply wp_bind
  apply match_skip (within_compared j) (Does.load offPort_quiet)
  intro pending
  split
  · exact rfl
  apply wp_bind
  apply condWait_within
  intro waitResult
  split
  · exact rfl
  split
  · exact rfl
  · exact rfl

theorem requestWait_match (sequence : U32) (last : Bool) (result : Int) :
    wp (matchLogic T b₀ s₀ i) t (requestWait j sequence last result) (fun _ g => g = .out) .out := by
  apply wp_bind
  apply lock_within
  apply wp_seq _ (requestSleep_match result)
  rintro result _ rfl
  apply wp_bind
  apply match_skip (within_compared j) (Does.load offPort_quiet)
  intro pending
  split
  · apply wp_bind
    apply unlock_within
    exact wp_pure rfl
  apply wp_bind
  apply match_skip (within_compared j) (p := if last then tick (.gaveUp j sequence result) else pure ())
  · split
    · exact Does.tick (k := .gaveUp) (by simp [offPortKinds]) rfl (fun _ => rfl) fun _ => rfl
    · exact Does.pure _
  intro _
  apply wp_bind
  apply unlock_within
  exact wp_pure rfl

theorem requestAttempts_match (port cmd : Byte) (data : Buf) (size : Int) (sequence : U32) (n : Nat) (result : Int) :
    wp (matchLogic T b₀ s₀ i) t (requestAttempts j port cmd data size sequence n result) (fun _ g => g = .out) .out := by
  have hF := match_passes T b₀ s₀ i t
  induction n generalizing result with
  | zero => exact wp_pure rfl
  | succ n ih =>
    apply wp_bind
    apply lock_within
    apply wp_bind
    apply match_skip (within_compared j) (Does.load offPort_quiet)
    intro stillPending
    apply wp_bind
    apply unlock_within
    split
    · exact wp_pure rfl
    refine hF.bind (hF.does ?_) fun sent => ?_
    · exact sendFrame_all offPort_quiet (fun _ => by simp [offPortKinds]) (by simp [offPortKinds])
        (by simp [offPortKinds]) (by simp) (by simp) (by simp) _ _ _ _ _ _ _
    split
    · refine hF.bind (hF.does ?_) fun _ => wp_pure rfl
      exact Does.tick (k := .gaveUp) (by simp [offPortKinds]) rfl (fun _ => rfl) fun _ => rfl
    refine hF.bind (requestWait_match _ _ _) fun waited => ?_
    split
    · exact wp_pure rfl
    refine hF.bind (p := if n ≠ 0 then statsIncrement .requestRetries else pure ()) (hF.does ?_) fun _ => ih _
    split
    · exact statsIncrement_all offPort_quiet (by simp) _
    · exact Does.pure _

theorem requestFinish_match (cmd : Byte) (sequence : U32) (result : Int) (completed : Bool) :
    wp (matchLogic T b₀ s₀ i) t (requestFinish j cmd sequence result completed) (fun _ g => g = .out) .out := by
  have hF := match_passes T b₀ s₀ i t
  apply wp_bind
  apply lock_within
  apply wp_bind
  apply match_skip (within_compared j) (Does.load offPort_quiet)
  intro d
  apply wp_bind
  apply match_skip (within_compared j) (requestOutcome_all offPort_quiet (by simp) _ _ _ _ _)
  intro outcome
  apply wp_bind
  apply port_within
  · rintro hj e ⟨⟩
    exact ⟨hj, by simp⟩
  · simp
  · rintro d tr ⟨⟩
  apply wp_bind
  apply unlock_within
  exact hF.bind (hF.does (Does.unlock (by simp))) fun _ => wp_pure rfl

end

theorem raspikeRequest_match (port cmd : Byte) (data : Buf) (size : Int) :
    wp (matchLogic T b₀ s₀ i) t (raspikeRequest port cmd data size) (fun _ g => g = .out) .out := by
  have hF := match_passes T b₀ s₀ i t
  unfold raspikeRequest
  split
  · exact wp_pure rfl
  split
  · exact wp_pure rfl
  refine hF.bind (hF.does (Does.lock (by simp))) fun _ => hF.bind (requestBegin_match _) fun sequence => ?_
  refine hF.bind (hF.does (Does.load offPort_quiet)) fun v2 => ?_
  exact hF.bind (requestAttempts_match _ _ _ _ _ _ _) fun waited => requestFinish_match _ _ _ _

/-! ## resets -/

theorem resetSlot_match (error : Int) (j : Port) :
    wp (matchLogic T b₀ s₀ i) t (resetSlot error j) (fun _ g => g = .out) .out := by
  by_cases hj : j = i
  case neg =>
    have hF := match_passes T b₀ s₀ i t
    have hl : Mutex.port j ∈ ({l | l ≠ .port i} : Set Mutex) := fun h => hj (Mutex.port.inj h)
    refine hF.bind (hF.does (Does.lock hl)) fun _ => hF.bind (hF.does (Does.load offPort_quiet)) fun canceled => ?_
    refine hF.bind ?_ fun _ => hF.does (Does.unlock hl)
    have hoff : ∀ e : Event, e.kind = .reset → OffPort i (some e) := by
      intro e he
      refine offPort_of fun x hx => ?_
      cases hx
      rw [he]
      simp
    split
    · refine hF.bind (hF.does (Does.load offPort_quiet)) fun session => hF.bind ?_ fun _ => hF.does Does.broadcast
      exact offPort_skip rfl (other_port hj (hoff _ rfl)) fun _ => rfl
    · exact offPort_skip rfl (other_port hj (hoff _ rfl)) fun _ => rfl
  subst hj
  have hoff : ∀ e : Event, e.kind = .reset → ∀ tr : Trace T, FitsAt b₀ s₀ j tr t e := by
    rintro e he tr s session ackCmd ackData rfl
    cases he
  apply wp_bind
  apply lock_inside
  apply wp_bind
  apply wp_act
  intro w gs hI hgs _
  have hI' : Matches b₀ s₀ j w gs := hI
  refine ⟨if (w.mem.gPortDevices j).pending then .inside else .idle, ?_, ?_⟩
  · refine hI'.own (x := none) hgs (by simp) hI'.pending ?_ (by rintro _ ⟨⟩)
    cases hp : (w.mem.gPortDevices j).pending with
    | true => exact trivial
    | false => exact hp
  show wp _ t (do
    (if (w.mem.gPortDevices j).pending then cancelPort error j else clearPort j)
    unlock (.port j)) _ _
  apply wp_bind
  cases (w.mem.gPortDevices j).pending with
  | true =>
    apply wp_bind
    apply match_skip rfl (Does.load offPort_quiet)
    intro session
    apply wp_bind
    apply wp_act
    intro w gs hI hgs _
    have hI' : Matches b₀ s₀ j w gs := hI
    refine ⟨.inside, hI'.own hgs (by simp) ?_ trivial fun e he => ?_, ?_⟩
    · rw [setPort_self]
      rintro ⟨⟩
    · cases he
      exact hoff _ rfl _
    · exact wp_broadcast (unlock_inside (by simp) rfl)
  | false =>
    apply wp_act
    intro w gs hI hgs _
    have hI' : Matches b₀ s₀ j w gs := hI
    refine ⟨.inside, hI'.own hgs (by simp) ?_ trivial fun e he => ?_, unlock_inside (by simp) rfl⟩
    · have hidle : (w.mem.gPortDevices j).pending = false := by
        have hplaced := hI'.placed t
        rwa [hgs] at hplaced
      rw [setPort_self]
      intro hp
      exact (Bool.false_ne_true (hidle.symm.trans hp)).elim
    · cases he
      exact hoff _ rfl _

theorem resetPortState_match (error : Int) (clearDevices : Bool) :
    wp (matchLogic T b₀ s₀ i) t (resetPortState error clearDevices) (fun _ g => g = .out) .out := by
  have hF := match_passes T b₀ s₀ i t
  refine wp_forEach (fun _ g => g = .out) rfl ?_ fun _ h => h
  rintro j is _ rfl
  refine hF.bind (resetSlot_match error j) fun _ => ?_
  split
  · exact hF.does (resetDevice_all (by simp [offPortKinds]) (by simp))
  · exact wp_pure rfl

/-- the first init zeroes the ports, without their mutexes -/
theorem initPorts_match : wp (matchLogic T b₀ s₀ i) t initPorts (fun _ g => g = .out) .out := by
  have hF := match_passes T b₀ s₀ i t
  refine hF.bind (hF.does (Does.load offPort_quiet)) fun synchronized => ?_
  split
  · exact resetPortState_match _ _
  have hzero : ∀ j, (initPortDevice j).All (OffPortAcc i) (· ≠ .port i) := by
    intro j
    by_cases hj : j = i
    · subst hj
      refine ⟨fun m => ⟨offPort_none, fun hp => ?_⟩, fun _ => trivial⟩
      have hpending : ((m.setPort j fun _ => .zero).gPortDevices j).pending = true := hp
      rw [setPort_self] at hpending
      cases hpending
    · exact other_port hj offPort_none
  refine hF.bind (offPort_skip rfl (Prog.All.forEach hzero) fun _ => rfl) fun _ => ?_
  exact offPort_skip rfl ⟨fun m => ⟨offPort_none, fun hp => ⟨hp, rfl⟩⟩, fun _ => trivial⟩ fun _ => rfl

/-! ## an ACK -/

/-- what is left of a comparison -/
theorem ackMatches_match {d : RPPortDevice} (s session : U32) (ackCmd : Int) {g : Matcher} (hg : g ≠ .out)
    (hnot : g.compared = false) (hasked : d.pending = true → g = .asked d.pendingSequence) :
    wp (matchLogic T b₀ s₀ i) t (ackMatches d s session ackCmd)
      (fun b g' => if b then g' = .fits s session else g' ≠ .out ∧ g'.compared = false) g := by
  unfold ackMatches
  split
  case isFalse => exact ⟨hg, hnot⟩
  case isTrue h =>
  obtain rfl := hasked (Bool.and_eq_true _ _ ▸ h).1
  apply wp_orElse
  -- the protocol of the moment
  apply wp_act
  intro w gs hI hgs hK
  have hI' : Matches b₀ s₀ i w gs := hI
  have hv2 : w.mem.fgUseProtocolV2 = usesV2 b₀ w.trace := hK.2
  have hself : AskedWith i d.pendingSequence w.trace := by
    have hplaced := hI'.placed t
    rwa [hgs] at hplaced
  cases hv : w.mem.fgUseProtocolV2 with
  | false =>
    refine ⟨.fits s session, hI'.own (x := none) hgs hg hI'.pending ?_ (by rintro _ ⟨⟩), ?_⟩
    · exact .inl (.now (hv2.symm.trans hv))
    · show if (!w.mem.fgUseProtocolV2) = true then _ else _
      rw [hv]
      exact rfl
  | true =>
    refine ⟨.asked d.pendingSequence, hI'.own (x := none) hgs hg hI'.pending hself (by rintro _ ⟨⟩), ?_⟩
    show if (!w.mem.fgUseProtocolV2) = true then _ else _
    rw [hv]
    show wp _ t (if s = d.pendingSequence then _ else _) _ _
    split
    case isFalse => exact ⟨hg, rfl⟩
    case isTrue hs =>
    subst hs
    -- and its session
    apply wp_act
    intro w gs hI hgs hK
    have hI' : Matches b₀ s₀ i w gs := hI
    have hsession : w.mem.fgSessionId = currentSession s₀ w.trace := hK.1
    have hself : AskedWith i d.pendingSequence w.trace := by
      have hplaced := hI'.placed t
      rwa [hgs] at hplaced
    by_cases heq : session = w.mem.fgSessionId
    · refine ⟨.fits d.pendingSequence session, hI'.own (x := none) hgs (by simp) hI'.pending ?_ (by rintro _ ⟨⟩), ?_⟩
      · exact .inr ⟨hself, .now (hsession.symm.trans heq.symm)⟩
      · show if (session == w.mem.fgSessionId) = true then _ else _
        rw [if_pos (beq_iff_eq.mpr heq)]
    · refine ⟨.asked d.pendingSequence, hI'.own (x := none) hgs (by simp) hI'.pending hself (by rintro _ ⟨⟩), ?_⟩
      show if (session == w.mem.fgSessionId) = true then _ else _
      rw [if_neg fun h => heq (beq_iff_eq.mp h)]
      exact ⟨hg, rfl⟩

theorem acceptAck_match (s session : U32) (ackCmd ackData : Int) :
    wp (matchLogic T b₀ s₀ i) t (acceptAck i s session ackCmd ackData) (fun _ g => g = .inside) (.fits s session) := by
  apply wp_bind
  apply wp_act
  intro w gs hI hgs _
  have hI' : Matches b₀ s₀ i w gs := hI
  refine ⟨.inside, hI'.own hgs (by simp) ?_ trivial ?_, wp_broadcast rfl⟩
  · rw [setPort_self]
    rintro ⟨⟩
  · rintro _ ⟨⟩ s' session' ackCmd' ackData' ⟨⟩
    have hplaced := hI'.placed t
    rwa [hgs] at hplaced

theorem processAck_match (j : Port) (s session : U32) (buf : List Byte) :
    wp (matchLogic T b₀ s₀ i) t (processAck j s session buf) (fun _ g => g = .out) .out := by
  by_cases hj : j = i
  case neg =>
    have hF := match_passes T b₀ s₀ i t
    have hl : Mutex.port j ∈ ({l | l ≠ .port i} : Set Mutex) := fun h => hj (Mutex.port.inj h)
    refine hF.bind (hF.does (Does.lock hl)) fun _ => hF.bind (hF.does (Does.load offPort_quiet)) fun d => ?_
    refine hF.bind (hF.does (ackMatches_all offPort_quiet d s session _)) fun isCurrent => hF.bind ?_ fun _ => ?_
    · split
      case isFalse => exact hF.does (statsIncrement_all offPort_quiet (by simp) _)
      refine hF.bind (offPort_skip rfl (other_port hj ?_) fun _ => rfl) fun _ => hF.does Does.broadcast
      rintro _ ⟨⟩
      exact ⟨id, fun _ _ _ _ h => hj (Event.ack.inj h).1⟩
    · exact hF.bind (hF.does (Does.unlock hl)) fun _ => wp_pure rfl
  subst hj
  apply wp_bind
  apply lock_inside
  apply wp_bind
  apply wp_act
  intro w gs hI hgs _
  have hI' : Matches b₀ s₀ j w gs := hI
  -- the record as it is seen
  refine ⟨if (w.mem.gPortDevices j).pending then .asked (w.mem.gPortDevices j).pendingSequence else .idle, ?_, ?_⟩
  · refine hI'.own (x := none) hgs (by simp) hI'.pending ?_ (by rintro _ ⟨⟩)
    cases hp : (w.mem.gPortDevices j).pending with
    | true => exact hI'.pending hp
    | false => exact hp
  dsimp only
  generalize w.mem.gPortDevices j = d
  apply wp_seq _ (ackMatches_match s session (getInt32 buf) (d := d) ?_ ?_ ?_)
  · intro isCurrent g hg
    cases isCurrent with
    | true =>
      obtain rfl : g = .fits s session := hg
      apply wp_seq _ (acceptAck_match s session _ _)
      rintro _ _ rfl
      apply wp_bind
      exact unlock_inside (by simp) rfl
    | false =>
      obtain ⟨hin, hnot⟩ : g ≠ .out ∧ g.compared = false := hg
      apply wp_bind
      apply match_skip hnot (statsIncrement_all offPort_quiet (by simp) _)
      intro _
      apply wp_bind
      exact unlock_inside hin rfl
  · cases d.pending <;> simp
  · cases d.pending <;> rfl
  · intro hp
    rw [hp]
    rfl

/-! ## runs -/

theorem body_match (c : Call) : wp (matchLogic T b₀ s₀ i) t c.body (fun _ g => g = .out) .out := by
  have hF := match_passes T b₀ s₀ i t
  have hset : ∀ f : Mem → Mem, (∀ m, (f m).gPortDevices = m.gPortDevices) → ∀ {α : Type} (r : Mem → α),
      (Prog.act (fun _ => none) (fun m => (r m, f m)) .ret : P α).All (OffPortAcc i) (· ≠ .port i) := by
    refine fun f hf α r => ⟨fun m => ⟨offPort_none, fun hp => ?_⟩, fun _ => trivial⟩
    have hsame : ((f m).gPortDevices i) = m.gPortDevices i := congrFun (hf m) i
    exact ⟨(congrArg RPPortDevice.pending hsame).symm.trans hp, congrArg RPPortDevice.pendingSequence hsame⟩
  apply body_around (hF.mono _ _)
  · exact fun s => hF.does (setSession_all (by simp [offPortKinds]) s)
  · exact fun b => hF.does (setUseV2_all (by simp [offPortKinds]) b)
  · exact offPort_skip rfl (hset (fun m => { m with fgActiveReceivers := 0 }) (fun _ => rfl) fun _ => ()) fun _ => rfl
  · refine offPort_skip rfl ⟨fun m => ⟨offPort_none, fun hp => ?_⟩, fun _ => trivial⟩ fun _ => rfl
    revert hp
    dsimp only
    split <;> exact fun hp => ⟨hp, rfl⟩
  · exact initPorts_match
  · exact fun error clearDevices _ => resetPortState_match error clearDevices
  · exact raspikeRequest_match
  · exact processAck_match
  · rintro k ⟨hpend, hfinish, hack, hreset, hsetup, -⟩
    exact ⟨hpend, hfinish, hack, hreset, hsetup⟩
  · exact fun l hl => (hl i).1

/-- **Fitting.**  Whoever connects, disconnects, receives and requests: an ACK that is accepted for a port has
the sequence number of the open request of the port and the session of a moment at which it was in hand,
unless at such a moment the protocol that has both was not in use. -/
theorem fits_run {m : Mem} {calls : T → List Call} {c : Sys T} (hquiet : (m.gPortDevices i).pending = false)
    (hr : Reach (start m calls) c) : Along (FitsAt m.fgUseProtocolV2 m.fgSessionId i) c.trace := by
  have hstart : (matchLogic T m.fgUseProtocolV2 m.fgSessionId i).Holds (start m calls) fun _ => .out := by
    refine ⟨⟨fun _ h => (h rfl).elim, fun hp => ?_, fun _ => trivial, trivial⟩, fun t => ?_⟩
    · exact (Bool.false_ne_true (hquiet.symm.trans hp)).elim
    · apply wp_mono (fun _ _ _ => trivial)
      exact client_passes ((match_passes T _ _ i _).mono (by simp [offPortKinds]) (Set.empty_subset _)) fun c _ => body_match c
  have hvia : Via (matchLogic T m.fgUseProtocolV2 m.fgSessionId i).K (start m calls) c := by
    induction hr with
    | refl => exact .refl
    | step hr hs ih => exact .step ih hs (announced_run (hr.step hs))
  obtain ⟨gs, hI, -⟩ := Logic.reach hstart hvia
  exact hI.past

end RaspikeArt
