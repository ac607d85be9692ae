import RaspikeArt.Protocol.Encoded

/-!
# Requests, part 6: requests and sessions

* `handed_sent`      the frames that a request has handed over are among those it has marked;
* `fresh_sends`      once a HELLO is through, no port is pending for a request that has handed over
                     a frame of another session;
* `SessionFence`     a request cancelled by a HELLO has not handed over a frame of its session;
* `session_fence`    that holds of the runs in which no request sends a frame late (`SentInTime`).
-/

set_option linter.unusedSectionVars false

namespace RaspikeArt
open Threads

variable {T : Type} [DecidableEq T] {d₀ : Nat} {s₀ : U32} {rx : T} {m : Mem} {i : Port}

/-! ## what the history shows of a request -/

/-- the frames of a thread since a request was last made pending on the port, newest first -/
def sentSince (i : Port) (u : T) : Trace T → List U32
  | [] => []
  | (t, e) :: tr =>
    match e with
    | .pend j _ _ => if j = i then [] else sentSince i u tr
    | .frame _ _ _ s => if t = u then s :: sentSince i u tr else sentSince i u tr
    | _ => sentSince i u tr

/-- the session announced last -/
def currentSession (s₀ : U32) : Trace T → U32
  | [] => s₀
  | (_, e) :: tr =>
    match e with
    | .session s => s
    | _ => currentSession s₀ tr

/-- the session in which a request was last cancelled on the port -/
def cancelledIn (s₀ : U32) (i : Port) : Trace T → Option U32
  | [] => none
  | (_, e) :: tr =>
    match e with
    | .cancel j _ => if j = i then some (currentSession s₀ tr) else cancelledIn s₀ i tr
    | _ => cancelledIn s₀ i tr

theorem currentSession_eq (s₀ : U32) (tr : Trace T) :
    currentSession s₀ tr = (portsOf s₀ tr).session := by
  induction tr with
  | nil => rfl
  | cons x tr ih =>
    obtain ⟨t, e⟩ := x
    cases e <;> first
      | exact ih
      | rfl

theorem sentSince_append {u : T} {xs ys : Trace T} {cmd : Byte} {s : U32}
    (h : ∀ x ∈ xs, ¬ x.2.opens i) :
    sentSince i u (xs ++ (u, .pend i cmd s) :: ys) = sentBy u xs := by
  induction xs with
  | nil => exact if_pos rfl
  | cons x xs ih =>
    obtain ⟨t, e⟩ := x
    have hrest := ih fun y hy => h y (List.mem_cons_of_mem _ hy)
    have hx := h (t, e) List.mem_cons_self
    cases e with
    | pend j cmd' s' =>
      have hj : ¬ j = i := hx
      show (if j = i then [] else sentSince i u (xs ++ (u, .pend i cmd s) :: ys)) = _
      rw [if_neg hj]
      exact hrest
    | frame p c q s' =>
      show (if t = u then s' :: sentSince i u (xs ++ (u, .pend i cmd s) :: ys)
        else sentSince i u (xs ++ (u, .pend i cmd s) :: ys)) = _
      rw [sentBy_frame, hrest]
    | _ => exact hrest

theorem cancelledIn_append {v : T} {error : Int} {xs ys : Trace T}
    (h : ∀ x ∈ xs, ¬ x.2.completes i) :
    cancelledIn s₀ i (xs ++ (v, .cancel i error) :: ys) = some (currentSession s₀ ys) := by
  induction xs with
  | nil => exact if_pos rfl
  | cons x xs ih =>
    obtain ⟨t, e⟩ := x
    have hrest := ih fun y hy => h y (List.mem_cons_of_mem _ hy)
    have hx := h (t, e) List.mem_cons_self
    cases e with
    | cancel j error' =>
      have hj : ¬ j = i := hx
      show (if j = i then _ else cancelledIn s₀ i (xs ++ (v, .cancel i error) :: ys)) = _
      rw [if_neg hj]
      exact hrest
    | _ => exact hrest

theorem frames_eq {tr : Trace T} (h : (requests T).Legal (.start s₀) tr) {st : Request T}
    (hst : (portsOf s₀ tr).slot i = some st) : sentSince i st.thread tr = st.frames := by
  obtain ⟨xs, ys, hs⟩ := story h hst
  rw [hs.split, sentSince_append hs.opens, hs.frames]

theorem cancelledIn_eq {tr : Trace T} (h : (requests T).Legal (.start s₀) tr) {st : Request T}
    (hst : (portsOf s₀ tr).slot i = some st) {session : U32} {error : Int}
    (hdone : st.done = some (.cancelled session error)) : cancelledIn s₀ i tr = some session := by
  obtain ⟨xs, ys, hs⟩ := story h hst
  have hin := hs.done
  rw [hdone] at hin
  obtain ⟨x₁, v, x₂, hxs, h1, -, h3⟩ := hin
  rw [hs.split, hxs, List.append_assoc, List.cons_append, cancelledIn_append h1, currentSession_eq, h3]

/-- a marked frame counts for the request that is open -/
theorem mem_sentSince {as ys : Trace T} {u : T} {port cmd : Byte} {q s : U32}
    (h : ∀ x ∈ as, ∀ cmd q, x.2 ≠ .pend i cmd q) : s ∈ sentSince i u (as ++ (u, .frame port cmd q s) :: ys) := by
  induction as with
  | nil =>
    show s ∈ (if u = u then s :: sentSince i u ys else sentSince i u ys)
    rw [if_pos rfl]
    exact List.mem_cons_self
  | cons x as ih =>
    obtain ⟨t, e⟩ := x
    obtain ⟨hx, has⟩ := List.forall_mem_cons.mp h
    have hrest := ih has
    cases e with
    | pend j cmd' q' =>
      have hj : ¬ j = i := by
        rintro rfl
        exact hx cmd' q' rfl
      show s ∈ (if j = i then [] else sentSince i u (as ++ (u, .frame port cmd q s) :: ys))
      rwa [if_neg hj]
    | frame p c q' s' =>
      show s ∈ (if t = u then s' :: sentSince i u (as ++ (u, .frame port cmd q s) :: ys)
        else sentSince i u (as ++ (u, .frame port cmd q s) :: ys))
      split
      · exact List.mem_cons_of_mem _ hrest
      · exact hrest
    | _ => exact hrest

/-- what an open request has handed over, it has marked since it made the port pending -/
theorem handed_sent {calls : T → List Call} (hc : NoInit calls) {c : Sys T} (hr : Reach (start m calls) c)
    {as tr : Trace T} (htr : c.trace = as ++ tr) (h : (requests T).Legal (.start s₀) tr) {st : Request T}
    (hst : (portsOf s₀ tr).slot i = some st) : ∀ s ∈ handedSince i st.thread tr, s ∈ st.frames := by
  intro s hs
  obtain ⟨as₁, d, bs, ys, rfl, hbs, has₁⟩ := mem_handedSince hs
  rw [← List.append_assoc] at htr
  obtain ⟨port, cmd, q, zs, as₂, rfl, has₂⟩ := handed_encoded hc hr htr hbs
  rw [← frames_eq h hst, ← List.cons_append, ← List.append_assoc]
  obtain ⟨xs, ws, hs⟩ := story h hst
  -- the request was made pending before the frame
  have hsplit : (as₁ ++ (st.thread, .io d (.send bs)) :: as₂) ++ (st.thread, .frame port cmd q s) :: zs =
      xs ++ (st.thread, .pend i st.cmd st.sequence) :: ws := by
    rw [List.append_assoc, List.cons_append]
    exact hs.split
  have hin : ∀ x ∈ as₁ ++ (st.thread, .io d (.send bs)) :: as₂, x ∈ xs := by
    obtain ⟨us, hus, -⟩ | ⟨us, hus, hzs⟩ := List.append_eq_append_iff.mp hsplit
    · exact fun x hx => hus ▸ List.mem_append_left _ hx
    · cases us with
      | nil =>
        rw [List.append_nil] at hus
        exact fun x hx => hus ▸ hx
      | cons y us =>
        obtain ⟨rfl, -⟩ := List.cons.inj hzs
        have hpend : (st.thread, Event.pend i st.cmd st.sequence) ∈ as₁ ++ (st.thread, .io d (.send bs)) :: as₂ :=
          hus ▸ List.mem_append_right _ List.mem_cons_self
        rcases List.mem_append.mp hpend with hmem | hmem
        · exact (has₁ _ hmem _ _ rfl).elim
        · rcases List.mem_cons.mp hmem with heq | hmem
          · cases heq
          · exact (has₂ _ hmem rfl).elim
  apply mem_sentSince
  rintro ⟨t, e⟩ hx cmd' q' rfl
  exact hs.opens _ (hin _ hx) rfl

/-! ## the session of a pending request -/

def Event.isSession : Event → Bool
  | .session _ => true
  | _ => false

/-- the port has still to be reset by a HELLO -/
def Ports.ToSweep (a : Ports T) (i : Port) : Prop := ∃ is, a.sweep = some is ∧ i ∈ is

/-- the frames of a pending request are of session `s`, or the request will be cancelled -/
structure Ports.Current (a : Ports T) (s : U32) : Prop where
  session : a.session = s
  frames : ∀ i st, a.slot i = some st → st.done = none → (∀ s' ∈ st.frames, s' = s) ∨ a.ToSweep i

theorem Ports.ToSweep.of_reset {a : Ports T} {i j : Port} {error : Int} (h : a.ToSweep j)
    (hr : a.Resets i error) (hj : j ≠ i) : (a.reset i).ToSweep j := by
  obtain ⟨is, his, hmem⟩ := h
  rw [Ports.Resets, his] at hr
  cases is with
  | nil => cases hmem
  | cons k is =>
    obtain rfl : k = i := hr.1
    refine ⟨is, ?_, (List.mem_cons.mp hmem).resolve_left hj⟩
    rw [Ports.reset, his]
    rfl

theorem Ports.Current.next {a : Ports T} {s : U32} {t : T} {e : Event} (h : a.Current s)
    (hok : a.Ok t e) (he : ¬ e.isSession) : (a.next t e).Current s := by
  cases e with
  | session => exact (he rfl).elim
  | pend i cmd q =>
    refine ⟨h.session, fun j st hst hd => ?_⟩
    by_cases hj : j = i
    · subst hj
      simp only [Ports.next, Function.update_self, Option.some.injEq] at hst
      subst hst
      exact .inl (by simp)
    · simp only [Ports.next, Function.update_of_ne hj] at hst
      exact h.frames j st hst hd
  | ack i q session ackCmd ackData =>
    refine ⟨h.session, fun j st hst hd => ?_⟩
    rcases Ports.onSlot_some hst with ⟨-, hj⟩ | ⟨rfl, st₀, -, rfl⟩
    · exact h.frames j st hj hd
    · cases hd
  | cancel i error =>
    refine ⟨h.session, fun j st hst hd => ?_⟩
    rcases Ports.onSlot_some hst with ⟨hne, hj⟩ | ⟨rfl, st₀, -, rfl⟩
    · exact (h.frames j st hj hd).imp_right fun hs => hs.of_reset hok.2 hne
    · cases hd
  | clear i =>
    refine ⟨h.session, fun j st hst hd => ?_⟩
    obtain ⟨hdone, error, hr⟩ := hok
    rcases Ports.onSlot_some hst with ⟨hne, hj⟩ | ⟨rfl, st₀, h₀, rfl⟩
    · exact (h.frames j st hj hd).imp_right fun hs => hs.of_reset hr hne
    · exact (hdone st₀ h₀ hd).elim
  | gaveUp i q r =>
    refine ⟨h.session, fun j st hst hd => ?_⟩
    rcases Ports.onSlot_some hst with ⟨-, hj⟩ | ⟨rfl, st₀, h₀, rfl⟩
    · exact h.frames j st hj hd
    · exact h.frames j st₀ h₀ hd
  | finish i cmd q completed b r =>
    refine ⟨h.session, fun j st hst hd => ?_⟩
    by_cases hj : j = i
    · subst hj
      simp [Ports.next] at hst
    · simp only [Ports.next, Function.update_of_ne hj] at hst
      exact h.frames j st hst hd
  | frame p c q s' =>
    refine ⟨h.session, fun j st hst hd => ?_⟩
    obtain ⟨st₀, h₀, rfl⟩ := Ports.mapSlots_some hst
    split at hd
    case isTrue ht =>
      rw [if_pos ht]
      refine (h.frames j st₀ h₀ hd).imp_left fun hall => List.forall_mem_cons.mpr ⟨?_, hall⟩
      exact (show s' = a.session from hok).trans h.session
    case isFalse ht =>
      rw [if_neg ht]
      exact h.frames j st₀ h₀ hd
  | helloDone s' =>
    refine ⟨h.session, fun j st hst hd => .inl ?_⟩
    refine (h.frames j st hst hd).resolve_right ?_
    rintro ⟨is, his, hmem⟩
    cases (show a.sweep = some [] from hok).symm.trans his
    exact List.not_mem_nil hmem
  | _ => exact ⟨h.session, fun j st hst hd => h.frames j st hst hd⟩

/-- nothing is left to reset once a HELLO is through -/
theorem Ports.next_sweep_none {a : Ports T} {t : T} {e : Event} (h : a.sweep = none)
    (he : ¬ e.isSession) : (a.next t e).sweep = none := by
  cases e with
  | session => exact (he rfl).elim
  | cancel | clear =>
    show a.sweep.map List.tail = none
    rw [h]
    rfl
  | helloDone => rfl
  | _ => exact h

theorem sweep_none {as bs : Trace T} {t : T} {s : U32} (hdone : (t, .helloDone s) ∈ as)
    (hlast : ∀ x ∈ as, ¬ x.2.isSession) : (portsOf s₀ (as ++ bs)).sweep = none := by
  induction as with
  | nil => cases hdone
  | cons x as ih =>
    obtain ⟨u, e⟩ := x
    rcases List.mem_cons.mp hdone with hx | hx
    · cases hx
      rfl
    · have hnone := ih hx fun y hy => hlast y (List.mem_cons_of_mem _ hy)
      exact Ports.next_sweep_none hnone (hlast _ List.mem_cons_self)

/-- a HELLO is processed before the connection is taken -/
theorem hello_live {as bs : Trace T} {t : T} {s : U32}
    (h : (lifetime T d₀).Legal .start (as ++ bs)) (hdone : (t, .helloDone s) ∈ as) :
    (lifeOf d₀ bs).taken = false := by
  obtain ⟨as₁, as₂, rfl⟩ := List.append_of_mem hdone
  rw [List.append_assoc, List.cons_append] at h
  have hlegal := h.suffix
  by_contra htaken
  have hstable : (lifeOf d₀ (as₂ ++ bs)).taken = true :=
    hlegal.tail.stable (J := fun a => a.taken = true)
      (fun b u e hb _ => by cases e <;> first | exact hb | rfl) (by simpa using htaken)
  have hfalse := (Life.Sound.of_legal hlegal.tail).live ⟨t, hlegal.1⟩
  rw [hfalse] at hstable
  cases hstable

/-- **no request waits on a dead session**: once a HELLO is through, and until the next one stores
its session, a pending request has handed over no frame of another session than the one announced -/
theorem fresh_sends (hm : Connected d₀ m) {calls : T → List Call} (hc : NoInit calls)
    (hrx : OneReceiver rx calls) {c : Sys T} (hr : Reach (start m calls) c) {as bs : Trace T} {t : T}
    {s s' : U32} (htr : c.trace = as ++ (t, .session s) :: bs) (hlast : ∀ x ∈ as, ¬ x.2.isSession)
    (hdone : (t, .helloDone s') ∈ as) :
    c.mem.fgSessionId = s ∧ ∀ i, (c.mem.gPortDevices i).pending = true →
      ∃ u q, openRequests i c.trace = [(u, q)] ∧
        ∀ s'' ∈ handedSince i u c.trace, s'' = s := by
  obtain ⟨hK, gs, hI, -⟩ := requests_refine hm hc hrx hr
  have hlegal := hI.legal
  have hlife := hK.life
  rw [htr] at hlegal hlife
  have hlive : (portsOf m.fgSessionId bs).taken = false := by
    have hfalse := hello_live hlife hdone
    rw [taken_eq d₀]
    exact hfalse
  have hcurrent : (portsOf m.fgSessionId (as ++ (t, .session s) :: bs)).Current s := by
    have hfirst : (portsOf m.fgSessionId ((t, .session s) :: bs)).Current s := by
      refine ⟨rfl, fun j st _ _ => .inr ⟨allPorts, ?_, List.mem_finRange j⟩⟩
      show (if (portsOf m.fgSessionId bs).taken then _ else some allPorts) = _
      rw [hlive]
      rfl
    clear htr hdone
    induction as with
    | nil => exact hfirst
    | cons x as ih =>
      have hnext := ih (fun y hy => hlast y (List.mem_cons_of_mem _ hy)) hlegal.tail hlife.tail
      exact hnext.next hlegal.1 (hlast x List.mem_cons_self)
  have hsweep := @sweep_none _ _ m.fgSessionId _ ((t, .session s) :: bs) _ _ hdone hlast
  rw [← htr] at hcurrent hsweep
  refine ⟨hI.session.trans hcurrent.session, fun i hp => ?_⟩
  obtain ⟨st, hst, hnone⟩ := (hI.slot i).pending_iff.mp hp
  refine ⟨st.thread, st.sequence, ?_, ?_⟩
  · rw [openRequests_eq hI.legal, hst]
    rfl
  · have hall : ∀ s' ∈ st.frames, s' = s := by
      refine (hcurrent.frames i st hst hnone).resolve_right ?_
      rintro ⟨is, his, -⟩
      rw [hsweep] at his
      cases his
    exact fun s'' hs'' => hall s'' (handed_sent hc hr (List.nil_append _).symm hI.legal hst s'' hs'')

/-- a HELLO of the hub, as it comes over the wire -/
def helloFrame (s : U32) : List Byte :=
  v2Frame rpPortNone rpCmdIdLinkHello 0 0 0
    ([rpV2Version, rpV2CapFraming, 240, 0] ++ rpV2PutU32 s ++ [0, 0, 0, 0])

/-- one thread receives, the other one makes a request -/
def receiveAndRequest : Bool → List Call
  | false => [.receive]
  | true => [.request 0 5 none 0]

theorem receiveAndRequest_noInit : NoInit receiveAndRequest := by
  intro t
  cases t <;> simp [receiveAndRequest]

theorem receiveAndRequest_one : OneReceiver false receiveAndRequest := by
  intro t
  cases t <;> simp [receiveAndRequest]

/-- a HELLO is processed, and a request is made after it -/
theorem fresh_sends_run : ∃ c, exec (start (freshMem [.data (helloFrame 9)] []) receiveAndRequest)
      (steps 71 false ++ steps 46 true) = some c ∧ c.mem.fgSessionId = 9 ∧
    ∀ i, (c.mem.gPortDevices i).pending = true → ∃ u q, openRequests i c.trace = [(u, q)] ∧
      ∀ s'' ∈ handedSince i u c.trace, s'' = 9 := by
  obtain ⟨c, hrun⟩ := Option.isSome_iff_exists.mp (show (exec
    (start (freshMem [.data (helloFrame 9)] []) receiveAndRequest)
    (steps 71 false ++ steps 46 true)).isSome by decide +kernel)
  have hsplit : ∀ c ∈ exec (start (freshMem [.data (helloFrame 9)] []) receiveAndRequest)
      (steps 71 false ++ steps 46 true),
      c.trace = c.trace.take 19 ++ (false, .session 9) :: c.trace.drop 20 ∧
      (∀ x ∈ c.trace.take 19, ¬ x.2.isSession) ∧ (false, .helloDone 9) ∈ c.trace.take 19 := by
    decide +kernel
  obtain ⟨htr, hlast, hdone⟩ := hsplit c hrun
  exact ⟨c, hrun, fresh_sends (freshMem_connected _ _) receiveAndRequest_noInit
    receiveAndRequest_one (exec_reach hrun) htr hlast hdone⟩

/-! ## the fence -/

/-- A request that a HELLO cancels has handed over no frame of the session of that HELLO: not before it is
cancelled, and not before it returns the cancellation. -/
def SessionFence (s₀ : U32) (tr : Trace T) (t : T) : Event → Prop
  | .returned (.request port cmd data size) ret =>
    ∃ r, ret = .int r ∧ ((r = -EINVAL ∧ ∃ ys, Last t (.call (.request port cmd data size)) tr ys) ∨
      ∃ i q completed b ys, RequestEnded t port cmd i q completed b r tr ys ∧
        (b = .cancelled → r = -ESTALE → ∀ s ∈ cancelledIn s₀ i ys, s ∉ handedSince i t ys))
  | .cancel i error => error = -ESTALE → ∀ u ∈ openRequests i tr, currentSession s₀ tr ∉ handedSince i u.1 tr
  | _ => True

def Event.isFrame : Event → Bool
  | .frame .. => true
  | _ => false

/-- its port is not one that a HELLO has still to cancel, and no HELLO has cancelled it under the
session that is current -/
def Request.inTime (a : Ports T) (i : Port) (st : Request T) : Bool :=
  match st.done with
  | none => !(a.sweep.any fun is => i ∈ is)
  | some (.cancelled s error) => !(error == -ESTALE && s == a.session)
  | some (.acked ..) => true

/-- no frame of a request is late -/
def SentInTime (s₀ : U32) (tr : Trace T) (t : T) (e : Event) : Prop :=
  e.isFrame = true → ∀ i, ∀ st ∈ (portsOf s₀ tr).slot i, st.thread = t → st.inTime (portsOf s₀ tr) i

instance (s₀ : U32) (tr : Trace T) (t : T) (e : Event) : Decidable (SentInTime s₀ tr t e) :=
  inferInstanceAs (Decidable (_ → ∀ i, ∀ st ∈ (portsOf s₀ tr).slot i, _ → _))

theorem Request.inTime_iff {a : Ports T} {st : Request T} : st.inTime a i = true ↔
    (st.done = none → ¬ a.ToSweep i) ∧
      ∀ s, st.done = some (.cancelled s (-ESTALE)) → s ≠ a.session := by
  unfold Request.inTime Ports.ToSweep
  cases hd : st.done with
  | none => cases hs : a.sweep <;> simp
  | some comp =>
    cases comp with
    | acked => simp
    | cancelled s error =>
      by_cases he : error = -ESTALE
      · subst he
        simp
      · simp [he]

/-- what the frames of the requests are when no frame is late -/
structure Ports.Timely (a : Ports T) : Prop where
  cancelled : ∀ i st s, a.slot i = some st → st.done = some (.cancelled s (-ESTALE)) → s ∉ st.frames
  toSweep : ∀ i st, a.slot i = some st → st.done = none → a.ToSweep i → a.session ∉ st.frames
  current : a.taken = false → ∀ i st, a.slot i = some st → st.done = none → ¬ a.ToSweep i →
    ∀ s ∈ st.frames, s = a.session

theorem Ports.Timely.next {a : Ports T} {t : T} {e : Event} (h : a.Timely) (hok : a.Ok t e)
    (htaken : a.taken = true → a.sweep = none)
    (he : ∀ p c q s, e = .frame p c q s → ∀ i st, a.slot i = some st → st.thread = t →
      (st.done = none → ¬ a.ToSweep i) ∧
      ∀ s, st.done = some (.cancelled s (-ESTALE)) → s ≠ a.session) : (a.next t e).Timely := by
  -- a change of one request that keeps what is said of it, and maybe completes it
  have honSlot : ∀ (i : Port) (f : Request T → Request T),
      (∀ st, (f st).frames = st.frames) →
      (∀ st, a.slot i = some st → (f st).done = none → st.done = none) →
      (∀ st s, a.slot i = some st → (f st).done = some (.cancelled s (-ESTALE)) →
        st.done = some (.cancelled s (-ESTALE)) ∨ s ∉ st.frames) → (a.onSlot i f).Timely := by
    intro i f hframes hnone hcan
    refine ⟨fun j st s hst hd => ?_, fun j st hst hd hs => ?_, fun hlive j st hst hd hs => ?_⟩
    · rcases Ports.onSlot_some hst with ⟨-, hj⟩ | ⟨rfl, st₀, h₀, rfl⟩
      · exact h.cancelled j st s hj hd
      · rw [hframes]
        rcases hcan st₀ s h₀ hd with hd | hnot
        · exact h.cancelled j st₀ s h₀ hd
        · exact hnot
    · rcases Ports.onSlot_some hst with ⟨-, hj⟩ | ⟨rfl, st₀, h₀, rfl⟩
      · exact h.toSweep j st hj hd hs
      · rw [hframes]
        exact h.toSweep j st₀ h₀ (hnone st₀ h₀ hd) hs
    · rcases Ports.onSlot_some hst with ⟨-, hj⟩ | ⟨rfl, st₀, h₀, rfl⟩
      · exact h.current hlive j st hj hd hs
      · rw [hframes]
        exact h.current hlive j st₀ h₀ (hnone st₀ h₀ hd) hs
  -- the reset of a port without a pending request
  have hreset : ∀ {b : Ports T} {i : Port} {error : Int}, b.Timely → b.Resets i error →
      (∀ st, b.slot i = some st → st.done ≠ none) → (b.reset i).Timely := by
    intro b i error hb hr hi
    have hsub : ∀ {j}, (b.reset i).ToSweep j → b.ToSweep j := by
      rintro j ⟨is, his, hmem⟩
      obtain ⟨js, hjs, rfl⟩ := Option.map_eq_some_iff.mp his
      exact ⟨js, hjs, List.mem_of_mem_tail hmem⟩
    refine ⟨fun j st s hst hd => hb.cancelled j st s hst hd,
      fun j st hst hd hs => hb.toSweep j st hst hd (hsub hs), fun hlive j st hst hd hs => ?_⟩
    refine hb.current hlive j st hst hd fun hs' => hs (hs'.of_reset hr ?_)
    rintro rfl
    exact hi st hst hd
  cases e with
  | pend i cmd q =>
    have hcase : ∀ {j : Port} {st : Request T}, ((a.next t (.pend i cmd q)).slot j = some st) →
        st.frames = [] ∧ st.done = none ∨ a.slot j = some st := by
      intro j st hst
      by_cases hj : j = i
      · subst hj
        simp only [Ports.next, Function.update_self, Option.some.injEq] at hst
        subst hst
        exact .inl ⟨rfl, rfl⟩
      · simp only [Ports.next, Function.update_of_ne hj] at hst
        exact .inr hst
    refine ⟨fun j st s hst hd => ?_, fun j st hst hd hs => ?_, fun hlive j st hst hd hs => ?_⟩
    · rcases hcase hst with ⟨hf, -⟩ | hst
      · rw [hf]
        exact List.not_mem_nil
      · exact h.cancelled j st s hst hd
    · rcases hcase hst with ⟨hf, -⟩ | hst
      · rw [hf]
        exact List.not_mem_nil
      · exact h.toSweep j st hst hd hs
    · rcases hcase hst with ⟨hf, -⟩ | hst
      · rw [hf]
        simp
      · exact h.current hlive j st hst hd hs
  | ack i q session ackCmd ackData => exact honSlot i _ (fun _ => rfl) (by simp) (by simp)
  | gaveUp i q r => exact honSlot i _ (fun _ => rfl) (fun _ _ => id) fun _ _ _ => .inl
  | cancel i error =>
    obtain ⟨⟨st₀, h₀, hnone⟩, hr⟩ := hok
    refine hreset (honSlot i _ (fun _ => rfl) (by simp) fun st s hst hd => ?_) hr fun st hst => ?_
    · cases h₀.symm.trans hst
      cases hd
      refine .inr (h.toSweep i st₀ h₀ hnone ?_)
      unfold Ports.Resets at hr
      split at hr
      case h_1 j js hjs =>
        obtain rfl := hr.1
        exact ⟨_, hjs, List.mem_cons_self⟩
      case h_2 => exact hr.elim
      case h_3 => exact absurd hr.2 (by decide)
    · rcases Ports.onSlot_some hst with ⟨hne, -⟩ | ⟨-, st₁, -, rfl⟩
      · exact (hne rfl).elim
      · simp
  | clear i =>
    obtain ⟨hdone, error, hr⟩ := hok
    refine hreset (honSlot i _ (fun _ => rfl) (fun _ _ => id) fun _ _ _ => .inl) hr
      fun st hst => ?_
    rcases Ports.onSlot_some hst with ⟨hne, -⟩ | ⟨-, st₁, h₁, rfl⟩
    · exact (hne rfl).elim
    · exact hdone st₁ h₁
  | finish i cmd q completed b r =>
    have hcase : ∀ {j : Port} {st : Request T},
        (a.next t (.finish i cmd q completed b r)).slot j = some st → a.slot j = some st := by
      intro j st hst
      by_cases hj : j = i
      · subst hj
        simp [Ports.next] at hst
      · simpa only [Ports.next, Function.update_of_ne hj] using hst
    exact ⟨fun j st s hst hd => h.cancelled j st s (hcase hst) hd,
      fun j st hst hd hs => h.toSweep j st (hcase hst) hd hs,
      fun hlive j st hst hd hs => h.current hlive j st (hcase hst) hd hs⟩
  | frame p c q s =>
    have hs₀ : s = a.session := hok
    refine ⟨fun j st s' hst hd => ?_, fun j st hst hd hs => ?_, fun hlive j st hst hd hs => ?_⟩
    all_goals obtain ⟨st₀, h₀, rfl⟩ := Ports.mapSlots_some hst
    all_goals split at hd
    case _ ht =>
      rw [if_pos ht]
      intro hmem
      rcases List.mem_cons.mp hmem with rfl | hmem
      · exact (he p c q _ rfl j st₀ h₀ ht).2 _ hd hs₀
      · exact h.cancelled j st₀ s' h₀ hd hmem
    case _ ht =>
      rw [if_neg ht]
      exact h.cancelled j st₀ s' h₀ hd
    case _ ht => exact ((he p c q s rfl j st₀ h₀ ht).1 hd hs).elim
    case _ ht =>
      rw [if_neg ht]
      exact h.toSweep j st₀ h₀ hd hs
    case _ ht =>
      rw [if_pos ht]
      intro s' hs'
      rcases List.mem_cons.mp hs' with rfl | hs'
      · exact hs₀
      · exact h.current hlive j st₀ h₀ hd hs s' hs'
    case _ ht =>
      rw [if_neg ht]
      exact h.current hlive j st₀ h₀ hd hs
  | session s =>
    refine ⟨fun j st s' hst hd => ?_, fun j st hst hd hs => ?_, fun hlive j st hst hd hs => ?_⟩
    all_goals obtain ⟨st₀, h₀, rfl⟩ := Ports.mapSlots_some hst
    · exact h.cancelled j st₀ s' h₀ hd
    · cases htk : a.taken with
      | true =>
        obtain ⟨is, his, -⟩ := hs
        have his' : (if a.taken then a.sweep else some allPorts) = some is := his
        rw [if_pos htk, htaken htk] at his'
        cases his'
      | false =>
        obtain ⟨hnone, hne⟩ := hok htk
        intro hmem
        refine hne (h.current htk j st₀ h₀ hd ?_ s hmem)
        rintro ⟨is, his, -⟩
        rw [hnone] at his
        cases his
    · have hlive' : a.taken = false := hlive
      refine (hs ⟨allPorts, ?_, List.mem_finRange j⟩).elim
      show (if a.taken then a.sweep else some allPorts) = some allPorts
      rw [hlive']
      rfl
  | helloDone s =>
    have hempty : ∀ j, ¬ a.ToSweep j := by
      rintro j ⟨is, his, hmem⟩
      cases (show a.sweep = some [] from hok).symm.trans his
      exact List.not_mem_nil hmem
    exact ⟨h.cancelled, by rintro _ _ _ _ ⟨_, ⟨⟩, _⟩,
      fun hlive j st hst hd _ => h.current hlive j st hst hd (hempty j)⟩
  | takeDesc d => exact ⟨h.cancelled, h.toSweep, by rintro ⟨⟩⟩
  | _ => exact h

/-- the frames of a cancelled request, where it is cancelled and where it leaves its result -/
theorem Ports.Timely.cancelled_frames {tr : Trace T} {t : T} {cmd : Byte} {q : U32} {completed : Bool}
    (hlegal : (requests T).Legal (.start s₀) ((t, .finish i cmd q completed .cancelled (-ESTALE)) :: tr))
    (h : (portsOf s₀ tr).Timely) : ∃ st, (portsOf s₀ tr).slot i = some st ∧ st.thread = t ∧
      ∀ s ∈ cancelledIn s₀ i tr, s ∉ st.frames := by
  obtain ⟨st, hst, ht, -, -, -, hret⟩ := hlegal.1
  refine ⟨st, hst, ht, fun s hs => ?_⟩
  obtain ⟨s', hs'⟩ := hret.cancelled
  rw [cancelledIn_eq hlegal.tail hst hs'] at hs
  cases hs
  exact h.cancelled i st s hst hs'

theorem Ports.Timely.swept_frames {tr : Trace T} {t : T}
    (hlegal : (requests T).Legal (.start s₀) ((t, .cancel i (-ESTALE)) :: tr)) (h : (portsOf s₀ tr).Timely)
    {u : T × U32} (hu : u ∈ openRequests i tr) : ∃ st, (portsOf s₀ tr).slot i = some st ∧ st.thread = u.1 ∧
      currentSession s₀ tr ∉ st.frames := by
  rw [openRequests_eq hlegal.tail] at hu
  obtain ⟨st, hst, rfl⟩ := List.mem_map.mp hu
  have hst' : (portsOf s₀ tr).slot i = some st := Option.mem_toList.mp hst
  obtain ⟨⟨st₀, hst₀, hnone⟩, hr⟩ := hlegal.1
  cases hst'.symm.trans hst₀
  refine ⟨st, hst', rfl, ?_⟩
  rw [currentSession_eq]
  refine h.toSweep i st hst' hnone ?_
  unfold Ports.Resets at hr
  split at hr
  case h_1 j js hjs =>
    obtain rfl := hr.1
    exact ⟨_, hjs, List.mem_cons_self⟩
  case h_2 => exact hr.elim
  case h_3 => exact absurd hr.2 (by decide)

/-- when no frame is late, none is at any moment of the run -/
theorem timely_run (hm : Connected d₀ m) {calls : T → List Call} (hc : NoInit calls)
    (hrx : OneReceiver rx calls) {c : Sys T} (hr : Reach (start m calls) c)
    (hin : Along (SentInTime m.fgSessionId) c.trace) :
    Along (fun tr _ _ => (portsOf m.fgSessionId tr).Timely) c.trace := by
  suffices h : Along (SentInTime m.fgSessionId) c.trace →
      (portsOf m.fgSessionId c.trace).Timely ∧ Along (fun tr _ _ => (portsOf m.fgSessionId tr).Timely) c.trace from
    (h hin).2
  refine hr.history (P := fun tr => Along (SentInTime m.fgSessionId) tr →
    (portsOf m.fgSessionId tr).Timely ∧ Along (fun tr _ _ => (portsOf m.fgSessionId tr).Timely) tr)
    (fun _ => ⟨⟨by rintro _ _ _ ⟨⟩, by rintro _ _ ⟨⟩, by rintro _ _ _ ⟨⟩⟩, trivial⟩) ?_
  intro c c' t e hc₁ hc₂ htr ih hin
  obtain ⟨htime, hpast⟩ := ih hin.2
  obtain ⟨hK, gs, hI, -⟩ := requests_refine hm hc hrx hc₁
  obtain ⟨hK', gs', hI', -⟩ := requests_refine hm hc hrx hc₂
  have hlegal := hI'.legal
  rw [htr] at hlegal
  have htaken : (portsOf m.fgSessionId c.trace).taken = true →
      (portsOf m.fgSessionId c.trace).sweep = none := fun h => hI.taken_sweep hK.life h
  refine ⟨htime.next hlegal.1 htaken ?_, htime, hpast⟩
  rintro p cmd q s rfl i st hst ht
  exact Request.inTime_iff.mp (hin.1 rfl i st hst ht)

/-- **the session fence**, of the runs in which no request sends a frame late -/
theorem session_fence (hm : Connected d₀ m) {calls : T → List Call} (hc : NoInit calls)
    (hrx : OneReceiver rx calls) {c : Sys T} (hr : Reach (start m calls) c)
    (hin : Along (SentInTime m.fgSessionId) c.trace) :
    Along (SessionFence m.fgSessionId) c.trace := by
  have htimely := timely_run hm hc hrx hr hin
  obtain ⟨hK, gs, hI, -⟩ := requests_refine hm hc hrx hr
  have hlegal := hI.legal
  apply Along.of_split
  intro as t e bs htr
  cases e with
  | returned call ret =>
    cases call with
    | request port cmd data size =>
      obtain ⟨r, rfl, hret⟩ := request_returned hc hr htr
      refine ⟨r, rfl, hret.imp_right ?_⟩
      rintro ⟨i, q, completed, b, ys, hended⟩
      refine ⟨i, q, completed, b, ys, hended, ?_⟩
      rintro rfl rfl s hs hmem
      obtain ⟨xs, rfl, -⟩ := hended.last
      have hsplit : c.trace = (as ++ (t, .returned (.request port cmd data size) (.int (-ESTALE))) :: xs) ++
          (t, .finish i cmd q completed .cancelled (-ESTALE)) :: ys := by
        rw [htr, List.append_assoc, List.cons_append]
      rw [hsplit] at htimely hlegal
      obtain ⟨st, hst, rfl, hnot⟩ := htimely.split.cancelled_frames hlegal.suffix
      rw [List.append_cons] at hsplit
      exact hnot s hs (handed_sent hc hr hsplit hlegal.suffix.tail hst s hmem)
    | _ => trivial
  | cancel i error =>
    rintro rfl u hu hmem
    rw [htr] at htimely hlegal
    obtain ⟨st, hst, ht, hnot⟩ := htimely.split.swept_frames hlegal.suffix hu
    rw [← ht] at hmem
    rw [List.append_cons] at htr
    exact hnot (handed_sent hc hr htr hlegal.suffix.tail hst _ hmem)
  | _ => trivial

/-- a request sends its frame, is cancelled by a HELLO, and returns -/
theorem session_fence_run : ∃ c, exec (start (freshMem [.data (helloFrame 9)] []) receiveAndRequest)
      (steps 46 true ++ steps 48 false ++ steps 11 true) = some c ∧
    c.trace.head? = some (true, .returned (.request 0 5 none 0) (.int (-ESTALE))) ∧
    Along (SessionFence freshSession) c.trace := by
  obtain ⟨c, hrun⟩ := Option.isSome_iff_exists.mp (show (exec
    (start (freshMem [.data (helloFrame 9)] []) receiveAndRequest)
    (steps 46 true ++ steps 48 false ++ steps 11 true)).isSome by decide +kernel)
  have hin : ∀ c ∈ exec (start (freshMem [.data (helloFrame 9)] []) receiveAndRequest)
      (steps 46 true ++ steps 48 false ++ steps 11 true),
      c.trace.head? = some (true, .returned (.request 0 5 none 0) (.int (-ESTALE))) ∧
      Along (SentInTime freshSession) c.trace := by
    decide +kernel
  exact ⟨c, hrun, (hin c hrun).1, session_fence (freshMem_connected _ _) receiveAndRequest_noInit
    receiveAndRequest_one (exec_reach hrun) (hin c hrun).2⟩

/-- The HELLO stores its session between the `pend` and the frame of a request, and resets the port
after it: the request is cancelled, and returns so, with a frame of the new session on its way. -/
theorem session_fence_breaks : ∃ c,
    exec (start (freshMem [.data (helloFrame 9)] []) receiveAndRequest)
      (steps 8 true ++ steps 41 false ++ steps 38 true ++ steps 8 false ++ steps 11 true) = some c ∧
    c.trace.head? = some (true, .returned (.request 0 5 none 0) (.int (-ESTALE))) ∧
    9 ∈ handedSince 0 true c.trace ∧ ¬ Along (SessionFence freshSession) c.trace := by
  obtain ⟨c, hrun⟩ := Option.isSome_iff_exists.mp (show (exec
    (start (freshMem [.data (helloFrame 9)] []) receiveAndRequest)
    (steps 8 true ++ steps 41 false ++ steps 38 true ++ steps 8 false ++ steps 11 true)).isSome
    by decide +kernel)
  have hend : ∀ c ∈ exec (start (freshMem [.data (helloFrame 9)] []) receiveAndRequest)
      (steps 8 true ++ steps 41 false ++ steps 38 true ++ steps 8 false ++ steps 11 true),
      c.trace.head? = some (true, .returned (.request 0 5 none 0) (.int (-ESTALE))) ∧
      9 ∈ handedSince 0 true c.trace ∧
      c.trace = c.trace.take 2 ++ (false, .cancel 0 (-ESTALE)) :: c.trace.drop 3 ∧
      (true, 1) ∈ openRequests 0 (c.trace.drop 3) ∧ currentSession freshSession (c.trace.drop 3) = 9 ∧
      9 ∈ handedSince 0 true (c.trace.drop 3) := by
    decide +kernel
  obtain ⟨hhead, hsent, htr, hopen, hsession, hbefore⟩ := hend c hrun
  refine ⟨c, hrun, hhead, hsent, fun h => ?_⟩
  rw [htr] at h
  have hfence : currentSession freshSession (c.trace.drop 3) ∉ handedSince 0 true (c.trace.drop 3) :=
    h.split rfl _ hopen
  rw [hsession] at hfence
  exact hfence hbefore

end RaspikeArt
