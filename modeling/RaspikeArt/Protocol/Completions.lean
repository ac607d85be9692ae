import RaspikeArt.Protocol.Correlation
import RaspikeArt.Threads.Finish

/-!
# Requests, part 8: completions that are lost

* `CompletionKept`         a call returns the value its request was completed with, and not as a timeout;
* `ReadInTime`             the entries that lose no completion: none comes after the caller has looked for
                           the last time, and none is overtaken before it is read;
* `requestFinish_counts`   a request is counted as a timeout in one branch of its final section only;
* `completions_kept`       in the runs of such entries no completion is lost.
-/

set_option linter.unusedSectionVars false

namespace RaspikeArt
open Threads

variable {T : Type} [DecidableEq T] {d₀ : Nat} {s₀ : U32} {rx : T} {m : Mem} {i : Port}

/-- The value the request on the port has been completed with since it was made pending: the data of
an ACK for its command, or the code of a cancellation. -/
def completionOf (i : Port) (cmd : Byte) : Trace T → Option Int
  | [] => none
  | (_, e) :: tr =>
    match e with
    | .pend j _ _ => if j = i then none else completionOf i cmd tr
    | .ack j _ _ ackCmd ackData =>
      if j = i then (if ackCmd = cmd.toNat then some ackData else none) else completionOf i cmd tr
    | .cancel j error => if j = i then some error else completionOf i cmd tr
    | _ => completionOf i cmd tr

/-- the call returns what its request has been completed with, and does not end as a timeout -/
def CompletionKept (tr : Trace T) (u : T) : Event → Prop
  | .returned (.request port cmd data size) ret =>
    ∃ r, ret = .int r ∧ ((r = -EINVAL ∧ ∃ ys, Last u (.call (.request port cmd data size)) tr ys) ∨
      ∃ i s completed b ys, RequestEnded u port cmd i s completed b r tr ys ∧
        ∀ v ∈ completionOf i cmd ys, r = v ∧ b ≠ .timedOut)
  | _ => True

/-! ## the condition -/

/-- the value of a completion, if it answers the request -/
def Completion.answer (cmd : Byte) : Completion → Option Int
  | .cancelled _ error => some error
  | .acked _ ackCmd ackData => if ackCmd = cmd.toNat then some ackData else none

def Request.answer (st : Request T) : Option Int := st.done.bind (Completion.answer st.cmd)

/-- what an entry does to the request on a port, given the request before it -/
def Request.keeps (i : Port) (st : Request T) : Event → Bool
  | .ack j _ _ ackCmd _ => j != i || st.gaveUp.isNone || ackCmd != st.cmd.toNat
  | .cancel j _ => j != i || st.gaveUp.isNone
  | .gaveUp j _ _ => j != i || st.answer.isNone
  | .clear j => j != i || st.answer.isNone
  | .session s => st.answer.isNone || !st.outdated s
  | _ => true

/-- No request is completed after its caller has looked at it for the last time: not after it has given up,
and not before, while it is in a send that makes it give up.  And between its completion and its final
section neither is its port reset again nor does the session of its ACK end. -/
def ReadInTime (s₀ : U32) (tr : Trace T) (_ : T) (e : Event) : Prop :=
  ∀ i, ∀ st ∈ (portsOf s₀ tr).slot i, st.keeps i e

instance (s₀ : U32) (tr : Trace T) (t : T) (e : Event) : Decidable (ReadInTime s₀ tr t e) :=
  inferInstanceAs (Decidable (∀ i, ∀ st ∈ (portsOf s₀ tr).slot i, _))

/-! ## what it keeps -/

theorem completionOf_eq {tr : Trace T} (h : (requests T).Legal (.start s₀) tr) {st : Request T}
    (hst : (portsOf s₀ tr).slot i = some st) : completionOf i st.cmd tr = st.answer := by
  obtain ⟨xs, ys, hs⟩ := story h hst
  have hskip : ∀ {zs : Trace T} {rest : Trace T}, (∀ x ∈ zs, ¬ x.2.opens i) →
      (∀ x ∈ zs, ¬ x.2.completes i) →
      completionOf i st.cmd (zs ++ rest) = completionOf i st.cmd rest := by
    intro zs rest ho hc
    induction zs with
    | nil => rfl
    | cons x zs ih =>
      obtain ⟨t, e⟩ := x
      have hrest := ih (fun y hy => ho y (List.mem_cons_of_mem _ hy))
        fun y hy => hc y (List.mem_cons_of_mem _ hy)
      have ho' := ho (t, e) List.mem_cons_self
      have hc' := hc (t, e) List.mem_cons_self
      rw [← hrest]
      cases e with
      | pend j => exact if_neg ho'
      | ack j => exact if_neg hc'
      | cancel j => exact if_neg hc'
      | _ => rfl
  have hpend : completionOf i st.cmd ((st.thread, .pend i st.cmd st.sequence) :: ys) = none :=
    if_pos rfl
  have hin := hs.done
  have hopens := hs.opens
  rw [hs.split, Request.answer]
  cases hd : st.done with
  | none =>
    rw [hd] at hin
    rw [hskip hopens hin, hpend]
    rfl
  | some comp =>
    rw [hd] at hin
    cases comp with
    | acked session ackCmd ackData =>
      obtain ⟨x₁, v, x₂, rfl, h1, -⟩ := hin
      rw [List.append_assoc, hskip (fun x hx => hopens x (List.mem_append_left _ hx)) h1]
      exact if_pos rfl
    | cancelled session error =>
      obtain ⟨x₁, v, x₂, rfl, h1, -⟩ := hin
      rw [List.append_assoc, hskip (fun x hx => hopens x (List.mem_append_left _ hx)) h1]
      exact if_pos rfl

/-- nothing has come between a completion and the request -/
structure Request.Unspoilt (st : Request T) : Prop where
  fresh : st.done = none → st.cleared = false ∧ st.stale = false
  gaveUp : st.answer ≠ none → st.gaveUp = none
  waiting : st.answer ≠ none → st.cleared = false ∧ st.stale = false

def Ports.Unspoilt (a : Ports T) : Prop := ∀ i st, a.slot i = some st → st.Unspoilt

/-- a completion of a fresh request -/
theorem Request.Unspoilt.complete {st : Request T} {comp : Completion} (h : st.Unspoilt)
    (hnone : st.done = none) (hgave : comp.answer st.cmd ≠ none → st.gaveUp = none) :
    Request.Unspoilt { st with done := some comp } :=
  ⟨by rintro ⟨⟩, hgave, fun _ => h.fresh hnone⟩

theorem Ports.Unspoilt.onSlot {a : Ports T} {f : Request T → Request T} (h : a.Unspoilt)
    (hf : ∀ st, a.slot i = some st → (f st).Unspoilt) : (a.onSlot i f).Unspoilt := by
  intro j st hst
  rcases Ports.onSlot_some hst with ⟨-, hj⟩ | ⟨rfl, st₀, h₀, rfl⟩
  · exact h j st hj
  · exact hf st₀ h₀

theorem Ports.Unspoilt.next {a : Ports T} {t : T} {e : Event} (h : a.Unspoilt) (hok : a.Ok t e)
    (hkeeps : ∀ i st, a.slot i = some st → st.keeps i e) : (a.next t e).Unspoilt := by
  cases e with
  | pend i cmd q =>
    intro j st hst
    by_cases hj : j = i
    · subst hj
      simp only [Ports.next, Function.update_self, Option.some.injEq] at hst
      subst hst
      exact ⟨fun _ => ⟨rfl, rfl⟩, fun hne => (hne rfl).elim, fun hne => (hne rfl).elim⟩
    · simp only [Ports.next, Function.update_of_ne hj] at hst
      exact h j st hst
  | ack i q session ackCmd ackData =>
    obtain ⟨-, -, st₀, h₀, hnone, -⟩ := hok
    refine h.onSlot fun st hst => ?_
    cases h₀.symm.trans hst
    refine (h i st₀ h₀).complete hnone fun hne => ?_
    have hk := hkeeps i st₀ h₀
    simp only [Request.keeps, bne_self_eq_false, Bool.false_or, Bool.or_eq_true] at hk
    rcases hk with hk | hk
    · exact Option.isNone_iff_eq_none.mp hk
    · rw [Completion.answer, if_neg (bne_iff_ne.mp hk)] at hne
      exact (hne rfl).elim
  | cancel i error =>
    obtain ⟨⟨st₀, h₀, hnone⟩, -⟩ := hok
    refine (h.onSlot (i := i) fun st hst => ?_ : Ports.Unspoilt _)
    cases h₀.symm.trans hst
    refine (h i st₀ h₀).complete hnone fun _ => ?_
    have hk := hkeeps i st₀ h₀
    simp only [Request.keeps, bne_self_eq_false, Bool.false_or] at hk
    exact Option.isNone_iff_eq_none.mp hk
  | gaveUp i q r =>
    refine h.onSlot fun st hst => ?_
    have hk := hkeeps i st hst
    simp only [Request.keeps, bne_self_eq_false, Bool.false_or] at hk
    exact ⟨(h i st hst).fresh, fun hne => (hne (Option.isNone_iff_eq_none.mp hk)).elim, (h i st hst).waiting⟩
  | clear i =>
    obtain ⟨hdone, -⟩ := hok
    refine (h.onSlot (i := i) fun st hst => ?_ : Ports.Unspoilt _)
    have hk := hkeeps i st hst
    simp only [Request.keeps, bne_self_eq_false, Bool.false_or] at hk
    exact ⟨fun hnone => (hdone st hst hnone).elim, (h i st hst).gaveUp,
      fun hne => (hne (Option.isNone_iff_eq_none.mp hk)).elim⟩
  | finish i cmd q completed b r =>
    intro j st hst
    by_cases hj : j = i
    · subst hj
      simp [Ports.next] at hst
    · simp only [Ports.next, Function.update_of_ne hj] at hst
      exact h j st hst
  | frame p c q s =>
    intro j st hst
    obtain ⟨st₀, h₀, rfl⟩ := Ports.mapSlots_some hst
    have hold := h j st₀ h₀
    split
    · exact ⟨hold.fresh, hold.gaveUp, hold.waiting⟩
    · exact hold
  | session s =>
    intro j st hst
    obtain ⟨st₀, h₀, rfl⟩ := Ports.mapSlots_some hst
    have hold := h j st₀ h₀
    have hk := hkeeps j st₀ h₀
    simp only [Request.keeps, Bool.or_eq_true] at hk
    refine ⟨fun hnone => ?_, hold.gaveUp, fun hne => ?_⟩
    · have hnone' : st₀.done = none := hnone
      have hout : st₀.outdated s = false := by
        rw [Request.outdated, hnone']
      refine ⟨(hold.fresh hnone').1, ?_⟩
      show (st₀.stale || st₀.outdated s) = false
      rw [(hold.fresh hnone').2, hout]
      rfl
    · obtain ⟨hcl, hst⟩ := hold.waiting hne
      refine ⟨hcl, ?_⟩
      show (st₀.stale || st₀.outdated s) = false
      rcases hk with hk | hk
      · exact (hne (Option.isNone_iff_eq_none.mp hk)).elim
      · rw [hst, Bool.false_or]
        simpa using hk
  | _ => exact h

/-- such a request returns what it was completed with -/
theorem Request.Unspoilt.returns {st : Request T} {taken : Bool} {b : Branch} {r : Int}
    (h : st.Unspoilt) (hret : st.Returns taken b r) : ∀ v ∈ st.answer, r = v ∧ b ≠ .timedOut := by
  intro v hv
  have hanswer : st.answer ≠ none := by
    rw [hv]
    exact Option.some_ne_none v
  obtain ⟨hcl, hstale⟩ := h.waiting hanswer
  rw [Request.Returns, h.gaveUp hanswer] at hret
  obtain ⟨comp, hcomp, hret⟩ := hret
  rw [hcl, if_neg Bool.false_ne_true, hstale] at hret
  rw [Request.answer, hcomp] at hv
  cases comp with
  | cancelled session error =>
    cases hv
    obtain ⟨rfl, rfl⟩ := hret
    exact ⟨rfl, by rintro ⟨⟩⟩
  | acked session ackCmd ackData =>
    have hv' : (if ackCmd = st.cmd.toNat then some ackData else none) = some v := hv
    split at hv'
    case isTrue hcmd =>
      cases hv'
      rcases hret with ⟨-, rfl, rfl⟩ | ⟨hfalse, -⟩
      · exact ⟨rfl, by rintro ⟨⟩⟩
      · cases hfalse hcmd
    case isFalse => cases hv'

/-- what the final section of a request leaves, if its completion is kept -/
def FinishKept (tr : Trace T) (_ : T) : Event → Prop
  | .finish i cmd _ _ b r => ∀ v ∈ completionOf i cmd tr, r = v ∧ b ≠ .timedOut
  | _ => True

/-- the final sections of such a run -/
theorem finishes_kept (hm : Connected d₀ m) {calls : T → List Call} (hc : NoInit calls)
    (hrx : OneReceiver rx calls) {c : Sys T} (hr : Reach (start m calls) c)
    (hin : Along (ReadInTime m.fgSessionId) c.trace) : Along FinishKept c.trace := by
  suffices h : Along (ReadInTime m.fgSessionId) c.trace →
      (portsOf m.fgSessionId c.trace).Unspoilt ∧ Along FinishKept c.trace from (h hin).2
  refine hr.history (P := fun tr => Along (ReadInTime m.fgSessionId) tr →
    (portsOf m.fgSessionId tr).Unspoilt ∧ Along FinishKept tr) (fun _ => ⟨by rintro i st ⟨⟩, trivial⟩) ?_
  intro c c' t e hc₁ hc₂ htr ih hin
  obtain ⟨hun, hkept⟩ := ih hin.2
  obtain ⟨-, gs', hI', -⟩ := requests_refine hm hc hrx hc₂
  have hlegal := hI'.legal
  rw [htr] at hlegal
  refine ⟨hun.next hlegal.1 fun i st hst => hin.1 i st hst, ?_, hkept⟩
  cases e with
  | finish i cmd s completed b r =>
    obtain ⟨st, hst, -, rfl, -, -, hret⟩ := hlegal.1
    show ∀ v ∈ completionOf i st.cmd c.trace, _
    rw [completionOf_eq hlegal.tail hst]
    exact (hun i st hst).returns hret
  | _ => trivial

/-- the branch of a final section says whether the section has counted a timeout -/
theorem requestFinish_counts (i : Port) (cmd : Byte) (sequence : U32) (result : Int) (completed : Bool)
    {w : World Unit Mutex Event Mem} (hport : w.own (.port i) = none) (hstats : w.own .fgLinkStats = none) :
    Finishes (requestFinish i cmd sequence result completed) w fun r w' => ∃ b,
      w'.trace = ((), .finish i cmd sequence completed b r) :: w.trace ∧
      w'.mem.fgLinkStats .requestTimeouts = w.mem.fgLinkStats .requestTimeouts + if b = .timedOut then 1 else 0 := by
  have hlocked : (w.acquire () (Mutex.port i)).own .fgLinkStats = none := by
    show Function.update w.own (.port i) (some ()) .fgLinkStats = none
    rw [Function.update_of_ne (by simp)]
    exact hstats
  apply finish_bind
  apply finish_lock hport
  apply finish_bind
  apply finish_load
  apply finish_seq (R := fun o w' => w'.trace = w.trace ∧
    w'.mem.fgLinkStats .requestTimeouts = w.mem.fgLinkStats .requestTimeouts + if o.1 = .timedOut then 1 else 0)
  · unfold requestOutcome
    split
    · exact finish_pure ⟨rfl, (BitVec.add_zero _).symm⟩
    apply finish_seq (R := fun _ w' => w' = w.acquire () (.port i))
    · split
      · apply finish_orElse
        apply finish_load
        split
        · rfl
        split
        · exact finish_load rfl
        · exact finish_pure rfl
      · exact finish_pure rfl
    rintro acked _ rfl
    split
    · exact finish_pure ⟨rfl, (BitVec.add_zero _).symm⟩
    split
    · apply finish_bind
      apply finish_bind
      apply finish_lock hlocked
      apply finish_bind
      apply finish_modify
      apply finish_unlock
      refine finish_pure ⟨rfl, ?_⟩
      show Function.update w.mem.fgLinkStats .requestTimeouts (w.mem.fgLinkStats .requestTimeouts + 1) .requestTimeouts = _
      rw [Function.update_self]
      rfl
    · exact finish_pure ⟨rfl, (BitVec.add_zero _).symm⟩
  rintro outcome w' ⟨htrace, hcount⟩
  apply finish_bind
  apply finish_act
  apply finish_bind
  apply finish_unlock
  apply finish_bind
  apply finish_unlock
  exact finish_pure ⟨outcome.1, congrArg _ htrace, hcount⟩

/-- **No completion is lost**, in the runs in which every completion is read in time: every request that
returns returns its completion, and ends in a branch that counts no timeout. -/
theorem completions_kept (hm : Connected d₀ m) {calls : T → List Call} (hc : NoInit calls)
    (hrx : OneReceiver rx calls) {c : Sys T} (hr : Reach (start m calls) c)
    (hin : Along (ReadInTime m.fgSessionId) c.trace) : Along CompletionKept c.trace ∧
    ∀ (i : Port) (cmd : Byte) (sequence : U32) (result : Int) (completed : Bool) (w : World Unit Mutex Event Mem),
      w.own (.port i) = none → w.own .fgLinkStats = none →
      Finishes (requestFinish i cmd sequence result completed) w fun r w' => ∃ b,
        w'.trace = ((), .finish i cmd sequence completed b r) :: w.trace ∧
        w'.mem.fgLinkStats .requestTimeouts =
          w.mem.fgLinkStats .requestTimeouts + if b = .timedOut then 1 else 0 := by
  refine ⟨?_, fun i cmd sequence result completed w => requestFinish_counts i cmd sequence result completed⟩
  have hkept := finishes_kept hm hc hrx hr hin
  refine Along.of_split fun as u e bs htr => ?_
  cases e with
  | returned call ret =>
    cases call with
    | request port cmd data size =>
      obtain ⟨r, rfl, hret⟩ := request_returned hc hr htr
      refine ⟨r, rfl, ?_⟩
      rcases hret with hinval | ⟨i, s, completed, b, ys, hended⟩
      · exact .inl hinval
      · obtain ⟨xs, rfl, -⟩ := hended.last
        refine .inr ⟨i, s, completed, b, ys, hended, ?_⟩
        rw [htr, ← List.cons_append, ← List.append_assoc] at hkept
        exact hkept.split (P := FinishKept)
    | _ => trivial
  | _ => trivial

/-! ## runs -/

/-- a device that acknowledges the request with the value 42 -/
def ackingMem : Mem := freshMem [.data (ackFrame 0 1 freshSession 5 42)] []

/-- the ACK arrives while the request waits -/
theorem completions_kept_run : ∃ c, exec (start ackingMem receiveAndRequest)
      (steps 46 true ++ steps 48 false ++ steps 13 true) = some c ∧
    c.trace.head? = some (true, .returned (.request 0 5 none 0) (.int 42)) ∧ Along CompletionKept c.trace := by
  obtain ⟨c, hrun⟩ := Option.isSome_iff_exists.mp (show (exec (start ackingMem receiveAndRequest)
    (steps 46 true ++ steps 48 false ++ steps 13 true)).isSome by decide +kernel)
  have hend : ∀ c ∈ exec (start ackingMem receiveAndRequest)
      (steps 46 true ++ steps 48 false ++ steps 13 true),
      c.trace.head? = some (true, .returned (.request 0 5 none 0) (.int 42)) ∧
      Along (ReadInTime freshSession) c.trace := by
    decide +kernel
  obtain ⟨hhead, hin⟩ := hend c hrun
  exact ⟨c, hrun, hhead, (completions_kept (freshMem_connected _ _) receiveAndRequest_noInit
    receiveAndRequest_one (exec_reach hrun) hin).1⟩

/-- both attempts time out, and the ACK is accepted between the last look at `pending` and the
final section -/
def lateAckRun : List (Choice Bool) :=
  steps 46 true ++ [.wake true ETIMEDOUT] ++ steps 42 true ++ [.wake true ETIMEDOUT] ++
    steps 4 true ++ steps 48 false ++ steps 9 true

theorem completions_lost : ∃ c, exec (start ackingMem receiveAndRequest) lateAckRun = some c ∧
    ¬ Along CompletionKept c.trace := by
  obtain ⟨c, hrun⟩ := Option.isSome_iff_exists.mp (show (exec (start ackingMem receiveAndRequest)
    lateAckRun).isSome by decide +kernel)
  have hend : ∀ c ∈ exec (start ackingMem receiveAndRequest) lateAckRun,
      c.trace.head? = some (true, .returned (.request 0 5 none 0) (.int (-ETIMEDOUT))) ∧
      c.trace.tail.head? = some (true, .finish 0 5 1 false .timedOut (-ETIMEDOUT)) ∧
      completionOf 0 5 c.trace.tail.tail = some 42 := by
    decide +kernel
  obtain ⟨hhead, hfinish, hcompletion⟩ := hend c hrun
  refine ⟨c, hrun, fun h => ?_⟩
  rw [← List.cons_head?_tail hhead] at h
  obtain ⟨r, hr, ⟨rfl, -⟩ | ⟨i, s, completed, b, ys, hended, hkept⟩⟩ := h.1
  · cases hr
  · cases hr
    -- its final section is the last that it has done
    obtain ⟨xs, hxs, hothers⟩ := hended.last
    rw [← List.cons_head?_tail hfinish] at hxs
    cases xs with
    | cons x xs =>
      obtain ⟨rfl, -⟩ := List.cons.inj hxs
      exact hothers _ List.mem_cons_self rfl
    | nil =>
      cases hxs
      exact (hkept 42 hcompletion).2 rfl

end RaspikeArt
