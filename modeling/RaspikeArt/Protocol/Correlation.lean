import RaspikeArt.Protocol.Sessions
import RaspikeArt.Model.Returns
import RaspikeArt.Devices.Answers

/-!
# Requests, part 7: requests and their ACKs

* `AckFrame`                 the v2 frame that a receiver is at work on is the ACK it accepts;
* `request_ack_correlation`  what a request returns through its ACK branch was accepted for it.
-/

set_option linter.unusedSectionVars false

namespace RaspikeArt
open Threads

variable {T : Type} [DecidableEq T] {d₀ : Nat} {s₀ : U32} {rx : T} {m : Mem} {i : Port}

/-- In the receive that `v` is in, a v2 frame has come in that is an ACK for the port and the
sequence number, of that session, with these two numbers. -/
def AckFrame (tr : Trace T) (v : T) (i : Port) (s session : U32) (ackCmd ackData : Int) : Prop :=
  ∃ bytes d as bs, tr = as ++ (v, .v2Frame bytes) :: bs ∧ (v, .receiverIn) ∉ as ∧
    decodeV2 bytes = some d ∧ d.cmd = rpCmdIdAck ∧ getDevice d.port = some i ∧ d.sequence = s ∧
    d.session = session ∧ getInt32 d.payload = ackCmd ∧ getInt32 (d.payload.drop 4) = ackData

/-- an accepted ACK comes out of a v2 frame: a legacy frame has no sequence number -/
theorem ackFrame_of_legal {tr : Trace T} {v : T} {s session : U32} {ackCmd ackData : Int}
    (h : (framing T).Legal (.start s₀) ((v, .ack i s session ackCmd ackData) :: tr)) (hs : s ≠ 0) :
    session = currentSession s₀ tr ∧ AckFrame tr v i s session ackCmd ackData := by
  obtain ⟨hsession, d, hd, hcmd, hport, hseq, hsess, -, hack, hdata⟩ := h.1
  obtain ⟨r, hr, hcarries⟩ := Frames.Sound.of_legal h.tail v d hd
  obtain ⟨as, bs, htr, hin⟩ := raw_in_history hr
  refine ⟨?_, ?_⟩
  · rw [currentSession_eq, ← session_eq]
    exact hsession
  · cases r with
    | v2 bytes =>
      exact ⟨bytes, d, as, bs, htr, hin, hcarries, hcmd, hport, hseq, hsess, hack.symm, hdata.symm⟩
    | legacy bytes => exact (hs (hseq.symm.trans hcarries.2.2)).elim

theorem taken_false {tr : Trace T} (h : ∀ x ∈ tr, x.2.kind ∈ connectedKinds) :
    (portsOf s₀ tr).taken = false := by
  induction tr with
  | nil => rfl
  | cons x tr ih =>
    obtain ⟨t, e⟩ := x
    have hold := ih fun y hy => h y (List.mem_cons_of_mem _ hy)
    have he : e.kind ∈ connectedKinds := h (t, e) List.mem_cons_self
    cases e with
    | takeDesc => exact (he.1 rfl).elim
    | _ => exact hold

/-- the call that ends with this entry was answered by an ACK of its own -/
def Answered (s₀ : U32) (tr : Trace T) (u : T) (i : Port) (cmd : Byte) (s : U32) (r : Int) : Prop :=
  ∃ x₁ v session x₂ ys,
    tr = x₁ ++ (v, .ack i s session cmd.toNat r) :: (x₂ ++ (u, .pend i cmd s) :: ys) ∧
    (∀ x ∈ x₁ ++ x₂, ¬ x.2.opens i ∧ ¬ x.2.completes i) ∧
    session = currentSession s₀ (x₂ ++ (u, .pend i cmd s) :: ys) ∧
    AckFrame (x₂ ++ (u, .pend i cmd s) :: ys) v i s session cmd.toNat r

theorem answered_of_legal {tr : Trace T} {u : T} {cmd : Byte} {s : U32} {completed : Bool} {r : Int}
    (h : (requests T).Legal (.start s₀) ((u, .finish i cmd s completed .acked r) :: tr))
    (hf : (framing T).Legal (.start s₀) tr) (htaken : (portsOf s₀ tr).taken = false) :
    Answered s₀ tr u i cmd s r := by
  obtain ⟨st, hst, rfl, rfl, rfl, -, hret⟩ := h.1
  rw [htaken] at hret
  obtain ⟨session, hdone⟩ := hret.acked
  obtain ⟨xs, ys, hstory⟩ := story h.tail hst
  have hin := hstory.done
  rw [hdone] at hin
  obtain ⟨x₁, v, x₂, hxs, h1, h2⟩ := hin
  have hsplit : tr = x₁ ++ (v, .ack i st.sequence session st.cmd.toNat r) ::
      (x₂ ++ (st.thread, .pend i st.cmd st.sequence) :: ys) := by
    rw [hstory.split, hxs, List.append_assoc, List.cons_append]
  have hopens := hstory.opens
  rw [hxs] at hopens
  rw [hsplit] at hf
  have hzero := ((Ports.Sound.of_legal h.tail).slot i st hst).sequence
  obtain ⟨hcurrent, hframe⟩ := ackFrame_of_legal hf.suffix hzero
  refine ⟨x₁, v, session, x₂, ys, hsplit, fun x hx => ?_, hcurrent, hframe⟩
  rcases List.mem_append.mp hx with hx | hx
  · exact ⟨hopens x (List.mem_append_left _ hx), h1 x hx⟩
  · exact ⟨hopens x (List.mem_append_right _ (List.mem_cons_of_mem _ hx)), h2 x hx⟩

/-- with the codes of `pthread_cond_timedwait`, no result but that of an ACK is not negative -/
theorem acked_of_nonneg {tr : Trace T} {u : T} {cmd : Byte} {s : U32} {completed : Bool} {b : Branch} {r : Int}
    (h : (requests T).Legal (.start s₀) ((u, .finish i cmd s completed b r) :: tr))
    (hanswers : (Event.finish i cmd s completed b r).answers) (hr : 0 ≤ r) : b = .acked := by
  have hanswer : b.isAnswer = true := Or.resolve_right hanswers (Int.not_lt.mpr hr)
  have hunanswered : ∀ r, b ≠ unanswered r := by
    rintro r rfl
    rw [unanswered] at hanswer
    split at hanswer <;> cases hanswer
  obtain ⟨st, hst, -, -, -, -, hret⟩ := h.1
  unfold Request.Returns at hret
  split at hret
  case h_1 r₀ _ => exact (hunanswered r₀ hret.2).elim
  case h_2 =>
  obtain ⟨comp, hcomp, hret⟩ := hret
  split at hret
  · rcases hret with hb | ⟨-, -, hb, -⟩
    · exact (hunanswered r hb).elim
    · exact hb
  cases comp with
  | acked session ackCmd ackData =>
    rcases hret with ⟨-, hb, -⟩ | ⟨-, hb⟩
    · exact hb
    · exact (hunanswered r hb).elim
  | cancelled session error =>
    obtain ⟨-, rfl⟩ := hret
    rcases ((Ports.Sound.of_legal h.tail).slot i st hst).error session r hcomp with rfl | rfl
    · cases hr
    · cases hr

/-- what a request returns has been decided by an ACK of its own, or is an error -/
theorem request_answered (hm : Connected d₀ m) {calls : T → List Call} (hc : NoInit calls)
    (hs : NoShutdown calls) (hrx : OneReceiver rx calls) {c : Sys T} (hr : Reach (start m calls) c)
    {as bs : Trace T} {u : T} {cmd : Byte} {s : U32} {completed : Bool} {b : Branch} {r : Int}
    (htr : c.trace = as ++ (u, .finish i cmd s completed b r) :: bs) :
    (Coded waitCode (start m calls) c → 0 ≤ r → b = .acked) ∧
    (b = .acked → Answered m.fgSessionId bs u i cmd s r) := by
  obtain ⟨hK, gs, hI, -⟩ := requests_refine hm hc hrx hr
  have hlegal := hI.legal
  have hframes := hK.frames
  have hlabels := connected_labels hc hs hr
  rw [htr] at hlegal hframes hlabels
  refine ⟨fun hcoded hpos => acked_of_nonneg hlegal.suffix ?_ hpos, ?_⟩
  · rcases (hcoded.labels (le_refl 0) fun t => client_coded (calls t)).2 (u, .finish i cmd s completed b r)
      (htr ▸ List.mem_append_right _ List.mem_cons_self) with h | h
    · cases h
    · exact h
  · rintro rfl
    refine answered_of_legal hlegal.suffix hframes.suffix.tail (taken_false fun x hx => ?_)
    exact hlabels x (List.mem_append_right _ (List.mem_cons_of_mem _ hx))

/-- **Correlation of requests and ACKs.**  A request that returns through its ACK branch, so every one that
returns no negative number, returns the data of a v2 ACK that was accepted while it was pending, and that
carried its port, its sequence number, its command and the session then current.  No other request has its
sequence number, and a port is pending only for the one request that is inside. -/
theorem request_ack_correlation (hm : Connected d₀ m) {calls : T → List Call} (hc : NoInit calls)
    (hs : NoShutdown calls) (hrx : OneReceiver rx calls) {c : Sys T}
    (hr : Reach (start m calls) c) :
    (∀ as u port cmd data size ret bs, c.trace = as ++ (u, .returned (.request port cmd data size) ret) :: bs →
      ∃ r, ret = .int r ∧ ((r = -EINVAL ∧ ∃ ys, Last u (.call (.request port cmd data size)) bs ys) ∨
        ∃ i s completed b ys, RequestEnded u port cmd i s completed b r bs ys ∧
          (Coded waitCode (start m calls) c → 0 ≤ r → b = .acked) ∧
          (b = .acked → Answered m.fgSessionId ys u i cmd s r))) ∧
    (draws c.trace ≤ sequencePeriod → (requested c.trace).Nodup) ∧
    ∀ i, (c.mem.gPortDevices i).pending = true → ∃ u s, openRequests i c.trace = [(u, s)] := by
  obtain ⟨hK, gs, hI, -⟩ := requests_refine hm hc hrx hr
  refine ⟨fun as u port cmd data size ret bs htr => ?_, requested_nodup hK.sequences, fun i hp => ?_⟩
  · obtain ⟨r, rfl, hret⟩ := request_returned hc hr htr
    refine ⟨r, rfl, ?_⟩
    rcases hret with hinval | ⟨i, s, completed, b, ys, hended⟩
    · exact .inl hinval
    · obtain ⟨xs, hbs, -⟩ := hended.last
      have hsplit : c.trace = (as ++ (u, .returned (.request port cmd data size) (.int r)) :: xs) ++
          (u, .finish i cmd s completed b r) :: ys := by
        rw [htr, hbs, List.append_assoc, List.cons_append]
      exact .inr ⟨i, s, completed, b, ys, hended, request_answered hm hc hs hrx hr hsplit⟩
  · obtain ⟨st, hst, -⟩ := (hI.slot i).pending_iff.mp hp
    refine ⟨st.thread, st.sequence, ?_⟩
    rw [openRequests_eq hI.legal, hst]
    rfl

/-- the ACK of a request, as it comes over the wire -/
def ackFrame (port : Byte) (s session ackCmd ackData : U32) : List Byte :=
  v2Frame port rpCmdIdAck 0 s session (rpV2PutU32 ackCmd ++ rpV2PutU32 ackData)

/-- a request is answered by its ACK, and returns its value -/
theorem request_ack_correlation_run : ∃ c tr,
    exec (start (freshMem [.data (ackFrame 0 1 freshSession 5 42)] []) receiveAndRequest)
      (steps 46 true ++ steps 48 false ++ steps 13 true) = some c ∧
    c.trace = (true, .returned (.request 0 5 none 0) (.int 42)) :: tr ∧
    (∃ i s completed ys, RequestEnded true 0 5 i s completed .acked 42 tr ys ∧ Answered freshSession ys true i 5 s 42) ∧
    (requested c.trace).Nodup := by
  obtain ⟨c, hrun⟩ := Option.isSome_iff_exists.mp (show (exec
    (start (freshMem [.data (ackFrame 0 1 freshSession 5 42)] []) receiveAndRequest)
    (steps 46 true ++ steps 48 false ++ steps 13 true)).isSome by decide +kernel)
  have hend : ∀ c ∈ exec (start (freshMem [.data (ackFrame 0 1 freshSession 5 42)] []) receiveAndRequest)
      (steps 46 true ++ steps 48 false ++ steps 13 true),
      c.trace.head? = some (true, .returned (.request 0 5 none 0) (.int 42)) ∧ draws c.trace ≤ sequencePeriod := by
    decide +kernel
  obtain ⟨hhead, hdraws⟩ := hend c hrun
  have hno : NoShutdown receiveAndRequest := by
    intro t
    cases t <;> simp [receiveAndRequest]
  have hcoded : Coded waitCode (start (freshMem [.data (ackFrame 0 1 freshSession 5 42)] []) receiveAndRequest) c := by
    apply exec_runs hrun
    simp only [List.mem_append]
    rintro ch ((h | h) | h) <;> exact steps_run ch h
  obtain ⟨hreturned, hnodup, -⟩ := request_ack_correlation (freshMem_connected _ _)
    receiveAndRequest_noInit hno receiveAndRequest_one (exec_reach hrun)
  have htr : c.trace = [] ++ (true, .returned (.request 0 5 none 0) (.int 42)) :: c.trace.tail :=
    (List.cons_head?_tail hhead).symm
  refine ⟨c, c.trace.tail, hrun, htr, ?_, hnodup hdraws⟩
  obtain ⟨r, hr, ⟨rfl, -⟩ | ⟨i, s, completed, b, ys, hended, hacked, hanswered⟩⟩ :=
    hreturned [] true 0 5 none 0 _ _ htr
  · cases hr
  · cases hr
    obtain rfl := hacked hcoded (by decide)
    exact ⟨i, s, completed, ys, hended, hanswered rfl⟩

end RaspikeArt
