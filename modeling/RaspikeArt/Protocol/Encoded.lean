import RaspikeArt.Model.Returns
import RaspikeArt.Protocol.Format
import RaspikeArt.Protocol.InFlight

/-!
# Requests, part 5: the frames as bytes

A `frame` label names the session that `send_v2_frame` reads; what goes out are the bytes that it hands
to `raspike_com_send` after it.

* `frameSession`     the session in the bytes of a v2 frame;
* `handed_encoded`   a v2 frame that a thread hands over encodes the `frame` label just before it;
* `handedSince`      the sessions in the frames that a thread has handed over for its request.
-/

set_option linter.unusedSectionVars false

namespace RaspikeArt
open Threads

/-- the session in the bytes of a v2 frame -/
def frameSession (bs : List Byte) : Option U32 :=
  if bs.getD 0 0 = rpV2Start then some (rpV2GetU32 (bs.drop 10)) else none

theorem frameSession_v2 (port cmd flags : Byte) (sequence session : U32) (payload : List Byte) :
    frameSession (v2Frame port cmd flags sequence session payload) = some session := by
  have hget : rpV2GetU32 ((v2Frame port cmd flags sequence session payload).drop 10) =
      rpV2GetU32 (rpV2PutU32 session) := rfl
  rw [frameSession, if_pos (show (v2Frame port cmd flags sequence session payload).getD 0 0 = rpV2Start from rfl), hget,
    rpV2GetU32_put]

theorem frameSession_legacy (port cmd : Byte) (payload : List Byte) :
    frameSession (legacyFrame port cmd payload) = none :=
  if_neg (show rpCmdStart ≠ rpV2Start by decide)

/-! ## what a thread hands over -/

/-- bytes with a session encode the frame that the thread has just marked -/
def encodedPromise (g : List (Event × Unit)) (e : Event) (_ : Unit) : Prop :=
  ∀ d bs s, e = .io d (.send bs) → frameSession bs = some s →
    ∃ port cmd q v g', g = (.frame port cmd q s, v) :: g'

/-- the label of a `raspike_com_send` -/
def Event.isSend : Event → Bool
  | .io _ (.send _) => true
  | _ => false

/-- no access hands anything over -/
def Handless (e : Mem → Option Event) (_ : Mem → Mem) : Prop := ∀ m x, e m = some x → x.isSend = false

section
variable {α : Type} {R : Mem → Prop} {g : List (Event × Unit)}

theorem encoded_of_not {e : Event} (h : e.isSend = false) (v : Unit) : encodedPromise g e v := by
  rintro d bs s rfl
  cases h

theorem handless_encoded {p : P α} (hp : p.All Handless fun _ => True) :
    along (reading (fun _ => ()) R encodedPromise) p (fun _ _ => True) g := by
  apply along_all (𝓛 := reading (fun _ => ()) R encodedPromise) (P := fun _ => True) ?_ ?_ hp Prog.Wakes.trivial
    Prog.Yields.trivial trivial fun _ _ _ h => h
  · intro e f g m hacc _ _
    show (reading (fun _ => ()) R encodedPromise).A g (.act m (e m) (f m)) ∧ True
    cases hx : e m with
    | none => exact ⟨trivial, trivial⟩
    | some x => exact ⟨encoded_of_not (hacc m x hx) (), trivial⟩
  · exact fun _ _ _ _ => ⟨trivial, trivial⟩

/-- the kinds of everything but output -/
def dryKinds : Set Kind := {k | ∀ d, k ≠ .io d}

theorem Does.handless {p : P α} (hp : Does dryKinds Set.univ p) : p.All Handless fun _ => True := by
  apply Prog.All.mono _ (fun _ _ => trivial) hp
  intro e f hacc m x hx
  obtain ⟨k, hk, hstep⟩ := hacc m
  cases x with
  | io d io =>
    cases io with
    | send => exact (hk d (hstep.label _ hx).symm).elim
    | _ => rfl
  | _ => rfl

theorem dry_encoded {p : P α} (hp : Does dryKinds Set.univ p) :
    along (reading (fun _ => ()) R encodedPromise) p (fun _ _ => True) g :=
  handless_encoded hp.handless

theorem dry_mem {k : Kind} (h : ∀ d, k ≠ .io d) : k ∈ dryKinds := h

theorem dry_quiet : Kind.quiet ∈ dryKinds := by simp [dryKinds]

/-! ### the com layer -/

theorem writeAllFd_handless (d : Nat) (buf : List Byte) : (writeAllFd d buf).All Handless fun _ => True := by
  refine ⟨fun rest => ?_, fun _ => trivial⟩
  dsimp only
  split
  · exact trivial
  refine Prog.All.bind (clockLate_all dry_quiet d .tx).handless fun late => ?_
  split
  · exact trivial
  refine Prog.All.bind (waitFd_all dry_quiet d .tx).handless fun ready => ?_
  split
  · exact trivial
  refine Prog.All.bind ⟨fun m x hx => ?_, fun _ => trivial⟩ fun r => ?_
  · revert hx
    dsimp only
    split <;> rintro ⟨⟩
    all_goals rfl
  · split <;> first
      | trivial
      | (split <;> trivial)

theorem rpUsbSend_handless (d : Nat) (buf : List Byte) : (rpUsbSend d buf).All Handless fun _ => True := by
  have hall : ∀ l, l ∈ (Set.univ : Set Mutex) := Set.mem_univ
  refine Prog.All.bind (Does.lock (hall _)).handless fun _ => ?_
  refine Prog.All.bind (Does.load dry_quiet).handless fun mode => ?_
  refine Prog.All.bind (Does.unlock (hall _)).handless fun _ => ?_
  split
  · unfold bufferedWrite
    split
    · exact trivial
    refine Prog.All.bind (Does.lock (hall _)).handless fun _ => ?_
    refine Prog.All.bind (Does.load dry_quiet).handless fun size => ?_
    split
    · exact Prog.All.bind (Does.unlock (hall _)).handless fun _ => trivial
    refine Prog.All.bind ⟨?_, fun _ => trivial⟩ fun _ => Prog.All.bind (Does.unlock (hall _)).handless fun _ => trivial
    rintro m x ⟨⟩
    rfl
  · refine Prog.All.bind (getUsbFd_all dry_quiet d).handless fun fd => ?_
    split
    · exact trivial
    · exact writeAllFd_handless d buf

theorem raspikeComFlush_handless (desc : Option Nat) : (raspikeComFlush desc).All Handless fun _ => True := by
  have hall : ∀ l, l ∈ (Set.univ : Set Mutex) := Set.mem_univ
  cases desc with
  | none => exact trivial
  | some d =>
    refine Prog.All.bind ⟨?_, fun _ => trivial⟩ fun _ => ?_
    · rintro m x ⟨⟩
      rfl
    refine Prog.All.bind (Does.lock (hall _)).handless fun _ => Prog.All.bind ?_ fun ret =>
      Prog.All.bind (Does.unlock (hall _)).handless fun _ => trivial
    refine Prog.All.bind (Does.load dry_quiet).handless fun buf => ?_
    split
    · exact trivial
    refine Prog.All.bind (getUsbFd_all dry_quiet d).handless fun fd => ?_
    split
    · exact trivial
    refine Prog.All.bind (writeAllFd_handless d buf) fun ret => ?_
    split
    · exact trivial
    refine Prog.All.bind ⟨?_, fun _ => trivial⟩ fun _ => trivial
    rintro m x ⟨⟩
    rfl

/-- a send of bytes that are as the ghost says -/
theorem raspikeComSend_encoded (desc : Option Nat) {bs : List Byte}
    (h : ∀ s, frameSession bs = some s → ∃ port cmd q v g', g = (.frame port cmd q s, v) :: g') :
    along (reading (fun _ => ()) R encodedPromise) (raspikeComSend desc bs) (fun _ _ => True) g := by
  cases desc with
  | none => exact trivial
  | some d =>
    apply along_bind
    apply along_act
    intro m _
    refine ⟨?_, handless_encoded (rpUsbSend_handless d bs)⟩
    show encodedPromise g (.io d (.send bs)) ()
    rintro _ _ s ⟨⟩ hs
    exact h s hs

/-! ### frames -/

theorem sendV2Frame_encoded (port cmd : Byte) (payload : Buf) (size : Int) (sequence : U32) (flags : Byte) :
    along (reading (fun _ => ()) R encodedPromise) (sendV2Frame port cmd payload size sequence flags)
      (fun _ _ => True) g := by
  unfold sendV2Frame
  split
  · exact trivial
  apply along_bind
  apply along_act
  intro m _
  refine ⟨encoded_of_not rfl (), ?_⟩
  -- the session of the frame is the one of the label
  apply along_bind
  apply along_act
  intro m' _
  refine ⟨trivial, raspikeComSend_encoded m'.fgDesc fun s hs => ?_⟩
  rw [frameSession_v2] at hs
  cases hs
  exact ⟨port, cmd, sequence, (), g, rfl⟩

theorem sendLegacyFrame_encoded (port cmd : Byte) (payload : Buf) (size : Int) :
    along (reading (fun _ => ()) R encodedPromise) (sendLegacyFrame port cmd payload size) (fun _ _ => True) g := by
  unfold sendLegacyFrame
  split
  · exact trivial
  apply along_bind
  apply along_act
  intro m _
  refine ⟨trivial, raspikeComSend_encoded m.fgDesc fun s hs => ?_⟩
  rw [frameSession_legacy] at hs
  cases hs

/-- the programs that keep the promise, whatever the thread has done before -/
theorem encoded_passes : Passes (fun _ p => ∀ g, along (reading (fun _ => ()) R encodedPromise) p (fun _ _ => True) g)
    dryKinds Set.univ where
  pure _ := fun _ => trivial
  bind hp hq := fun g => along_seq (hp g) fun a g' _ => hq a g'
  does hp := fun _ => dry_encoded hp

theorem sendFrame_encoded (port cmd : Byte) (payload : Buf) (size : Int) (sequence : U32) (flags : Byte)
    (flushNow : Bool) (g : List (Event × Unit)) :
    along (reading (fun _ => ()) R encodedPromise) (sendFrame port cmd payload size sequence flags flushNow)
      (fun _ _ => True) g := by
  have hF := encoded_passes (R := R)
  have hall : ∀ l, l ∈ (Set.univ : Set Mutex) := Set.mem_univ
  have hq := dry_quiet
  have hmark : ∀ e : Event, e.kind = .send → Does dryKinds Set.univ (tick e) := by
    intro e he
    refine Does.tick (k := .send) (dry_mem (by simp)) he (fun _ => rfl) fun d => ?_
    cases e <;> first
      | rfl
      | cases he
  revert g
  refine hF.bind (hF.does (hmark _ rfl)) fun _ => hF.bind (hF.does (Does.lock (hall _))) fun _ => ?_
  refine hF.bind (hF.does (hmark _ rfl)) fun _ => hF.bind (hF.does (Does.orElse (Does.load hq) (Does.load hq))) fun down => ?_
  split
  · exact hF.bind (hF.does (Does.unlock (hall _))) fun _ => hF.bind (hF.does (hmark _ rfl)) fun _ => hF.pure _
  refine hF.bind (hF.bind (hF.does (Does.load hq)) fun v2 => hF.bind ?_ fun ret => ?_) fun ret => ?_
  · split
    · exact fun g => sendV2Frame_encoded ..
    · exact fun g => sendLegacyFrame_encoded ..
  · split
    · refine hF.bind (hF.does (Does.load hq)) fun desc => ?_
      exact hF.bind (fun _ => handless_encoded (raspikeComFlush_handless desc)) fun _ => hF.pure _
    · exact hF.pure _
  refine hF.bind (hF.does (Does.unlock (hall _))) fun _ => ?_
  refine hF.bind (p := if ret ≥ 0 then statsIncrement .txFrames else pure ()) (hF.does ?_) fun _ =>
    hF.bind (hF.does (hmark _ rfl)) fun _ => hF.pure _
  split
  · exact statsIncrement_all hq (hall _) _
  · exact Does.pure _

theorem requestAttempts_encoded (i : Port) (port cmd : Byte) (data : Buf) (size : Int) (sequence : U32) (n : Nat)
    (result : Int) (g : List (Event × Unit)) :
    along (reading (fun _ => ()) R encodedPromise) (requestAttempts i port cmd data size sequence n result)
      (fun _ _ => True) g := by
  have hF := encoded_passes (R := R)
  have hall : ∀ l, l ∈ (Set.univ : Set Mutex) := Set.mem_univ
  have hgave : Kind.gaveUp ∈ dryKinds := dry_mem (by simp)
  revert g
  induction n generalizing result with
  | zero => exact hF.pure _
  | succ n ih =>
    refine hF.bind (hF.does (Does.lock (hall _))) fun _ => hF.bind (hF.does (Does.load dry_quiet)) fun still => ?_
    refine hF.bind (hF.does (Does.unlock (hall _))) fun _ => ?_
    split
    · exact hF.pure _
    refine hF.bind (fun g => sendFrame_encoded port cmd data size sequence _ _ g) fun sent => ?_
    split
    · exact hF.bind (hF.does (Does.tick hgave rfl (fun _ => rfl) fun _ => rfl)) fun _ => hF.pure _
    refine hF.bind (hF.does (requestWait_all dry_quiet hgave (hall _) _ _ _)) fun waited => ?_
    split
    · exact hF.pure _
    refine hF.bind (p := if n ≠ 0 then statsIncrement .requestRetries else pure ()) (hF.does ?_) fun _ => ih _
    split
    · exact statsIncrement_all dry_quiet (hall _) _
    · exact Does.pure _

theorem raspikeRequest_encoded (port cmd : Byte) (data : Buf) (size : Int) (g : List (Event × Unit)) :
    along (reading (fun _ => ()) R encodedPromise) (raspikeRequest port cmd data size) (fun _ _ => True) g := by
  have hF := encoded_passes (R := R)
  have hall : ∀ l, l ∈ (Set.univ : Set Mutex) := Set.mem_univ
  have hk : ∀ {k : Kind}, (∀ d, k ≠ .io d) → k ∈ dryKinds := dry_mem
  revert g
  unfold raspikeRequest
  split
  · exact hF.pure _
  split
  · exact hF.pure _
  refine hF.bind (hF.does (Does.lock (hall _))) fun _ => hF.bind (hF.does ?_) fun sequence => ?_
  · exact requestBegin_all dry_quiet (hk (by simp)) (hk (by simp)) (hall _) (hall _) cmd
  refine hF.bind (hF.does (Does.load dry_quiet)) fun v2 => ?_
  refine hF.bind (fun g => requestAttempts_encoded _ _ _ _ _ _ _ _ g) fun waited => hF.does ?_
  exact requestFinish_all dry_quiet (hk (by simp)) (hall _) (hall _) (hall _) _ _ _ _

end

/-! ## runs -/

theorem body_encoded {R : Mem → Prop} {c : Call} (hinit : ∀ desc, c ≠ .init desc) (g : List (Event × Unit)) :
    along (reading (fun _ => ()) R encodedPromise) c.body (fun _ _ => True) g := by
  have hF := encoded_passes (R := R)
  have hk : ∀ {k : Kind}, (∀ d, k ≠ .io d) → k ∈ dryKinds := dry_mem
  have hall : ∀ l, l ∈ (Set.univ : Set Mutex) := Set.mem_univ
  revert g
  have hsend : ∀ port cmd buf size flags flushNow, ∀ g, along (reading (fun _ => ()) R encodedPromise) (do
      let sequence ← nextSequence
      sendFrame port cmd buf size sequence flags flushNow) (fun _ _ => True) g := fun port cmd buf size flags flushNow =>
    hF.bind (hF.does (nextSequence_all dry_quiet (hk (by simp)) (hall _))) fun sequence g =>
      sendFrame_encoded port cmd buf size sequence flags flushNow g
  have hclient : c.isClient → ∀ g, along (reading (fun _ => ()) R encodedPromise) c.body (fun _ _ => True) g := by
    apply body_passes (hF.mono _ (Set.subset_univ _))
    · exact fun port cmd buf size => hsend port cmd buf size 0 false
    · exact fun port cmd buf size => hsend port cmd buf size rpV2FlagHighPriority true
    · exact raspikeRequest_encoded
    · rintro k (rfl | rfl | rfl | rfl) <;> exact hk (by simp)
  cases c with
  | init desc => exact (hinit desc rfl).elim
  | shutdown =>
    refine hF.bind ?_ fun _ => hF.pure _
    apply raspikeProtShutdown_around hF
    · rintro k (rfl | rfl | rfl | rfl) <;> exact hk (by simp)
    · exact Set.subset_univ _
    · exact hF.does (resetPortState_all dry_quiet (hk (by simp)) (fun _ => hall _) _ true (fun _ => hk (by simp))
        fun _ _ => hall _)
    · exact fun d _ => handless_encoded (raspikeComFlush_handless (some d))
    · exact hF.does (setUseV2_all (hk (by simp)) _)
    · exact hF.does (setSession_all (hk (by simp)) _)
  | receive =>
    refine hF.bind (hF.does ?_) fun _ => hF.pure _
    apply raspikeProtReceive_all _ (Set.subset_univ _) (fun _ => hk (by simp)) (hk (by simp)) (hall _)
    rintro k (rfl | rfl | rfl | rfl | rfl | rfl | rfl | rfl) <;> exact hk (by simp)
  | _ => exact hclient rfl

variable {T : Type} [DecidableEq T] {calls : T → List Call} {m : Mem} {c : Sys T}

/-- bytes with a session that a thread hands over encode the frame that it has marked last -/
theorem handed_encoded (hinit : NoInit calls) (hr : Reach (start m calls) c) {as ys : Trace T} {u : T} {d : Nat}
    {bs : List Byte} {s : U32} (htr : c.trace = as ++ (u, .io d (.send bs)) :: ys) (hs : frameSession bs = some s) :
    ∃ port cmd q zs, Last u (.frame port cmd q s) ys zs := by
  have hclient : along (reading (fun _ => ()) (fun _ => True) encodedPromise) (client (calls u)) (fun _ _ => True) [] := by
    apply client_reading
    · exact fun c' _ g v => encoded_of_not rfl v
    · intro c' hc' g v
      apply along_mono _ (body_encoded (hinit u c' hc') _)
      exact fun r g' _ v' => encoded_of_not rfl v'
  obtain ⟨port, cmd, q, v, g', hg⟩ := hr.reads (fun _ => ()) rfl (fun _ _ => ⟨trivial, rfl⟩) hclient htr d bs s rfl hs
  obtain ⟨as', zs, hsplit, hother, -, -⟩ := ownReads_eq_cons hg
  exact ⟨port, cmd, q, zs, as', hsplit, hother⟩

/-- the sessions in the frames that a thread has handed to `raspike_com_send` since a request was last made
pending on the port, newest first -/
def handedSince (i : Port) (u : T) : Trace T → List U32
  | [] => []
  | (t, e) :: tr =>
    match e with
    | .pend j _ _ => if j = i then [] else handedSince i u tr
    | .io _ (.send bs) => if t = u then (frameSession bs).toList ++ handedSince i u tr else handedSince i u tr
    | _ => handedSince i u tr

/-- where a session comes from -/
theorem mem_handedSince {i : Port} {u : T} {s : U32} {tr : Trace T} (h : s ∈ handedSince i u tr) :
    ∃ as d bs ys, tr = as ++ (u, .io d (.send bs)) :: ys ∧ frameSession bs = some s ∧
      ∀ x ∈ as, ∀ cmd q, x.2 ≠ .pend i cmd q := by
  induction tr with
  | nil => cases h
  | cons x tr ih =>
    obtain ⟨t, e⟩ := x
    have hrest : s ∈ handedSince i u tr → (∀ cmd q, e ≠ .pend i cmd q) →
        ∃ as d bs ys, (t, e) :: tr = as ++ (u, .io d (.send bs)) :: ys ∧ frameSession bs = some s ∧
          ∀ x ∈ as, ∀ cmd q, x.2 ≠ .pend i cmd q := by
      intro hmem he
      obtain ⟨as, d, bs, ys, rfl, hs, has⟩ := ih hmem
      exact ⟨(t, e) :: as, d, bs, ys, rfl, hs, List.forall_mem_cons.mpr ⟨he, has⟩⟩
    cases e with
    | pend j cmd q =>
      simp only [handedSince] at h
      split at h
      · cases h
      case isFalse hj => exact hrest h fun cmd' q' heq => hj (Event.pend.inj heq).1
    | io d io =>
      cases io with
      | send bs =>
        simp only [handedSince] at h
        split at h
        case isFalse => exact hrest h (by simp)
        case isTrue ht =>
        subst ht
        rcases List.mem_append.mp h with h | h
        · exact ⟨[], d, bs, tr, rfl, Option.mem_toList.mp h, by simp⟩
        · exact hrest h (by simp)
      | _ => exact hrest h (by simp)
    | _ => exact hrest h (by simp)

end RaspikeArt
