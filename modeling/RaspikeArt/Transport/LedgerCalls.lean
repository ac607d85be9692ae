import RaspikeArt.Transport.LedgerSpecs
import RaspikeArt.Model.Passes

/-!
# Transport, part 7: every call keeps the ledger

* `Still`  a program that leaves the send buffer alone and moves no byte;
* `Keeps`  a program that keeps the promise;
* `sendFrame_keeps` .. `Op.run_keeps`  the functions above the com layer.
-/

set_option linter.unusedSectionVars false

namespace RaspikeArt
open Threads

/-! ## what does not touch the ledger -/

/-- the kinds of the accesses that the ledger passes over -/
def passiveKinds : Set Kind
  | .io _ | .send => False
  | _ => True

theorem Ledger.next_passive {e : Event} (he : e.kind ∈ passiveKinds) (a : Ledger) : a.next e = a := by
  cases e with
  | io d k =>
    cases k with
    | receive => rfl
    | send | flush => exact he.elim
  | wrote | queued | emptied | sendBegin | sendEnd => exact he.elim
  | _ => rfl

theorem Promise.ok_passive {e : Event} (he : e.kind ∈ passiveKinds) (pr : Promise) (a : Ledger) :
    pr.Ok a e := by
  cases e with
  | wrote => exact he.elim
  | _ => trivial

/-- the accesses of the program leave the send buffer as it is, with labels that are passed over -/
def Still {α : Type} (p : P α) : Prop :=
  p.All (fun e f => ∀ m, (∀ x, e m = some x → x.kind ∈ passiveKinds) ∧
    (f m).com.fgSendBuffer = m.com.fgSendBuffer) fun _ => True

namespace Still

variable {α β : Type}

theorem of_does {p : P α} (hp : Does passiveKinds Set.univ p) : Still p := by
  refine Prog.All.mono (fun e f h m => ?_) (fun _ _ => trivial) hp
  obtain ⟨k, hk, hstep⟩ := h m
  have hio : ∀ d, k ≠ .io d := by
    rintro d rfl
    exact hk
  refine ⟨fun x hx => ?_, hstep.touches.rest.sendBuffer hio⟩
  rw [hstep.label x hx]
  exact hk

theorem bind {p : P α} {q : α → P β} (hp : Still p) (hq : ∀ a, Still (q a)) : Still (p >>= q) :=
  Prog.All.bind hp hq

theorem pure (a : α) : Still (Pure.pure a : P α) := trivial

theorem load {f : Mem → α} : Still (load f : P α) := ⟨fun _ => ⟨nofun, rfl⟩, fun _ => trivial⟩

theorem lock {l : Mutex} : Still (lock l : P Unit) := ⟨trivial, trivial⟩
theorem unlock {l : Mutex} : Still (unlock l : P Unit) := ⟨trivial, trivial⟩

theorem modify {f : Mem → Mem} (h : ∀ m, (f m).com.fgSendBuffer = m.com.fgSendBuffer) :
    Still (modify f : P Unit) :=
  ⟨fun m => ⟨nofun, h m⟩, fun _ => trivial⟩

theorem tick {e : Event} (h : e.kind ∈ passiveKinds) : Still (tick e : P Unit) := by
  refine ⟨fun m => ⟨fun x hx => ?_, rfl⟩, fun _ => trivial⟩
  cases hx
  exact h

end Still

/-- from a world in which the promise is kept, `p` keeps it -/
def Keeps {α : Type} (pr : Promise) (b₀ : List Byte) (p : P α) : Prop :=
  ∀ w, Kept pr b₀ w → Alone (pr.Cond b₀) (Kept pr b₀) p (fun _ => Kept pr b₀) w

section
variable {pr : Promise} {b₀ : List Byte} {α β : Type}

/-- a program that does not touch the ledger, from a world of which something is known -/
theorem Still.alone {p : P α} (hp : Still p) {w : Solo} (hw : Kept pr b₀ w)
    {Q : α → Solo → Prop}
    (hQ : ∀ a w', Kept pr b₀ w' → ledger b₀ w'.trace = ledger b₀ w.trace → Q a w') :
    Alone (pr.Cond b₀) (Kept pr b₀) p Q w := by
  refine alone_all (R := fun w' => Kept pr b₀ w' ∧ ledger b₀ w'.trace = ledger b₀ w.trace) ?_ ?_ ?_ hp
    ⟨hw, rfl⟩ fun a w' h => hQ a w' h.1 h.2
  · intro e f w' hact hR _ _
    obtain ⟨hkept, hledger⟩ := hR
    obtain ⟨hlabel, hbuf⟩ := hact w'.mem
    cases he : e w'.mem with
    | none =>
      have hk : Kept pr b₀ { w' with mem := f w'.mem, trace := w'.trace } := hkept.same rfl hbuf
      exact ⟨hk, hk, hledger⟩
    | some x =>
      have hx := hlabel x he
      have hnext := Ledger.next_passive hx (ledger b₀ w'.trace)
      have hk : Kept pr b₀ { w' with mem := f w'.mem, trace := ((), x) :: w'.trace } := by
        refine hkept.label rfl (Promise.ok_passive hx _ _) ?_
        rw [hnext, show Solo.buffer { w' with mem := f w'.mem, trace := ((), x) :: w'.trace } =
          Solo.buffer w' from hbuf]
        exact hkept.sound
      exact ⟨hk, hk, hnext.trans hledger⟩
  · exact fun l w' _ _ hR _ => ⟨hR.1.same rfl rfl, hR.1.same rfl rfl, hR.2⟩
  · exact fun l w' _ hR _ => ⟨hR.1.same rfl rfl, hR.1.same rfl rfl, hR.2⟩

theorem Still.keeps {p : P α} (hp : Still p) : Keeps pr b₀ p :=
  fun _ hw => hp.alone hw fun _ _ h _ => h

theorem Keeps.bind {p : P α} {q : α → P β} (hp : Keeps pr b₀ p) (hq : ∀ a, Keeps pr b₀ (q a)) :
    Keeps pr b₀ (p >>= q) :=
  fun w hw => alone_seq _ (hp w hw) fun a w' h => hq a w' h

theorem Keeps.pure (a : α) : Keeps pr b₀ (Pure.pure a : P α) := fun _ hw => alone_pure hw

end

/-! ## `send_frame` -/

section
variable {pr : Promise} {b₀ : List Byte} {w : Solo}

theorem sendLegacyFrame_kept (hw : Kept pr b₀ w) (port cmd : Byte) (payload : Buf) (size : Int) :
    Alone (pr.Cond b₀) (Kept pr b₀) (sendLegacyFrame port cmd payload size) (SentAfter pr b₀ w) w := by
  unfold sendLegacyFrame
  split
  · exact alone_pure (.refl hw _)
  · exact alone_bind (alone_load fun _ _ => raspikeComSend_kept hw _ _)

theorem sendV2Frame_kept (hw : Kept pr b₀ w) (port cmd : Byte) (payload : Buf) (size : Int)
    (sequence : U32) (flags : Byte) :
    Alone (pr.Cond b₀) (Kept pr b₀) (sendV2Frame port cmd payload size sequence flags) (SentAfter pr b₀ w) w := by
  unfold sendV2Frame
  split
  · exact alone_pure (.refl hw _)
  have hframe : Kept pr b₀ { w with
      trace := ((), .frame port cmd sequence w.mem.fgSessionId) :: w.trace } :=
    hw.label rfl trivial hw.sound
  refine alone_bind (alone_eval rfl rfl fun _ _ => ⟨hframe, alone_bind (alone_load fun _ _ => ?_)⟩)
  refine alone_mono (fun r w' hs => ?_) (raspikeComSend_kept hframe _ _)
  exact ⟨hs.kept, hs.clear, hs.desc⟩

/-- `send_frame` past its gate -/
theorem sendFrameLocked_kept (hw : Kept pr b₀ w) (hclear : (ledger b₀ w.trace).Clear pr)
    (hdesc : w.mem.fgDesc ≠ none) (port cmd : Byte) (payload : Buf) (size : Int) (sequence : U32)
    (flags : Byte) (flushNow : Bool) :
    Alone (pr.Cond b₀) (Kept pr b₀) (sendFrameLocked port cmd payload size sequence flags flushNow)
      (KeptAfter pr b₀) w := by
  refine alone_bind (alone_load fun _ _ => ?_)
  refine alone_seq (SentAfter pr b₀ w) ?_ fun ret w' hsent => ?_
  · split
    · exact sendV2Frame_kept hw port cmd payload size sequence flags
    · exact sendLegacyFrame_kept hw port cmd payload size
  split
  case isFalse => exact alone_pure ⟨hsent.kept, hsent.clear hclear⟩
  case isTrue hret =>
  rw [Bool.and_eq_true, decide_eq_true_iff] at hret
  have hdesc' : w'.mem.fgDesc ≠ none := by rwa [hsent.desc]
  refine alone_bind (alone_load fun _ _ => ?_)
  refine alone_seq _ (raspikeComFlush_kept hsent.kept _ fun h => (hdesc' h).elim) fun r w'' hr => ?_
  refine alone_pure ?_
  split
  · exact hr
  · exact ⟨hr.1, fun h => absurd hret.1 (Int.not_le.mpr h)⟩

theorem quiet_passive : Kind.quiet ∈ passiveKinds := trivial

theorem statsIncrement_still (s : Stat) : Still (statsIncrement s) :=
  Still.of_does (statsIncrement_all quiet_passive (Set.mem_univ _) s)

theorem sendFrame_keeps (port cmd : Byte) (payload : Buf) (size : Int) (sequence : U32)
    (flags : Byte) (flushNow : Bool) :
    Keeps pr b₀ (sendFrame port cmd payload size sequence flags flushNow) := by
  intro w hw
  have hbegin : Kept pr b₀ { w with trace := ((), .sendBegin) :: w.trace } :=
    hw.label rfl trivial hw.sound.sendBegin
  have hclear := hw.sound.clear_sendBegin
  -- the end of the call, with the result `r`
  have hend : ∀ (r : Int) {w' : Solo}, KeptAfter pr b₀ r w' →
      Kept pr b₀ { w' with trace := ((), .sendEnd r) :: w'.trace } := fun r w' h =>
    h.1.label rfl trivial (h.1.sound.sendEnd h.2)
  refine alone_bind (alone_tick fun _ _ => ⟨hbegin, ?_⟩)
  have hlocked : ∀ own, Kept pr b₀ { w with own := own, trace := ((), .sendBegin) :: w.trace } :=
    fun own => hbegin.same rfl rfl
  refine alone_bind (alone_lock fun _ _ => ⟨hlocked _, ?_⟩)
  have hgate : ∀ own, Kept pr b₀ { w with
      own := own, trace := ((), .sendLocked) :: ((), .sendBegin) :: w.trace } :=
    fun own => (hlocked own).label rfl trivial (hlocked own).sound
  refine alone_bind (alone_tick fun _ _ => ⟨hgate _, ?_⟩)
  refine alone_seq (fun down w' => w' = { w with
    own := Function.update w.own .fgSend (some ())
    trace := ((), .sendLocked) :: ((), .sendBegin) :: w.trace } ∧
      (down = false → w.mem.fgDesc ≠ none)) ?_ ?_
  · refine alone_bind (alone_load fun _ _ => ?_)
    split
    case isTrue => exact alone_pure ⟨rfl, by simp⟩
    case isFalse hsome =>
      exact alone_load fun _ _ => ⟨rfl, fun _ hnone => hsome (show w.mem.fgDesc.isNone = true by rw [hnone]; rfl)⟩
  rintro down w' ⟨rfl, hdesc⟩
  split
  · have hafter : ∀ own, KeptAfter pr b₀ (-ENOTCONN) { w with
        own := own, trace := ((), .sendLocked) :: ((), .sendBegin) :: w.trace } :=
      fun own => ⟨hgate own, fun _ => hclear⟩
    refine alone_bind (alone_unlock fun _ => ⟨hgate _, ?_⟩)
    exact alone_bind (alone_tick fun _ _ => ⟨hend _ (hafter _), alone_pure (hend _ (hafter _))⟩)
  case isFalse hdown =>
  refine alone_seq _ (sendFrameLocked_kept (hgate _) hclear (hdesc (by simpa using hdown))
    port cmd payload size sequence flags flushNow) fun ret w' hret => ?_
  refine alone_bind (alone_unlock fun _ => ⟨(hret.own _).1, ?_⟩)
  refine alone_seq (fun _ => KeptAfter pr b₀ ret) ?_ fun _ w'' hret' => ?_
  · split
    · refine (statsIncrement_still _).alone (hret.own _).1 fun _ w'' hw'' hledger => ⟨hw'', ?_⟩
      rw [hledger]
      exact hret.2
    · exact alone_pure (hret.own _)
  · exact alone_bind (alone_tick fun _ _ => ⟨hend _ hret', alone_pure (hend _ hret')⟩)

/-! ## the API -/

theorem nextSequence_still : Still nextSequence :=
  Still.of_does (nextSequence_all quiet_passive trivial (Set.mem_univ _))

theorem raspikeProtSend_keeps (port cmdid : Byte) (buf : Buf) (size : Int) :
    Keeps pr b₀ (raspikeProtSend port cmdid buf size) :=
  nextSequence_still.keeps.bind fun _ => sendFrame_keeps _ _ _ _ _ _ _

theorem raspikeProtSendPriority_keeps (port cmdid : Byte) (buf : Buf) (size : Int) :
    Keeps pr b₀ (raspikeProtSendPriority port cmdid buf size) :=
  nextSequence_still.keeps.bind fun _ => sendFrame_keeps _ _ _ _ _ _ _

theorem requestAttempts_keeps (i : Port) (port cmd : Byte) (data : Buf) (size : Int)
    (sequence : U32) (n : Nat) (result : Int) :
    Keeps pr b₀ (requestAttempts i port cmd data size sequence n result) := by
  induction n generalizing result with
  | zero => exact .pure _
  | succ n ih =>
    refine Still.lock.keeps.bind fun _ => Still.load.keeps.bind fun stillPending => ?_
    refine Still.unlock.keeps.bind fun _ => ?_
    split
    · exact .pure _
    refine (sendFrame_keeps _ _ _ _ _ _ _).bind fun sent => ?_
    split
    · exact (Still.tick (e := .gaveUp i sequence sent) trivial).keeps.bind fun _ => .pure _
    have hwait : Still (requestWait i sequence (n = 0) result) :=
      Still.of_does (requestWait_all quiet_passive trivial (Set.mem_univ _) _ _ _)
    refine hwait.keeps.bind fun waited => ?_
    split
    · exact .pure _
    refine Keeps.bind ?_ fun _ => ih _
    split
    · exact (statsIncrement_still _).keeps
    · exact .pure _

theorem raspikeRequest_keeps (port cmd : Byte) (data : Buf) (size : Int) :
    Keeps pr b₀ (raspikeRequest port cmd data size) := by
  unfold raspikeRequest
  split
  · exact .pure _
  split
  · exact .pure _
  case h_2 i _ =>
    have hbegin : Still (requestBegin i cmd) := Still.of_does
      (requestBegin_all quiet_passive trivial trivial (Set.mem_univ _) (Set.mem_univ _) cmd)
    refine Still.lock.keeps.bind fun _ => hbegin.keeps.bind fun sequence => ?_
    refine Still.load.keeps.bind fun v2 => (requestAttempts_keeps _ _ _ _ _ _ _ _).bind fun waited => ?_
    exact (Still.of_does (requestFinish_all quiet_passive trivial (Set.mem_univ _) (Set.mem_univ _)
      (Set.mem_univ _) _ _ _ _)).keeps

theorem keeps_passes : Passes (fun _ p => Keeps pr b₀ p) passiveKinds Set.univ where
  pure := Keeps.pure
  bind := Keeps.bind
  does hp := (Still.of_does hp).keeps

theorem raspikeComFlush_keeps (desc : Option Nat) : Keeps pr b₀ (raspikeComFlush desc) := by
  cases desc with
  | none => exact .pure _
  | some d =>
    exact fun w hw => alone_mono (fun _ _ h => h.1) (raspikeComFlush_kept hw (some d) nofun)

theorem raspikeComSend_keeps (desc : Option Nat) (buf : List Byte) :
    Keeps pr b₀ (raspikeComSend desc buf) :=
  fun _ hw => alone_mono (fun _ _ h => h.kept) (raspikeComSend_kept hw desc buf)

theorem setUseV2_keeps (b : Bool) : Keeps pr b₀ (setUseV2 b) := by
  have hv2 : Kind.v2 ∈ passiveKinds := trivial
  exact (Still.of_does (setUseV2_all hv2 b)).keeps

theorem setSession_keeps (s : U32) : Keeps pr b₀ (setSession s) := by
  have hs : Kind.sess ∈ passiveKinds := trivial
  exact (Still.of_does (setSession_all hs s)).keeps

theorem body_keeps_ledger (c : Call) : Keeps pr b₀ c.body := by
  have hdev : Passes (fun _ p => Keeps pr b₀ p) deviceKinds deviceMutexes := by
    refine ⟨Keeps.pure, Keeps.bind, fun hp => keeps_passes.does (hp.mono ?_ (Set.subset_univ _))⟩
    intro k hk
    simp only [deviceKinds, Set.mem_insert_iff, Set.mem_singleton_iff] at hk
    rcases hk with rfl | rfl | rfl | rfl <;> trivial
  have hclient : c.isClient → Keeps pr b₀ c.body := body_passes hdev raspikeProtSend_keeps
    raspikeProtSendPriority_keeps raspikeRequest_keeps
  cases c with
  | init desc =>
    refine Keeps.bind ?_ fun _ => .pure _
    refine raspikeProtInit_passes (fun k hk => ?_) (Set.subset_univ _) keeps_passes
      raspikeComSend_keeps raspikeComFlush_keeps ?_ setUseV2_keeps setSession_keeps ?_ desc
    · cases k <;> first
        | exact hk.elim
        | trivial
    · have hq : Kind.quiet ∈ passiveKinds := trivial
      exact keeps_passes.does (initPorts_all hq trivial trivial trivial
        (fun _ => Set.mem_univ _) fun _ => Set.mem_univ _)
    · refine Still.keeps (Still.modify ?_)
      exact fun _ => rfl
  | shutdown =>
    refine Keeps.bind ?_ fun _ => .pure _
    refine raspikeProtShutdown_passes keeps_passes (fun k hk _ _ => ?_) (Set.subset_univ _)
      (fun d => raspikeComFlush_keeps (some d)) (setUseV2_keeps _) (setSession_keeps _)
    simp only [shutdownKinds, Set.mem_insert_iff, Set.mem_singleton_iff] at hk
    rcases hk with rfl | rfl | rfl | rfl | rfl | rfl | rfl | rfl <;> trivial
  | receive =>
    refine Keeps.bind (keeps_passes.does ?_) fun _ => .pure _
    have hrecv : Kind.receivers ∈ passiveKinds := trivial
    refine raspikeProtReceive_all (fun k hk => ?_) (Set.subset_univ _) (fun _ => trivial) hrecv
      (Set.mem_univ _)
    simp only [commandKinds, Set.mem_insert_iff, Set.mem_singleton_iff] at hk
    rcases hk with rfl | rfl | rfl | rfl | rfl | rfl | rfl | rfl <;> trivial
  | _ => exact hclient rfl

theorem comCall_keeps (c : ComCall) : Keeps pr b₀ c.body := by
  cases c with
  | send desc buf => exact raspikeComSend_keeps desc buf
  | flush desc => exact raspikeComFlush_keeps desc
  | usbBufferFlush d =>
    exact Keeps.bind (fun _ hw => raspikeUsbBufferFlush_kept hw) fun _ => .pure _
  | usbSetMode mode =>
    have hmode : Still (raspikeUsbSetMode mode) :=
      Still.of_does (raspikeUsbSetMode_all quiet_passive (Set.mem_univ _) mode)
    exact hmode.keeps.bind fun _ => .pure _

/-- every operation keeps the ledger -/
theorem Op.run_keeps (op : Op) : Keeps pr b₀ op.run := by
  cases op with
  | api c =>
    refine (Still.tick (e := .call c) trivial).keeps.bind fun _ => (body_keeps_ledger c).bind fun r => ?_
    exact (Still.tick (e := .returned c r) trivial).keeps
  | com c =>
    refine (Still.tick (e := .comCall c) trivial).keeps.bind fun _ => (comCall_keeps c).bind fun r => ?_
    exact (Still.tick (e := .comReturned c r) trivial).keeps
  | openUsb d fd =>
    refine Keeps.bind ?_ fun _ => .pure _
    cases fd with
    | none => exact .pure _
    | some fd =>
      refine Keeps.bind (Still.keeps (Still.modify ?_)) fun _ => .pure _
      exact fun _ => rfl

end

/-- the promise is kept in every world of a run whose worlds satisfy the condition -/
theorem ledger_kept {pr : Promise} {m : Mem} (hm : pr = .sameDesc → m.com.fgSendBuffer = [])
    {ops : List Op} {c : Sys Unit} (hr : Via (pr.Cond m.com.fgSendBuffer) (solo m ops) c) :
    Kept pr m.com.fgSendBuffer c.toWorld := by
  have hstart : Kept pr m.com.fgSendBuffer (solo m ops).toWorld :=
    ⟨trivial, .start hm⟩
  refine alone_via hstart ?_ hr
  exact alone_forEach (Kept pr _) hstart (fun op _ w hw => Op.run_keeps op w hw) fun _ _ => trivial

end RaspikeArt
