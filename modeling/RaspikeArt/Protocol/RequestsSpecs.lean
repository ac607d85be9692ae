import RaspikeArt.Protocol.RequestsRefine
import RaspikeArt.Lifetime.Descriptor

/-!
# Requests, part 3: one specification for each function

* `sendFrame_req`          a send that went out is the send of an early request;
* `requestAttempts_req`    a request leaves its loop completed, or it has given up;
* `requestFinish_req`      the final section returns what the machine says;
* `resetPortState_hello`, `resetPortState_shutdown`   the two sweeps;
* `requests_refine`        the code keeps to the machine.
-/

set_option linter.unusedSectionVars false

namespace RaspikeArt
open Threads

variable {T : Type} [DecidableEq T] {d₀ : Nat} {s₀ : U32} {rx t : T} {g : ReqG}

/-! ## functions that are not about requests -/

/-- the accesses that the machine does not see -/
def reqKinds : Set Kind
  | .quiet | .io _ | .input _ | .config | .dev | .seq | .status | .statusPtr | .recv | .prot => True
  | _ => False

/-- every mutex but those of the machine -/
def reqMutexes : Set Mutex
  | .port _ | .request _ => False
  | _ => True

theorem Kind.Touches.sameReq {k : Kind} {m m' : Mem} (h : k.Touches m m') (hk : k ∈ reqKinds) :
    SameReq m m' := by
  cases k with
  | quiet =>
    obtain ⟨c, s, x, y, z, -, rfl⟩ := h
    exact ⟨rfl, rfl, fun _ => rfl⟩
  | io | seq | status | statusPtr =>
    obtain ⟨p, rfl⟩ := h
    exact ⟨rfl, rfl, fun _ => rfl⟩
  | dev =>
    obtain ⟨i, dv, rfl⟩ := h
    refine ⟨rfl, rfl, fun j => ?_⟩
    by_cases hj : j = i
    · subst hj
      rw [setPort_self]
      rfl
    · rw [setPort_of_ne _ _ hj]
  | prot =>
    obtain ⟨c, x, rfl⟩ := h
    exact ⟨rfl, rfl, fun _ => rfl⟩
  | input | recv | config =>
    cases h
    exact ⟨rfl, rfl, fun _ => rfl⟩
  | _ => exact hk.elim

theorem unseen_of_kind {e : Event} (h : e.kind ∈ reqKinds) : Unseen t e := by
  cases e with
  | drawn | devReset | capabilities | runtimeTelemetry | v2Frame | legacyFrame | command | io | wrote
  | queued | emptied | statusFetch | statusUse | statusFree | statusWoken | configure | configured =>
    exact ⟨fun _ => ⟨trivial, rfl⟩, fun _ => ⟨rfl, rfl⟩⟩
  | _ => exact h.elim

theorem ReqInv.own {w : World T Mutex Event Mem} {gs : T → ReqG} (h : ReqInv d₀ s₀ rx w gs)
    {own : Mutex → Option T} (hp : ∀ i, own (.port i) = w.own (.port i))
    (hr : ∀ i, own (.request i) = w.own (.request i)) :
    ReqInv d₀ s₀ rx { w with own := own } gs := by
  refine ⟨h.legal, h.session, h.v2, h.slot, fun i st hst => (hr i).trans (h.owner i st hst),
    h.sweep, h.only, fun u => ?_⟩
  exact { h.thread u with
    port := fun i => by
      show own (.port i) = some u ↔ _
      rw [hp]
      exact (h.thread u).port i
    request := fun i => by
      show own (.request i) = some u ↔ _
      rw [hr]
      exact (h.thread u).request i }

theorem req_neutral (t : T) (g : ReqG) :
    (reqLogic T d₀ s₀ rx).Neutral (Acc reqKinds) (· ∈ reqMutexes) t g where
  act := by
    intro e f hacc w gs hI _ _
    obtain ⟨k, hk, hstep⟩ := hacc w.mem
    refine ReqInv.same hI (hstep.touches.sameReq hk) fun e' he' => unseen_of_kind ?_
    rw [hstep.label e' he']
    exact hk
  acquire := by
    intro l hl w gs hI _ _
    refine ReqInv.own hI (fun i => ?_) fun i => ?_
    · exact Function.update_of_ne (by rintro rfl; exact hl) _ _
    · exact Function.update_of_ne (by rintro rfl; exact hl) _ _
  release := by
    intro l hl w gs hI _
    refine ReqInv.own hI (fun i => ?_) fun i => ?_
    · exact Function.update_of_ne (by rintro rfl; exact hl) _ _
    · exact Function.update_of_ne (by rintro rfl; exact hl) _ _
  places := by
    intro l hl
    refine ⟨trivial, trivial, fun c => ?_, ?_⟩
    · cases l with
      | port | request => exact hl.elim
      | _ => cases c <;> trivial
    · cases l with
      | port | request => exact hl.elim
      | _ => trivial

theorem req_skip {α : Type} {p : P α} {Q : α → ReqG → Prop} (hp : Does reqKinds reqMutexes p)
    (hQ : ∀ a, Q a g) : wp (reqLogic T d₀ s₀ rx) t p Q g :=
  wp_all (req_neutral t g) hp hQ

theorem req_load {α : Type} {f : Mem → α} {Q : α → ReqG → Prop} (hQ : ∀ a, Q a g) :
    wp (reqLogic T d₀ s₀ rx) t (load f) Q g :=
  req_skip (Does.load trivial) hQ

/-- a rule about `gs t` is a rule about the ghost `g` -/
theorem req_act {α : Type} {e : Mem → Option Event} {f : Mem → α × Mem} {Q : α → ReqG → Prop}
    (h : ∀ w gs, ReqInv d₀ s₀ rx w gs → gs t = g → Before d₀ s₀ (w.act t e f).trace →
      ∃ g', ReqInv d₀ s₀ rx (w.act t e f) (Function.update gs t g') ∧ Q (f w.mem).1 g') :
    wp (reqLogic T d₀ s₀ rx) t (.act e f .ret) Q g :=
  wp_act h

/-- an access that the machine does not see -/
theorem req_plain {α : Type} {e : Mem → Option Event} {f : Mem → α × Mem} {Q : α → ReqG → Prop}
    (hm : ∀ m, SameReq m (f m).2) (he : ∀ m x, e m = some x → Unseen t x)
    (hQ : ∀ m, Q (f m).1 g) : wp (reqLogic T d₀ s₀ rx) t (.act e f .ret) Q g := by
  refine req_act fun w gs hI hg _ => ⟨g, ?_, hQ w.mem⟩
  rw [update_self_of_eq hg]
  exact hI.same (hm w.mem) (he w.mem)

theorem req_tick {e : Event} {Q : Unit → ReqG → Prop} (he : Unseen t e) (hQ : Q () g) :
    wp (reqLogic T d₀ s₀ rx) t (tick e) Q g :=
  req_plain (fun _ => ⟨rfl, rfl, fun _ => rfl⟩) (fun _ _ h => by cases h; exact he) fun _ => hQ

theorem req_stats (s : Stat) {Q : Unit → ReqG → Prop} (hQ : Q () g) :
    wp (reqLogic T d₀ s₀ rx) t (statsIncrement s) Q g := by
  have hq : Kind.quiet ∈ reqKinds := trivial
  have hl : Mutex.fgLinkStats ∈ reqMutexes := trivial
  exact req_skip (statsIncrement_all hq hl s) fun _ => hQ

/-! ## the mutex of a port -/

theorem req_lock_port {i : Port} {Q : Unit → ReqG → Prop} (hg : g.port = none)
    (hQ : Q () { g with port := some i }) : wp (reqLogic T d₀ s₀ rx) t (lock (.port i)) Q g := by
  refine wp_lock trivial fun w gs hI hgs hfree =>
    ⟨_, ReqInv.acquire_port hI hfree (by rw [hgs]; exact hg), ?_⟩
  rw [hgs]
  exact hQ

theorem req_unlock_port {i : Port} {Q : Unit → ReqG → Prop} (hg : g.port = some i)
    (hQ : Q () { g with port := none, seen := none }) :
    wp (reqLogic T d₀ s₀ rx) t (unlock (.port i)) Q g := by
  refine wp_unlock trivial fun w gs hI hgs =>
    ⟨_, ReqInv.release_port hI (by rw [hgs]; exact hg), ?_⟩
  rw [hgs]
  exact hQ

theorem req_lock_request {i : Port} {Q : Unit → ReqG → Prop} (hg : g.request = none)
    (hQ : Q () { g with request := some i }) :
    wp (reqLogic T d₀ s₀ rx) t (lock (.request i)) Q g := by
  refine wp_lock trivial fun w gs hI hgs hfree =>
    ⟨_, ReqInv.acquire_request hI hfree (by rw [hgs]; exact hg), ?_⟩
  rw [hgs]
  exact hQ

theorem req_unlock_request {i : Port} {Q : Unit → ReqG → Prop} (hg : g.request = some i)
    (hcall : g.call = none) (hQ : Q () { g with request := none }) :
    wp (reqLogic T d₀ s₀ rx) t (unlock (.request i)) Q g := by
  refine wp_unlock trivial fun w gs hI hgs =>
    ⟨_, ReqInv.release_request hI (by rw [hgs]; exact hg) (by rw [hgs]; exact hcall), ?_⟩
  rw [hgs]
  exact hQ

/-- a read of the port by a thread without a request -/
theorem req_look {α : Type} {i : Port} (f : RPPortDevice → α) {Q : α → ReqG → Prop}
    (hport : g.port = some i) (hQ : ∀ d, Q (f d) { g with seen := some d }) :
    wp (reqLogic T d₀ s₀ rx) t (load fun m => f (m.gPortDevices i)) Q g := by
  refine req_act fun w gs hI hg _ => ⟨_, ?_, hQ (w.mem.gPortDevices i)⟩
  have hl := hI.thread t
  rw [hg] at hl
  refine hI.learn (by rw [hg]) { hl with seen := fun d hd => ⟨i, hport, ?_⟩ }
  cases hd
  rfl

/-- a read of its port by a request, which may find itself completed -/
theorem req_poll {α : Type} {c : CallG} (f : RPPortDevice → α) {Q : α → ReqG → Prop}
    (hport : g.port = some c.port) (hcall : g.call = some c)
    (hQ : ∀ d, Q (f d)
      { g with seen := some d, call := some { c with done := c.done || !d.pending } }) :
    wp (reqLogic T d₀ s₀ rx) t (load fun m => f (m.gPortDevices c.port)) Q g := by
  refine req_act fun w gs hI hg _ => ⟨_, ?_, hQ (w.mem.gPortDevices c.port)⟩
  obtain ⟨st, hst, hk, -, hmirrors⟩ := hI.mine (t := t) (c := c) (by rw [hg]; exact hcall)
  have hl := hI.thread t
  rw [hg] at hl
  refine hI.learn (by rw [hg]) { hl with
    mine := fun j st' hst' htt => ?_
    call := fun c' hc' => ?_
    seen := fun d hd => ⟨c.port, hport, by cases hd; rfl⟩ }
  · obtain ⟨c', hc', hj⟩ := hl.mine j st' hst' htt
    rw [hcall] at hc'
    cases hc'
    exact ⟨_, rfl, hj⟩
  · cases hc'
    refine ⟨(hl.call c hcall).1, st, hst, { hk with done := fun hd => ?_ }⟩
    rcases Bool.or_eq_true_iff.mp hd with hd | hd
    · exact hk.done hd
    · intro hnone
      rw [hmirrors.pending, hnone] at hd
      cases hd

/-! ## senders -/

/-- what a send leaves in the ghost -/
def ReqG.sent (g : ReqG) (r : Int) : ReqG :=
  { g with call := g.call.map fun c =>
      { c with locked := false, early := c.early || decide (r ≠ -ENOTCONN) } }

theorem sendFrameLocked_req (port cmd : Byte) (payload : Buf) (size : Int) (sequence : U32)
    (flags : Byte) (flushNow : Bool) :
    wp (reqLogic T d₀ s₀ rx) t (sendFrameLocked port cmd payload size sequence flags flushNow)
      (fun _ g' => g' = g) g := by
  have hq : Kind.quiet ∈ reqKinds := trivial
  have hio : ∀ d, Kind.io d ∈ reqKinds := fun _ => trivial
  have hcom : Mutex.comSend ∈ reqMutexes := trivial
  have hsend : ∀ desc buf, wp (reqLogic T d₀ s₀ rx) t (raspikeComSend desc buf)
      (fun _ g' => g' = g) g := fun desc buf =>
    req_skip (raspikeComSend_all hq (fun d _ => hio d) hcom buf) fun _ => rfl
  refine wp_bind (req_load fun v2 => wp_call ?_ fun ret => ?_)
  · split
    · unfold sendV2Frame
      split
      · exact wp_pure rfl
      refine wp_bind (req_act fun w gs hI hg _ => ⟨g, ?_, ?_⟩)
      · rw [update_self_of_eq hg]
        exact hI.frame port cmd sequence
      · exact wp_bind (req_load fun desc => hsend _ _)
    · unfold sendLegacyFrame
      split
      · exact wp_pure rfl
      exact wp_bind (req_load fun desc => hsend _ _)
  · split
    · refine wp_bind (req_load fun desc => wp_bind (req_skip ?_ fun _ => wp_pure rfl))
      exact raspikeComFlush_all hq (fun d _ => hio d) hcom
    · exact wp_pure rfl

/-- the last label of a send -/
theorem sendEnd_req (r : Int) :
    wp (reqLogic T d₀ s₀ rx) t (tick (.sendEnd r)) (fun _ g' => g' = g.sent r)
      { g with call := g.call.map fun c => { c with locked := true } } := by
  refine req_act fun w gs hI hg hK => ⟨_, hI.sendEnd (r := r) ?_ hK, ?_⟩
  · rw [hg]
    intro c hc
    obtain ⟨c₀, -, rfl⟩ := Option.map_eq_some_iff.mp hc
    rfl
  · rw [hg, ReqG.sent]
    dsimp only
    rw [Option.map_map]
    rfl

theorem sendFrame_req (port cmd : Byte) (payload : Buf) (size : Int) (sequence : U32)
    (flags : Byte) (flushNow : Bool) :
    wp (reqLogic T d₀ s₀ rx) t (sendFrame port cmd payload size sequence flags flushNow)
      (fun r g' => g' = g.sent r) g := by
  have hfg : Mutex.fgSend ∈ reqMutexes := trivial
  refine wp_bind (req_tick ⟨fun _ => ⟨trivial, rfl⟩, fun _ => ⟨rfl, rfl⟩⟩ ?_)
  refine wp_bind (req_skip (Does.lock hfg) fun _ => ?_)
  refine wp_bind (req_act fun w gs hI hg _ => ⟨_, hI.sendLocked, ?_⟩)
  rw [hg]
  refine wp_bind (req_skip (Does.orElse (Does.load trivial) (Does.load trivial)) fun down => ?_)
  split
  · refine wp_bind (req_skip (Does.unlock hfg) fun _ => ?_)
    exact wp_seq _ (sendEnd_req _) fun _ g' hg' => wp_pure hg'
  refine wp_call (sendFrameLocked_req _ _ _ _ _ _ _) fun ret => ?_
  refine wp_bind (req_skip (Does.unlock hfg) fun _ => wp_call ?_ fun _ => ?_)
  · split
    · exact req_stats _ rfl
    · exact wp_pure rfl
  · exact wp_seq _ (sendEnd_req _) fun _ g' hg' => wp_pure hg'

theorem nextSequence_req :
    wp (reqLogic T d₀ s₀ rx) t nextSequence (fun _ g' => g' = g) g := by
  have hq : Kind.quiet ∈ reqKinds := trivial
  have hs : Kind.seq ∈ reqKinds := trivial
  have hl : Mutex.fgSequence ∈ reqMutexes := trivial
  exact req_skip (nextSequence_all hq hs hl) fun _ => rfl

theorem raspikeProtSend_req (port cmdid : Byte) (buf : Buf) (size : Int) :
    wp (reqLogic T d₀ s₀ rx) t (raspikeProtSend port cmdid buf size) (fun _ g' => g' = {}) {} :=
  wp_call nextSequence_req fun _ => sendFrame_req (g := {}) _ _ _ _ _ _ _

theorem raspikeProtSendPriority_req (port cmdid : Byte) (buf : Buf) (size : Int) :
    wp (reqLogic T d₀ s₀ rx) t (raspikeProtSendPriority port cmdid buf size)
      (fun _ g' => g' = {}) {} :=
  wp_call nextSequence_req fun _ => sendFrame_req (g := {}) _ _ _ _ _ _ _

/-! ## requests -/

/-- the ghost of a thread inside a request, without and with the mutex of the port -/
def calling (c : CallG) : ReqG := { request := some c.port, call := some c }

def polling (c : CallG) (seen : Option RPPortDevice) : ReqG :=
  { port := some c.port, request := some c.port, call := some c, seen := seen }

/-- the same call, of which more may be known -/
structure CallG.Same (c c' : CallG) : Prop where
  port : c'.port = c.port
  cmd : c'.cmd = c.cmd
  sequence : c'.sequence = c.sequence

theorem polling_lock {c : CallG} {Q : Unit → ReqG → Prop} (hQ : Q () (polling c none)) :
    wp (reqLogic T d₀ s₀ rx) t (lock (.port c.port)) Q (calling c) :=
  req_lock_port rfl hQ

theorem polling_unlock {c : CallG} {seen : Option RPPortDevice} {Q : Unit → ReqG → Prop}
    (hQ : Q () (calling c)) :
    wp (reqLogic T d₀ s₀ rx) t (unlock (.port c.port)) Q (polling c seen) :=
  req_unlock_port rfl hQ

theorem polling_load {α : Type} {c : CallG} {seen : Option RPPortDevice} (f : RPPortDevice → α)
    {Q : α → ReqG → Prop}
    (hQ : ∀ d, Q (f d) (polling { c with done := c.done || !d.pending } (some d))) :
    wp (reqLogic T d₀ s₀ rx) t (load fun m => f (m.gPortDevices c.port)) Q (polling c seen) :=
  req_poll f rfl rfl hQ

theorem requestSleep_req {c : CallG} (hearly : c.early = true) (result : Int) :
    wp (reqLogic T d₀ s₀ rx) t (requestSleep c.port result)
      (fun _ g' => ∃ done seen, g' = polling { c with done := done } seen) (polling c none) := by
  refine wp_loopFrom (fun _ g' => g' = polling c none) rfl ?_
  rintro result _ rfl
  refine wp_bind (polling_load _ fun d => ?_)
  cases hd : d.pending with
  | false => exact wp_pure ⟨_, _, rfl⟩
  | true =>
    have hc : { c with done := c.done || !true } = c := by
      rw [Bool.not_true, Bool.or_false]
    rw [hc]
    refine wp_bind (wp_condWait (calling c) ⟨c, d, rfl, rfl, hearly, rfl, rfl, hd⟩
      ⟨c, rfl, rfl, hearly⟩ (fun w gs hI hg => ?_) fun w gs hI hg hfree => ?_)
    · have hrel := ReqInv.release_port hI (t := t) (i := c.port) (by rw [hg]; rfl)
      rwa [hg] at hrel
    · refine ⟨polling c none, ?_, fun r => ?_⟩
      · have hacq := ReqInv.acquire_port hI (t := t) hfree (by rw [hg]; rfl)
        rwa [hg] at hacq
      split
      · exact wp_pure ⟨c.done, none, rfl⟩
      split
      · exact wp_pure ⟨c.done, none, rfl⟩
      · exact wp_pure rfl

theorem requestWait_req {c : CallG} (hearly : c.early = true) (last : Bool) (hquit : c.quit = none)
    (result : Int) :
    wp (reqLogic T d₀ s₀ rx) t (requestWait c.port c.sequence last result)
      (fun r g' => ∃ c', c.Same c' ∧ g' = calling c' ∧ c'.locked = c.locked ∧
        if r.2 then c'.done = true ∧ c'.quit = none
        else c'.quit = if last then some r.1 else none) (calling c) := by
  refine wp_bind (polling_lock (wp_seq _ (requestSleep_req hearly result) ?_))
  rintro result _ ⟨done, seen, rfl⟩
  refine wp_bind (polling_load (c := { c with done := done }) _ fun d => ?_)
  cases hd : d.pending with
  | false =>
    refine wp_bind (polling_unlock (c := { c with done := done || !false }) ?_)
    refine wp_pure ⟨{ c with done := done || !false }, ⟨rfl, rfl, rfl⟩, rfl, rfl, ?_⟩
    exact ⟨by simp, hquit⟩
  | true =>
    cases last with
    | true =>
      refine wp_bind (req_act fun w gs hI hg _ => ⟨_, hI.gaveUp (t := t)
        (c := { c with done := done || !true }) (by rw [hg]; rfl) hquit result, ?_⟩)
      rw [hg]
      refine wp_bind (polling_unlock (c := { c with done := done || !true, quit := some result }) ?_)
      exact wp_pure ⟨{ c with done := done || !true, quit := some result }, ⟨rfl, rfl, rfl⟩, rfl,
        rfl, rfl⟩
    | false =>
      refine wp_bind (wp_pure (wp_bind (polling_unlock (c := { c with done := done || !true }) ?_)))
      exact wp_pure ⟨{ c with done := done || !true }, ⟨rfl, rfl, rfl⟩, rfl, rfl, hquit⟩

theorem requestAttempts_req (port cmd : Byte) (data : Buf) (size : Int) (n : Nat) :
    ∀ {c : CallG} (result : Int), (c.quit = if n = 0 then some result else none) →
    wp (reqLogic T d₀ s₀ rx) t (requestAttempts c.port port cmd data size c.sequence n result)
      (fun r g' => ∃ c', c.Same c' ∧ g' = calling c' ∧
        if r.2 then c'.done = true ∧ c'.quit = none else c'.quit = some r.1) (calling c) := by
  induction n with
  | zero => exact fun result hquit => wp_pure ⟨_, ⟨rfl, rfl, rfl⟩, rfl, hquit⟩
  | succ n ih =>
    intro c result hquit
    have hquit' : c.quit = none := hquit
    refine wp_bind (polling_lock (wp_bind (polling_load _ fun d => ?_)))
    refine wp_bind (polling_unlock (c := { c with done := c.done || !d.pending }) ?_)
    cases hd : d.pending with
    | false =>
      refine wp_pure ⟨{ c with done := c.done || !false }, ⟨rfl, rfl, rfl⟩, rfl, ?_⟩
      exact ⟨by simp, hquit'⟩
    | true =>
      refine wp_seq _ (sendFrame_req _ _ _ _ _ _ _) ?_
      rintro sent _ rfl
      have hsent : (calling { c with done := c.done || !true }).sent sent = calling
          { c with done := c.done || !true, locked := false,
                   early := c.early || decide (sent ≠ -ENOTCONN) } := rfl
      rw [hsent]
      show wp _ t (if sent < 0 then _ else _) _ _
      split
      · refine wp_bind (req_act fun w gs hI hg _ => ⟨_, hI.gaveUp (t := t)
          (c := { c with done := c.done || !true, locked := false,
                         early := c.early || decide (sent ≠ -ENOTCONN) })
          (by rw [hg]; rfl) hquit' sent, ?_⟩)
        rw [hg]
        exact wp_pure ⟨{ c with
          done := c.done || !true, locked := false,
          early := c.early || decide (sent ≠ -ENOTCONN), quit := some sent }, ⟨rfl, rfl, rfl⟩, rfl, rfl⟩
      case isFalse hpos =>
      have hearly : (c.early || decide (sent ≠ -ENOTCONN)) = true := by
        have hne : sent ≠ -ENOTCONN := by
          rintro rfl
          exact hpos (by decide)
        simp [hne]
      refine wp_seq _ (requestWait_req (c := { c with
        done := c.done || !true, locked := false,
        early := c.early || decide (sent ≠ -ENOTCONN) }) hearly (n = 0) hquit' result) ?_
      rintro ⟨r, completed⟩ _ ⟨c', hsame, rfl, -, hr⟩
      obtain ⟨h1, h2, h3⟩ := hsame
      cases completed with
      | true => exact wp_pure ⟨c', ⟨h1, h2, h3⟩, rfl, hr⟩
      | false =>
        refine wp_call ?_ fun _ => ?_
        · split
          · exact req_stats _ rfl
          · exact wp_pure rfl
        have hnext := ih (c := c') r (by simpa using hr)
        rw [show c.port = c'.port from h1.symm, show c.sequence = c'.sequence from h3.symm]
        refine wp_mono ?_ hnext
        rintro r' g' ⟨c'', ⟨k1, k2, k3⟩, hg', hr'⟩
        exact ⟨c'', ⟨k1.trans h1, k2.trans h2, k3.trans h3⟩, hg', hr'⟩

/-! ### the final section -/

/-- what the final section makes of what it has read; `stale` and `took` are what it has learned of
the session and of the connection -/
inductive Outcome (c : CallG) (result : Int) (completed : Bool) (d : RPPortDevice)
    (stale took : Bool) : Branch → Int → Prop where
  | cancelled (hc : completed = true) (hd : d.ackCmd = -1) :
      Outcome c result completed d stale took .cancelled d.ackData
  | acked (hc : completed = true) (hd : d.ackCmd = c.cmd.toNat)
      (hs : took = true ∨ d.ackSequence = c.sequence) :
      Outcome c result completed d stale took .acked d.ackData
  | unanswered (h : completed = true → d.ackCmd ≠ -1 ∧
        (d.ackCmd = c.cmd.toNat → d.ackSequence = c.sequence → stale = true)) :
      Outcome c result completed d stale took (unanswered result) result

/-- what the loop leaves behind -/
def CallG.Left (c : CallG) (result : Int) (completed : Bool) : Prop :=
  if completed then c.done = true ∧ c.quit = none else c.quit = some result

theorem Outcome.returns {c : CallG} {result : Int} {completed : Bool} {d : RPPortDevice}
    {stale took : Bool} {b : Branch} {r : Int} {a : Ports T} {i : Port} {st : Request T} {live : Bool}
    (h : Outcome c result completed d stale took b r) (hleft : c.Left result completed)
    (hk : st.Known live t c) (hstale : stale = true → st.stale = true)
    (ht : took = true → a.taken = true) (hs : st.Sound a i) (hm : st.Mirrors d) :
    st.Returns a.taken b r := by
  have hgave := hk.quit
  cases completed with
  | false =>
    have hquit : c.quit = some result := hleft
    rw [hquit] at hgave
    rw [Request.Returns, hgave]
    cases h with
    | cancelled hc | acked hc => cases hc
    | unanswered => exact ⟨rfl, rfl⟩
  | true =>
    obtain ⟨hdone, hquit⟩ := hleft
    rw [hquit] at hgave
    rw [Request.Returns, hgave]
    obtain ⟨comp, hcomp⟩ := Option.ne_none_iff_exists'.mp (hk.done hdone)
    refine ⟨comp, hcomp, ?_⟩
    split
    case isTrue hcleared =>
      obtain ⟨hcmd, hdata, hseq⟩ := hm.cleared hcleared
      cases h with
      | cancelled _ hd =>
        rw [hcmd] at hd
        cases hd
      | acked _ hd hor =>
        rcases hor with htook | hzero
        · refine .inr ⟨ht htook, ?_, rfl, hdata⟩
          rw [hcmd] at hd
          rw [hk.cmd]
          exact BitVec.eq_of_toNat_eq (by simpa using hd.symm)
        · exact (hs.sequence (by rw [hk.sequence, ← hzero, hseq])).elim
      | unanswered => exact .inl rfl
    case isFalse hcleared =>
      have hcl : st.cleared = false := by simpa using hcleared
      cases comp with
      | cancelled session error =>
        obtain ⟨hcmd, hdata⟩ := hm.cancelled session error hcomp hcl
        cases h with
        | cancelled => exact ⟨rfl, hdata⟩
        | acked _ hd =>
          rw [hcmd] at hd
          omega
        | unanswered h => exact ((h rfl).1 hcmd).elim
      | acked session ackCmd ackData =>
        obtain ⟨hcmd, hdata, hseq, -⟩ := hm.acked session ackCmd ackData hcomp hcl
        cases h with
        | cancelled _ hd =>
          have hpos := hs.ackCmd session ackCmd ackData hcomp
          rw [hcmd] at hd
          omega
        | acked _ hd =>
          refine .inl ⟨?_, rfl, hdata⟩
          rw [← hcmd, hd, hk.cmd]
        | unanswered h =>
          refine .inr ⟨fun heq => hstale ((h rfl).2 ?_ ?_), rfl⟩
          · rw [hcmd, heq, hk.cmd]
          · rw [hseq, hk.sequence]

/-- the session has changed since the ACK that the port record holds -/
theorem ReqInv.outdated {w : World T Mutex Event Mem} {gs : T → ReqG} (h : ReqInv d₀ s₀ rx w gs)
    {c : CallG} {d : RPPortDevice} (hc : (gs t).call = some c) (hport : (gs t).port = some c.port)
    (hseen : (gs t).seen = some d) (hdone : c.done = true) (hcmd : d.ackCmd = c.cmd.toNat)
    (hseq : d.ackSequence = c.sequence) (hne : d.ackSession ≠ w.mem.fgSessionId) {st : Request T}
    (hst : (portsOf s₀ w.trace).slot c.port = some st) : st.stale = true := by
  obtain ⟨st', hst', hk, hs, -⟩ := h.mine hc
  obtain rfl : st' = st := Option.some.inj (hst'.symm.trans hst)
  obtain ⟨i, hi, hd⟩ := (h.thread t).seen d hseen
  obtain rfl : c.port = i := Option.some.inj (hport.symm.trans hi)
  have hm : st'.Mirrors d := by
    have hslot := (h.slot c.port).congr hd
    rwa [hst] at hslot
  have hcleared : st'.cleared = false := by
    by_contra hcl
    have hzero := (hm.cleared (by simpa using hcl)).2.2
    exact hs.sequence (by rw [hk.sequence, ← hseq, hzero])
  obtain ⟨comp, hcomp⟩ := Option.ne_none_iff_exists'.mp (hk.done hdone)
  cases comp with
  | cancelled session error =>
    rw [(hm.cancelled session error hcomp hcleared).1] at hcmd
    omega
  | acked session ackCmd ackData =>
    by_contra hstale
    have hcurrent := hs.current session ackCmd ackData hcomp (by simpa using hstale)
    refine hne ?_
    rw [(hm.acked session ackCmd ackData hcomp hcleared).2.2.2, hcurrent, ← h.session]

/-- a thread learns that the connection is taken when the protocol is no longer v2 -/
theorem req_useV2 {α : Type} (f : Bool → α) {Q : α → ReqG → Prop}
    (hQ : ∀ v2, Q (f v2) { g with took := g.took || !v2 }) :
    wp (reqLogic T d₀ s₀ rx) t (load fun m => f m.fgUseProtocolV2) Q g := by
  refine req_act fun w gs hI hg _ => ⟨_, ?_, hQ w.mem.fgUseProtocolV2⟩
  have hl := hI.thread t
  rw [hg] at hl
  refine hI.learn (by rw [hg]) { hl with took := fun ht => ?_ }
  rcases Bool.or_eq_true_iff.mp ht with ht | hv2
  · exact hl.took ht
  · by_contra hlive
    rw [hI.v2 (by simpa using hlive)] at hv2
    cases hv2

/-- the ghost of a call in its final section -/
def finishing (c : CallG) (d : RPPortDevice) (stale took : Bool) : ReqG :=
  { polling { c with stale := c.stale || stale } (some d) with took := took }

theorem ackIsCurrent_req {c : CallG} {d : RPPortDevice} (hdone : c.done = true)
    (hcmd : d.ackCmd = c.cmd.toNat) :
    wp (reqLogic T d₀ s₀ rx) t (ackIsCurrent d c.sequence)
      (fun b g' => ∃ stale took, g' = finishing c d stale took ∧
        if b then took = true ∨ d.ackSequence = c.sequence
        else d.ackSequence = c.sequence → stale = true)
      (polling c (some d)) := by
  refine wp_orElse (req_useV2 (fun v2 => !v2) fun v2 => ?_)
  have hc : { c with stale := c.stale || false } = c := by rw [Bool.or_false]
  cases v2 with
  | false =>
    refine ⟨false, true, ?_, .inl rfl⟩
    rw [finishing, hc]
    rfl
  | true =>
    show wp _ t (if d.ackSequence = c.sequence then _ else _) _ _
    split
    case isTrue hseq =>
      refine req_act fun w gs hI hg _ =>
        ⟨finishing c d (d.ackSession != w.mem.fgSessionId) false, ?_, _, false, rfl, ?_⟩
      · have hl := hI.thread t
        rw [hg] at hl
        refine hI.learn (by rw [hg]; rfl) { hl with mine := fun j st hst htt => ?_, call := fun c' hc' => ?_ }
        · obtain ⟨c', hc', hj⟩ := hl.mine j st hst htt
          cases hc'
          exact ⟨_, rfl, hj⟩
        · cases hc'
          obtain ⟨hreq, st, hst, hk⟩ := hl.call c rfl
          refine ⟨hreq, st, hst, { hk with stale := fun hs => ?_ }⟩
          rcases Bool.or_eq_true_iff.mp hs with hs | hne
          · exact hk.stale hs
          · exact hI.outdated (t := t) (by rw [hg]; rfl) (by rw [hg]; rfl) (by rw [hg]; rfl) hdone hcmd
              hseq (by simpa using hne) hst
      · show if (d.ackSession == w.mem.fgSessionId) = true then _ else _
        split
        case isTrue => exact .inr hseq
        case isFalse hne => exact fun _ => by simpa [bne] using hne
    case isFalse hseq =>
      refine wp_pure ⟨false, false, ?_, fun heq => (hseq heq).elim⟩
      rw [finishing, hc]
      rfl

/-- the way out without an answer -/
theorem requestUnanswered_req {c : CallG} {d : RPPortDevice} {result : Int} {completed : Bool}
    {stale took : Bool} (h : completed = true → d.ackCmd ≠ -1 ∧
      (d.ackCmd = c.cmd.toNat → d.ackSequence = c.sequence → stale = true)) :
    wp (reqLogic T d₀ s₀ rx) t (do
        if result = -ETIMEDOUT then
          statsIncrement .requestTimeouts
          return (Branch.timedOut, result)
        return (Branch.failed, result))
      (fun r g' => ∃ stale took, g' = finishing c d stale took ∧
        Outcome c result completed d stale took r.1 r.2)
      (finishing c d stale took) := by
  have ho : Outcome c result completed d stale took (unanswered result) result := .unanswered h
  split
  case isTrue hr =>
    rw [unanswered, if_pos hr] at ho
    exact wp_bind (req_stats _ (wp_pure ⟨stale, took, rfl, ho⟩))
  case isFalse hr =>
    rw [unanswered, if_neg hr] at ho
    exact wp_pure ⟨stale, took, rfl, ho⟩

theorem requestOutcome_req {c : CallG} {d : RPPortDevice} (result : Int) (completed : Bool)
    (hleft : c.Left result completed) :
    wp (reqLogic T d₀ s₀ rx) t (requestOutcome c.cmd c.sequence result completed d)
      (fun r g' => ∃ stale took, g' = finishing c d stale took ∧
        Outcome c result completed d stale took r.1 r.2)
      (polling c (some d)) := by
  have hsame : polling c (some d) = finishing c d false false := by
    have hc : { c with stale := c.stale || false } = c := by rw [Bool.or_false]
    rw [finishing, hc]
    rfl
  unfold requestOutcome
  split
  case isTrue hcan =>
    simp only [Bool.and_eq_true, beq_iff_eq] at hcan
    exact wp_pure ⟨false, false, hsame, .cancelled hcan.1 hcan.2⟩
  case isFalse hcan =>
  have hcan' : completed = true → d.ackCmd ≠ -1 := by
    intro hcomp hd
    simp [hcomp, hd] at hcan
  split
  case isTrue hcmd =>
    simp only [Bool.and_eq_true, beq_iff_eq] at hcmd
    obtain ⟨hcomp, hcmd⟩ := hcmd
    have hdone : c.done = true := by
      rw [CallG.Left, if_pos hcomp] at hleft
      exact hleft.1
    refine wp_seq _ (ackIsCurrent_req hdone hcmd) ?_
    rintro acked _ ⟨stale, took, rfl, h⟩
    cases acked with
    | true => exact wp_pure ⟨stale, took, rfl, .acked hcomp hcmd h⟩
    | false => exact requestUnanswered_req fun _ => ⟨hcan' hcomp, fun _ => h⟩
  case isFalse hcmd =>
    rw [hsame]
    refine wp_bind (wp_pure (requestUnanswered_req fun hcomp => ⟨hcan' hcomp, fun hd => ?_⟩))
    simp [hcomp, hd] at hcmd

theorem requestFinish_req {c : CallG} (result : Int) (completed : Bool)
    (hleft : c.Left result completed) :
    wp (reqLogic T d₀ s₀ rx) t (requestFinish c.port c.cmd c.sequence result completed)
      (fun _ g' => g' = {}) (calling c) := by
  refine wp_bind (polling_lock (wp_bind (polling_load id fun d => ?_)))
  have hleft' : CallG.Left { c with done := c.done || !d.pending } result completed := by
    unfold CallG.Left at hleft ⊢
    split at hleft
    · rename_i hcomp
      rw [if_pos hcomp]
      exact ⟨by rw [hleft.1]; rfl, hleft.2⟩
    · rename_i hcomp
      rw [if_neg hcomp]
      exact hleft
  refine wp_seq _ (requestOutcome_req (c := { c with done := c.done || !d.pending }) result
    completed hleft') ?_
  rintro ⟨b, r⟩ _ ⟨stale, took, rfl, ho⟩
  refine wp_bind (req_act fun w gs hI hg _ => ⟨_, hI.finish (t := t)
    (c := { c with done := c.done || !d.pending, stale := c.stale || stale })
    (by rw [hg]; rfl) (by rw [hg]; rfl) ?_ fun st hst => ?_, ?_⟩)
  · unfold CallG.Left at hleft
    show completed = c.quit.isNone
    cases completed with
    | true => rw [hleft.2]; rfl
    | false => rw [show c.quit = some result from hleft]; rfl
  · obtain ⟨st', hst', hk, hs, -⟩ := hI.mine (t := t)
      (c := { c with done := c.done || !d.pending, stale := c.stale || stale }) (by rw [hg]; rfl)
    obtain rfl : st' = st := Option.some.inj (hst'.symm.trans hst)
    have hl := hI.thread t
    rw [hg] at hl
    obtain ⟨i, hi, hd⟩ := hl.seen d rfl
    obtain rfl : c.port = i := Option.some.inj hi
    have hm : st'.Mirrors d := by
      have hslot := (hI.slot c.port).congr hd
      rwa [hst] at hslot
    have hk' : st'.Known ((lifeOf d₀ w.trace).lockedLive t) t
        { c with done := c.done || !d.pending } :=
      { hk with stale := fun hs => hk.stale (by rw [show c.stale = true from hs]; rfl) }
    refine ho.returns hleft' hk' (fun hs => hk.stale ?_) hl.took hs hm
    show (c.stale || stale) = true
    rw [hs, Bool.or_true]
  · rw [hg]
    refine wp_bind (req_unlock_port rfl ?_)
    exact wp_bind (req_unlock_request rfl rfl (wp_pure rfl))

theorem requestBegin_req (i : Port) (cmd : Byte) :
    wp (reqLogic T d₀ s₀ rx) t (requestBegin i cmd)
      (fun s g' => g' = calling { port := i, cmd := cmd, sequence := s }) { request := some i } := by
  refine wp_call nextSequence_req fun s => ?_
  refine wp_bind (req_lock_port rfl ?_)
  refine wp_bind (req_act fun w gs hI hg hK => ⟨_, hI.pend (t := t) (by rw [hg]) (by rw [hg])
    (by rw [hg]) hK, ?_⟩)
  rw [hg]
  exact wp_bind (req_unlock_port rfl (wp_pure rfl))

theorem raspikeRequest_req (port cmd : Byte) (data : Buf) (size : Int) :
    wp (reqLogic T d₀ s₀ rx) t (raspikeRequest port cmd data size) (fun _ g' => g' = {}) {} := by
  unfold raspikeRequest
  split
  · exact wp_pure rfl
  split
  · exact wp_pure rfl
  case h_2 i _ =>
  refine wp_bind (req_lock_request rfl (wp_seq _ (requestBegin_req i cmd) ?_))
  rintro s _ rfl
  refine wp_bind (req_load fun v2 => ?_)
  refine wp_seq _ (requestAttempts_req (c := { port := i, cmd := cmd, sequence := s }) port cmd data
    size (if v2 then 2 else 1) (-ETIMEDOUT) ?_) ?_
  · cases v2 <;> rfl
  rintro ⟨result, completed⟩ _ ⟨c, ⟨hport, hcmd, hseq⟩, rfl, hleft⟩
  have hfinish : wp (reqLogic T d₀ s₀ rx) t _ _ (calling c) :=
    requestFinish_req result completed hleft
  rw [hport, hcmd, hseq] at hfinish
  exact hfinish

/-! ## the receiver -/

/-- the ghost of a receiver, and of one that sweeps the ports -/
def inReceive : ReqG := { inside := true }

def sweeping (is : List Port) : ReqG := { inside := true, sweep := some is }

theorem ReqInv.inside_v2 {w : World T Mutex Event Mem} {gs : T → ReqG} (h : ReqInv d₀ s₀ rx w gs)
    (hlife : (lifetime T d₀).Legal .start w.trace) (hin : (gs t).inside = true) :
    w.mem.fgUseProtocolV2 = true := by
  refine h.v2 ?_
  rw [taken_eq d₀]
  exact (Life.Sound.of_legal hlife).live ⟨t, (h.thread t).inside hin⟩

theorem ackMatches_req (i : Port) (d : RPPortDevice) (s session : U32) (ackCmd : Int) :
    wp (reqLogic T d₀ s₀ rx) t (ackMatches d s session ackCmd)
      (fun isCurrent g' => g' = { inside := true, port := some i, seen := some d } ∧
        (isCurrent = true → d.pending = true ∧ 0 ≤ ackCmd ∧ s = d.pendingSequence))
      { inside := true, port := some i, seen := some d } := by
  unfold ackMatches
  split
  case isFalse => exact wp_pure ⟨rfl, by simp⟩
  case isTrue hp =>
    simp only [Bool.and_eq_true, decide_eq_true_eq] at hp
    refine wp_orElse (wp_load fun w gs hI hg hK => ?_)
    rw [ReqInv.inside_v2 hI hK.life (t := t) (by rw [hg])]
    show wp _ t (if s = d.pendingSequence then _ else _) _ _
    split
    case isFalse => exact wp_pure ⟨rfl, by simp⟩
    case isTrue hs => exact req_load fun _ => ⟨rfl, fun _ => ⟨hp.1, hp.2, hs⟩⟩

theorem processAck_req (i : Port) (s session : U32) (buf : List Byte) :
    wp (reqLogic T d₀ s₀ rx) t (processAck i s session buf) (fun _ g' => g' = inReceive)
      inReceive := by
  refine wp_bind (req_lock_port rfl (wp_bind (req_look id rfl fun d => ?_)))
  refine wp_seq _ (ackMatches_req i d s session _) ?_
  rintro isCurrent _ ⟨rfl, hmatch⟩
  cases isCurrent with
  | false =>
    refine wp_bind (req_stats _ ?_)
    exact wp_bind (req_unlock_port rfl (wp_pure rfl))
  | true =>
    obtain ⟨hpending, hpos, hs⟩ := hmatch rfl
    refine wp_bind (wp_bind (req_act fun w gs hI hg hK => ⟨_, hI.ack (t := t) (d := d)
      (by rw [hg]) (by rw [hg]) hpending hs hpos hK, ?_⟩))
    rw [hg]
    exact wp_broadcast (wp_bind (req_unlock_port rfl (wp_pure rfl)))

/-! ## resets -/

theorem ReqG.Resetting.atPort {g' : ReqG} {i : Port} {error : Int} (h : g.Resetting i error g')
    (p : Option Port) (seen : Option RPPortDevice) :
    ReqG.Resetting { g with port := p, seen := seen } i error { g' with port := p } := by
  cases h with
  | hello is his => exact .hello is his
  | shutdown is his ht hl => exact .shutdown is his ht hl

theorem resetSlot_req {g' : ReqG} {i : Port} {error : Int} (hport : g.port = none)
    (hg : g.Resetting i error g') :
    wp (reqLogic T d₀ s₀ rx) t (resetSlot error i) (fun _ g'' => g'' = g') g := by
  have hback : ({ g' with port := none, seen := none } : ReqG) = g' := by
    obtain ⟨h1, -, -, h4, -⟩ := hg.fields
    rw [← h1.trans hport, ← h4]
  refine wp_bind (req_lock_port hport (wp_bind (req_look _ rfl fun d => ?_)))
  cases hd : d.pending with
  | true =>
    refine wp_bind (wp_bind (req_load fun session => wp_bind (req_act fun w gs hI hgs hK =>
      ⟨_, hI.cancel hK.life.tail (t := t) (i := i) (d := d) (by rw [hgs]) (by rw [hgs]) hd
        (by rw [hgs]; exact hg.atPort _ _), ?_⟩)))
    exact wp_broadcast (req_unlock_port rfl hback)
  | false =>
    refine wp_bind (req_act fun w gs hI hgs hK => ⟨_, hI.clear hK.life.tail (t := t) (i := i) (d := d)
      (by rw [hgs]) (by rw [hgs]) hd (by rw [hgs]; exact hg.atPort _ _), ?_⟩)
    exact req_unlock_port rfl hback

theorem resetPort_req {g' : ReqG} {i : Port} {error : Int} (clearDevices : Bool)
    (hport : g.port = none) (hg : g.Resetting i error g') :
    wp (reqLogic T d₀ s₀ rx) t (resetPort error clearDevices i) (fun _ g'' => g'' = g') g := by
  have hdev : Kind.dev ∈ reqKinds := trivial
  have hl : Mutex.device i ∈ reqMutexes := trivial
  refine wp_seq _ (resetSlot_req hport hg) ?_
  rintro _ _ rfl
  cases clearDevices with
  | true => exact req_skip (resetDevice_all hdev hl) fun _ => rfl
  | false => exact wp_pure rfl

/-- the sweep of a HELLO -/
theorem resetPortState_hello :
    wp (reqLogic T d₀ s₀ rx) t (resetPortState (-ESTALE) false) (fun _ g' => g' = sweeping [])
      (sweeping allPorts) := by
  refine wp_forEach (fun is g' => g' = sweeping is) rfl ?_ fun _ h => h
  rintro i is _ rfl
  exact resetPort_req false rfl (.hello is rfl)

/-- the ghost of a shutdown, with the ports it has still to reset -/
def closing (is : List Port) : ReqG := { took := true, left := some is }

theorem resetPortState_shutdown :
    wp (reqLogic T d₀ s₀ rx) t (resetPortState (-ENOTCONN) true) (fun _ g' => g' = closing [])
      (closing allPorts) := by
  refine wp_forEach (fun is g' => g' = closing is) rfl ?_ fun _ h => h
  rintro i is _ rfl
  exact resetPort_req true rfl (.shutdown is rfl rfl rfl)

theorem processHelloPayload_req (buf : List Byte) :
    wp (reqLogic T d₀ s₀ rx) t (processHelloPayload buf) (fun _ g' => g' = inReceive) inReceive := by
  have hq : Kind.quiet ∈ reqKinds := trivial
  have hp : Kind.prot ∈ reqKinds := trivial
  have hs : Kind.status ∈ reqKinds := trivial
  have hl : Mutex.fgStatus ∈ reqMutexes := trivial
  have hr : Mutex.fgRuntimeTelemetry ∈ reqMutexes := trivial
  unfold processHelloPayload
  split
  · exact wp_pure rfl
  refine wp_bind (req_load fun old => ?_)
  split
  · exact wp_pure rfl
  refine wp_bind (req_act fun w gs hI hg hK =>
    ⟨_, hI.newSession (t := t) (by rw [hg]; rfl) (by rw [hg]; rfl) hK, ?_⟩)
  rw [hg]
  refine wp_bind (req_skip (setCapabilities_all hp _) fun _ => ?_)
  refine wp_seq _ resetPortState_hello ?_
  rintro _ _ rfl
  refine wp_bind (req_act fun w gs hI hg hK => ⟨_, hI.helloDone (t := t) _ (by rw [hg]; rfl), ?_⟩)
  rw [hg]
  refine wp_bind (req_skip (clearSavedStatus_all hq hs hl) fun _ => ?_)
  exact req_skip (clearRuntimeTelemetry_all hp hr) fun _ => rfl

theorem req_receive (t : T) (g : ReqG) :
    (reqLogic T d₀ s₀ rx).Neutral (Acc receiveKinds) (· ∈ receiveMutexes) t g := by
  refine (req_neutral t g).mono (fun e f hacc m => ?_) fun l hl => ?_
  · obtain ⟨k, hk, hstep⟩ := hacc m
    refine ⟨k, ?_, hstep⟩
    cases k <;> first
      | exact hk.elim
      | trivial
  · cases l <;> first
      | exact hl.elim
      | trivial

theorem receiveDone_req :
    wp (reqLogic T d₀ s₀ rx) t receiveDone (fun _ g' => g' = {}) inReceive := by
  have hm : Mutex.fgLifecycle ∈ reqMutexes := trivial
  refine wp_bind (req_skip (Does.lock hm) fun _ => ?_)
  refine wp_bind (req_act fun w gs hI hg _ =>
    ⟨_, hI.receiverOut (t := t) (by rw [hg]; rfl) (by rw [hg]; rfl), ?_⟩)
  rw [hg]
  refine wp_bind (req_load fun active => wp_call ?_ fun _ => ?_)
  · split
    · exact wp_broadcast rfl
    · exact wp_pure rfl
  · exact req_skip (Does.unlock hm) fun _ => rfl

theorem raspikeProtReceive_req :
    wp (reqLogic T d₀ s₀ t) t raspikeProtReceive (fun _ g' => g' = {}) {} := by
  have hm : Mutex.fgLifecycle ∈ reqMutexes := trivial
  refine wp_bind (req_skip (Does.lock hm) fun _ => ?_)
  refine wp_bind (req_skip (Does.orElse (Does.load trivial)
    (Does.orElse (Does.load trivial) (Does.load trivial))) fun down => ?_)
  split
  · exact wp_bind (req_skip (Does.unlock hm) fun _ => wp_pure rfl)
  refine wp_bind (req_act fun w gs hI hg _ => ⟨_, hI.receiverIn, ?_⟩)
  rw [hg]
  refine wp_bind (req_skip (Does.unlock hm) fun _ => ?_)
  refine wp_call (receiveFrame_keeps (req_receive t _) processHelloPayload_req processAck_req)
    fun result => ?_
  exact wp_seq _ receiveDone_req fun _ g' hg' => wp_pure hg'

/-! ## the shutdown -/

theorem shutdownTake_req :
    wp (reqLogic T d₀ s₀ rx) t shutdownTake (fun _ g' => g' = closing allPorts) {} := by
  have hq : Kind.quiet ∈ reqKinds := trivial
  have hm : Mutex.fgLifecycle ∈ reqMutexes := trivial
  have hsend : Mutex.fgSend ∈ reqMutexes := trivial
  refine wp_bind (req_skip (Does.lock hm) fun _ => ?_)
  refine wp_bind (req_skip (awaitReceivers_all hq hm) fun _ => ?_)
  refine wp_bind (req_skip (Does.lock hsend) fun _ => wp_bind (req_load fun desc => ?_))
  refine wp_bind (req_act fun w gs hI hg _ => ⟨_, hI.takeDesc (t := t) desc, ?_⟩)
  rw [hg]
  exact wp_bind (req_skip (Does.unlock hm) fun _ => wp_pure rfl)

theorem shutdownClose_req (desc : Option Nat) :
    wp (reqLogic T d₀ s₀ rx) t (shutdownClose desc) (fun _ g' => g' = g) g := by
  have hq : Kind.quiet ∈ reqKinds := trivial
  have hio : ∀ d, Kind.io d ∈ reqKinds := fun _ => trivial
  have hcom : Mutex.comSend ∈ reqMutexes := trivial
  cases desc with
  | none => exact wp_pure rfl
  | some d =>
    refine wp_bind (req_skip (raspikeComFlush_all hq (fun d _ => hio d) hcom) fun _ => ?_)
    refine wp_bind (req_tick ⟨fun _ => ⟨trivial, rfl⟩, fun _ => ⟨rfl, rfl⟩⟩ ?_)
    exact req_skip (rpUsbClose_all hq d) fun _ => rfl

theorem shutdownRelease_req :
    wp (reqLogic T d₀ s₀ rx) t shutdownRelease (fun _ g' => g' = closing []) (closing []) := by
  have hs : Kind.status ∈ reqKinds := trivial
  have hptr : Kind.statusPtr ∈ reqKinds := trivial
  have hl : Mutex.fgStatus ∈ reqMutexes := trivial
  refine wp_bind (req_skip (Does.lock hl) fun _ => wp_bind (req_skip (freeStatus_all hs) fun _ => ?_))
  refine wp_bind (req_skip ?_ fun _ => wp_bind (req_skip (Does.unlock hl) fun _ => ?_))
  · exact Does.modify .statusPtr hptr rfl fun m => ⟨⟨_, rfl⟩, fun _ => rfl⟩
  have hhandshake : wp (reqLogic T d₀ s₀ rx) t (modify fun m => { m with fgHandshakeComplete := false })
      (fun _ g' => g' = closing []) (closing []) :=
    req_plain (fun _ => ⟨rfl, rfl, fun _ => rfl⟩) (fun _ _ h => by cases h) fun _ => rfl
  have hv2 : wp (reqLogic T d₀ s₀ rx) t (setUseV2 false) (fun _ g' => g' = closing []) (closing []) := by
    refine req_act fun w gs hI hg hK => ⟨closing [], ?_, rfl⟩
    rw [update_self_of_eq hg]
    exact hI.useV2 false hK
  have hsession : wp (reqLogic T d₀ s₀ rx) t (setSession 0) (fun _ g' => g' = closing [])
      (closing []) := by
    refine req_act fun w gs hI hg _ => ⟨closing [], ?_, rfl⟩
    rw [update_self_of_eq hg]
    exact hI.noSession (by rw [hg]; rfl)
  exact wp_call hhandshake fun _ => wp_call hv2 fun _ => hsession

theorem raspikeProtShutdown_req :
    wp (reqLogic T d₀ s₀ rx) t raspikeProtShutdown (fun _ g' => g' = closing []) {} := by
  have hsend : Mutex.fgSend ∈ reqMutexes := trivial
  refine wp_bind (req_plain (fun _ => ⟨rfl, rfl, fun _ => rfl⟩) (fun _ _ h => ?_) fun _ => ?_)
  · cases h
    exact ⟨fun _ => ⟨trivial, rfl⟩, fun _ => ⟨rfl, rfl⟩⟩
  refine wp_seq _ shutdownTake_req ?_
  rintro desc _ rfl
  refine wp_seq _ resetPortState_shutdown ?_
  rintro _ _ rfl
  refine wp_call (shutdownClose_req desc) fun _ => ?_
  refine wp_bind (req_skip (Does.unlock hsend) fun _ => ?_)
  exact wp_call shutdownRelease_req fun _ => wp_pure rfl

/-! ## runs -/

theorem req_device (t : T) (g : ReqG) :
    (reqLogic T d₀ s₀ rx).Neutral (Acc deviceKinds) (· ∈ deviceMutexes) t g := by
  refine (req_neutral t g).mono (fun e f hacc m => ?_) fun l hl => ?_
  · obtain ⟨k, hk, hstep⟩ := hacc m
    refine ⟨k, ?_, hstep⟩
    simp only [deviceKinds, Set.mem_insert_iff, Set.mem_singleton_iff] at hk
    rcases hk with rfl | rfl | rfl | rfl <;> trivial
  · rcases hl with rfl | ⟨i, rfl⟩ <;> trivial

theorem runCall_req (c : Call) (hc : ∀ desc, c ≠ .init desc) (hrx : c = .receive → t = rx) :
    wp (reqLogic T d₀ s₀ rx) t (runCall c) (fun _ g' => g' = {}) {} := by
  have hmark : ∀ e : Event, Unseen t e → ∀ {Q : Unit → ReqG → Prop}, Q () {} →
      wp (reqLogic T d₀ s₀ rx) t (tick e) Q {} := fun e he _ hQ => req_tick he hQ
  have hcall : Unseen t (.call c) := ⟨fun _ => ⟨trivial, rfl⟩, fun _ => ⟨rfl, rfl⟩⟩
  refine wp_bind (hmark _ hcall ?_)
  have hother : ∀ {c : Call}, c ≠ .shutdown → wp (reqLogic T d₀ s₀ rx) t c.body
      (fun _ g' => g' = {}) {} → wp (reqLogic T d₀ s₀ rx) t (do
        let r ← c.body
        tick (.returned c r)) (fun _ g' => g' = {}) {} := by
    intro c hne hbody
    refine wp_call hbody fun r => hmark _ ⟨fun _ => ⟨?_, rfl⟩, fun _ => ⟨rfl, rfl⟩⟩ rfl
    cases c <;> first
      | exact (hne rfl).elim
      | trivial
  have hclient : c.isClient → wp (reqLogic T d₀ s₀ rx) t c.body (fun _ g' => g' = {}) {} :=
    body_keeps (req_device t _) raspikeProtSend_req raspikeProtSendPriority_req raspikeRequest_req
  cases c with
  | init desc => exact (hc desc rfl).elim
  | shutdown =>
    refine wp_seq (fun _ g' => g' = closing []) ?_ ?_
    · refine wp_seq _ raspikeProtShutdown_req fun r g' hg' => wp_pure hg'
    · rintro r _ rfl
      refine req_act fun w gs hI hg _ =>
        ⟨_, hI.shutdownReturned (t := t) r (by rw [hg]; rfl), ?_⟩
      rw [hg]
      rfl
  | receive =>
    cases hrx rfl
    exact hother nofun (wp_call raspikeProtReceive_req fun _ => wp_pure rfl)
  | _ => exact hother nofun (hclient rfl)

theorem client_req {calls : List Call} (hc : ∀ c ∈ calls, ∀ desc, c ≠ .init desc)
    (hrx : .receive ∈ calls → t = rx) :
    wp (reqLogic T d₀ s₀ rx) t (client calls) (fun _ g' => g' = {}) {} := by
  refine wp_forEach (fun cs g' => (∀ c ∈ cs, c ∈ calls) ∧ g' = {}) ⟨fun _ h => h, rfl⟩ ?_
    fun _ h => h.2
  rintro c cs _ ⟨hcs, rfl⟩
  refine wp_mono ?_ (runCall_req c (hc c (hcs c List.mem_cons_self)) fun h => ?_)
  · exact fun _ g' hg' => ⟨fun c' h' => hcs c' (List.mem_cons_of_mem _ h'), hg'⟩
  · subst h
    exact hrx (hcs _ List.mem_cons_self)

theorem req_start {m : Mem} (hm : Connected d₀ m) {calls : T → List Call} (hc : NoInit calls)
    (hrx : OneReceiver rx calls) :
    (reqLogic T d₀ m.fgSessionId rx).Holds (start m calls) fun _ => {} := by
  refine ⟨⟨trivial, rfl, fun _ => hm.v2, hm.quiet, nofun, fun h => (h rfl).elim, nofun, fun u => ?_⟩,
    fun u => ?_⟩
  · exact ⟨fun _ => ⟨nofun, nofun⟩, fun _ => ⟨nofun, nofun⟩, nofun, nofun, nofun, nofun, nofun, nofun,
      nofun⟩
  · exact wp_mono (fun _ _ _ => trivial) (client_req (hc u) (hrx u))

/-- **the code keeps to the machine**: in every run with one receiver, from a connected state -/
theorem requests_refine {m : Mem} (hm : Connected d₀ m) {calls : T → List Call} (hc : NoInit calls)
    (hrx : OneReceiver rx calls) {c : Sys T} (hr : Reach (start m calls) c) :
    Before d₀ m.fgSessionId c.trace ∧ ∃ gs, (reqLogic T d₀ m.fgSessionId rx).Holds c gs := by
  obtain ⟨ls, hlife⟩ := lifetime_refines hm.idle hc hr
  obtain ⟨fs, hframes⟩ := framing_refines hm.idle hm.v2 hc hrx hr
  have hK : Before d₀ m.fgSessionId c.trace :=
    ⟨hlife.legal, sequence_refines hm.next hc hr, hframes.legal⟩
  have hv := hr.via (K := Before d₀ m.fgSessionId)
    (fun _ _ h => ⟨h.life.tail, h.sequences.tail, h.frames.tail⟩) hK
  exact ⟨hK, (reqLogic T d₀ m.fgSessionId rx).reach (req_start hm hc hrx) hv⟩

end RaspikeArt
