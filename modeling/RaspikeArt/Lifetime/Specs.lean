import RaspikeArt.Lifetime.Refine

/-!
# Lifetime of a connection, part 3: one specification for each function

* `sendFrame_life`, `raspikeRequest_life`   senders come and go without a trace in their ghost;
* `raspikeProtReceive_life`                 a receive that began after the stop returns `-ENOTCONN`;
* `raspikeProtShutdown_life`                a shutdown returns with the descriptor closed;
* `runCall_life`                            every call but `raspike_prot_init`.
-/

set_option linter.unusedSectionVars false

namespace RaspikeArt
open Threads

variable {T : Type} [DecidableEq T] {d₀ : Nat} {t : T} {g : LifeG}

/-- a rule about `gs t` is a rule about the ghost `g` -/
theorem life_act {α : Type} {e : Mem → Option Event} {f : Mem → α × Mem} {Q : α → LifeG → Prop}
    (h : ∀ w gs, LifeInv d₀ w gs → gs t = g →
      ∃ g', LifeInv d₀ (w.act t e f) (Function.update gs t g') ∧ Q (f w.mem).1 g') :
    wp (lifeLogic T d₀) t (.act e f .ret) Q g :=
  wp_act fun w gs hI hg _ => h w gs hI hg

theorem life_lock {Q : Unit → LifeG → Prop} (hQ : Q () { g with life := true }) :
    wp (lifeLogic T d₀) t (lock .fgLifecycle) Q g := by
  refine wp_lock trivial fun w gs hI hg hfree => ⟨_, LifeInv.acquire_life hI hfree, ?_⟩
  rw [hg]
  exact hQ

theorem life_unlock {Q : Unit → LifeG → Prop} (hg : g.life = true)
    (hQ : Q () { g with life := false, ready := false, drained := false }) :
    wp (lifeLogic T d₀) t (unlock .fgLifecycle) Q g := by
  refine wp_unlock trivial fun w gs hI hgs => ⟨_, LifeInv.release_life hI (by rw [hgs]; exact hg), ?_⟩
  rw [hgs]
  exact hQ

theorem send_lock {Q : Unit → LifeG → Prop} (hg : g.admitted = false)
    (hQ : Q () { g with send := true }) : wp (lifeLogic T d₀) t (lock .fgSend) Q g := by
  refine wp_lock trivial fun w gs hI hgs hfree =>
    ⟨_, LifeInv.acquire_send hI hfree (by rw [hgs]; exact hg), ?_⟩
  rw [hgs]
  exact hQ

theorem send_unlock {Q : Unit → LifeG → Prop} (hg : g.send = true) (ht : g.took = false)
    (hQ : Q () { g with send := false, atLock := false }) :
    wp (lifeLogic T d₀) t (unlock .fgSend) Q g := by
  refine wp_unlock trivial fun w gs hI hgs =>
    ⟨_, LifeInv.release_send hI (by rw [hgs]; exact hg) (by rw [hgs]; exact ht), ?_⟩
  rw [hgs]
  exact hQ

/-- the descriptor of a connection that is not taken -/
theorem life_desc {Q : Option Nat → LifeG → Prop}
    (hg : g.inside = true ∨ (g.admitted = true ∧ g.send = true)) (hQ : Q (some d₀) g) :
    wp (lifeLogic T d₀) t (load fun m => m.fgDesc) Q g := by
  refine wp_load fun w gs hI hgs _ => ?_
  have hl := LifeInv.thread hI t
  rw [hgs] at hl
  have htaken : (lifeOf d₀ w.trace).taken = false := by
    rcases hg with hg | ⟨ha, hs⟩
    · exact hl.live hg
    · exact (hl.admitted ha).2 hs
  rw [LifeInv.desc hI, htaken]
  exact hQ

theorem quiet_mem : Kind.quiet ∈ lifeKinds d₀ g := trivial

theorem lifeMutexes_of {l : Mutex} (h1 : l ≠ .fgLifecycle) (h2 : l ≠ .fgSend) :
    l ∈ lifeMutexes := ⟨h1, h2⟩

/-! ## senders -/

/-- the ghost of a sender that has passed the check -/
def sending : LifeG := { send := true, atLock := true, admitted := true, prompt := true }

theorem sendFrameLocked_life (port cmd : Byte) (payload : Buf) (size : Int) (sequence : U32)
    (flags : Byte) (flushNow : Bool) :
    wp (lifeLogic T d₀) t (sendFrameLocked port cmd payload size sequence flags flushNow)
      (fun _ g' => g' = sending) sending := by
  have hio : Kind.io d₀ ∈ lifeKinds d₀ sending := ⟨rfl, .inr (.inl ⟨rfl, rfl⟩)⟩
  have hcom : Mutex.comSend ∈ lifeMutexes := ⟨nofun, nofun⟩
  have hsend : ∀ buf, wp (lifeLogic T d₀) t (raspikeComSend (some d₀) buf)
      (fun _ g' => g' = sending) sending := fun buf =>
    life_skip (raspikeComSend_all quiet_mem (fun d hd => by cases hd; exact hio) hcom buf)
      fun _ => rfl
  refine wp_bind (life_skip (Does.load quiet_mem) fun v2 => wp_call ?_ fun ret => ?_)
  · split
    · unfold sendV2Frame
      split
      · exact wp_pure rfl
      refine wp_bind (life_skip ?_ fun session => wp_bind (life_desc (.inr ⟨rfl, rfl⟩) (hsend _)))
      exact Does.labelled .frame ⟨rfl, rfl⟩ (fun _ => rfl) (fun _ => rfl) (fun _ => rfl)
        fun _ _ => rfl
    · unfold sendLegacyFrame
      split
      · exact wp_pure rfl
      exact wp_bind (life_desc (.inr ⟨rfl, rfl⟩) (hsend _))
  · split
    · refine wp_bind (life_desc (.inr ⟨rfl, rfl⟩) (wp_bind (life_skip ?_ fun _ => wp_pure rfl)))
      exact raspikeComFlush_all quiet_mem (fun d hd => by cases hd; exact hio) hcom
    · exact wp_pure rfl

/-- the two looks of the check; the second one is made only when there is a descriptor -/
theorem sendCheck_life : wp (lifeLogic T d₀) t
    (orElse (load fun m => m.fgDesc.isNone) (load fun m => m.fgStopCommunication))
    (fun down g' => if down then g'.send = true ∧ g'.took = false ∧
      { g' with send := false, atLock := false, admitted := false, prompt := false } = ({} : LifeG)
      else g' = sending)
    { send := true, atLock := true } := by
  refine wp_orElse (life_act fun w gs hI hg => ?_)
  have hl := hI.thread t
  rw [hg] at hl
  obtain ⟨-, hlock⟩ := hl.atLock rfl
  by_cases htaken : (lifeOf d₀ w.trace).taken = true
  · -- the descriptor is gone
    refine ⟨{ send := true, atLock := true }, ?_, ?_⟩
    · rw [update_self_of_eq hg]
      exact hI
    · show if w.mem.fgDesc.isNone then _ else _
      rw [hI.desc, htaken]
      exact ⟨rfl, rfl, rfl⟩
  · have hfalse : (lifeOf d₀ w.trace).taken = false := by simpa using htaken
    refine ⟨{ send := true, atLock := true, admitted := true }, ?_, ?_⟩
    · exact hI.learn { hl with admitted := fun _ => ⟨by rw [hlock, hfalse]; rfl, fun _ => hfalse⟩ }
        (by rw [hg]; exact fun h => h)
    show if w.mem.fgDesc.isNone then _ else _
    rw [hI.desc, hfalse]
    refine life_act fun w gs hI hg => ?_
    have hl := hI.thread t
    rw [hg] at hl
    by_cases hstop : w.mem.fgStopCommunication = true
    · refine ⟨{ send := true, atLock := true, admitted := true }, ?_, ?_⟩
      · rw [update_self_of_eq hg]
        exact hI
      · show if w.mem.fgStopCommunication then _ else _
        rw [hstop]
        exact ⟨rfl, rfl, rfl⟩
    · have hnot : (lifeOf d₀ w.trace).stopped = false := by
        by_contra hc
        exact hstop (hI.stop (by simpa using hc))
      refine ⟨sending, ?_, ?_⟩
      · exact hI.learn { hl with prompt := fun _ => (hI.sound.prompt hnot t).2 }
          (by rw [hg]; exact fun h => h)
      · show if w.mem.fgStopCommunication then _ else _
        rw [if_neg hstop]

/-- the last label of a send: the ghost is forgotten -/
theorem sendEnd_life {r : Int} (hr : r ≠ -ENOTCONN → g.admitted = true ∧ g.prompt = true)
    (hg : { g with admitted := false, prompt := false } = ({} : LifeG)) :
    wp (lifeLogic T d₀) t (tick (.sendEnd r)) (fun _ g' => g' = {}) g := by
  refine life_act fun w gs hI hgs => ⟨{}, ?_, rfl⟩
  have hl := hI.thread t
  rw [hgs] at hl
  have hsame : LifeInv d₀ (w.act t (fun _ => some (.sendEnd r)) fun m => ((), m)) gs := by
    refine hI.same ⟨rfl, rfl, rfl⟩ fun e he => ?_
    cases he
    exact ⟨fun hne => ⟨(hl.admitted (hr hne).1).1, hl.prompt (hr hne).2⟩, rfl⟩
  refine hsame.learn ?_ ?_
  · have hl' := hsame.thread t
    rw [hgs] at hl'
    rw [← hg]
    exact { hl' with prompt := fun h => (nomatch h), admitted := fun h => (nomatch h) }
  · rw [hgs]
    intro htook
    have : g.took = false := congrArg LifeG.took hg
    rw [this] at htook
    cases htook

theorem sendFrame_life (port cmd : Byte) (payload : Buf) (size : Int) (sequence : U32)
    (flags : Byte) (flushNow : Bool) :
    wp (lifeLogic T d₀) t (sendFrame port cmd payload size sequence flags flushNow)
      (fun _ g' => g' = {}) {} := by
  refine wp_bind (life_act fun w gs hI hg => ⟨{}, ?_, ?_⟩)
  · rw [update_self_of_eq hg]
    exact hI.sendBegin (by rw [hg])
  refine wp_bind (send_lock rfl (wp_bind (life_act fun w gs hI hg => ⟨_, hI.sendLocked
    (by rw [hg]) (by rw [hg]), ?_⟩)))
  rw [hg]
  refine wp_seq _ sendCheck_life fun down g' hg' => ?_
  cases down with
  | true =>
    obtain ⟨hsend, htook, hrest⟩ := hg'
    refine wp_bind (send_unlock hsend htook (wp_seq _ (sendEnd_life (fun h => (h rfl).elim) hrest) ?_))
    exact fun _ g' hg' => wp_pure hg'
  | false =>
    cases hg'
    refine wp_call (sendFrameLocked_life _ _ _ _ _ _ _) fun ret => ?_
    refine wp_bind (send_unlock rfl rfl (wp_call ?_ fun _ => ?_))
    · split
      · exact life_skip (statsIncrement_all quiet_mem (lifeMutexes_of (by simp) (by simp)) _) fun _ => rfl
      · exact wp_pure rfl
    · exact wp_seq _ (sendEnd_life (fun _ => ⟨rfl, rfl⟩) rfl) fun _ g' hg' => wp_pure hg'

theorem raspikeProtSend_life (port cmdid : Byte) (buf : Buf) (size : Int) :
    wp (lifeLogic T d₀) t (raspikeProtSend port cmdid buf size) (fun _ g' => g' = {}) {} := by
  refine wp_bind (life_skip ?_ fun sequence => sendFrame_life _ _ _ _ _ _ _)
  exact nextSequence_all quiet_mem trivial (lifeMutexes_of nofun nofun)

theorem raspikeProtSendPriority_life (port cmdid : Byte) (buf : Buf) (size : Int) :
    wp (lifeLogic T d₀) t (raspikeProtSendPriority port cmdid buf size) (fun _ g' => g' = {}) {} := by
  refine wp_bind (life_skip ?_ fun sequence => sendFrame_life _ _ _ _ _ _ _)
  exact nextSequence_all quiet_mem trivial (lifeMutexes_of nofun nofun)

theorem requestAttempts_life (i : Port) (port cmd : Byte) (data : Buf) (size : Int)
    (sequence : U32) (n : Nat) (result : Int) :
    wp (lifeLogic T d₀) t (requestAttempts i port cmd data size sequence n result)
      (fun _ g' => g' = {}) {} := by
  have hport : Mutex.port i ∈ lifeMutexes := lifeMutexes_of nofun nofun
  have hstats : Mutex.fgLinkStats ∈ lifeMutexes := lifeMutexes_of nofun nofun
  induction n generalizing result with
  | zero => exact wp_pure rfl
  | succ n ih =>
    refine wp_bind (life_skip (Does.lock hport) fun _ => ?_)
    refine wp_bind (life_skip (Does.load quiet_mem) fun stillPending => ?_)
    refine wp_bind (life_skip (Does.unlock hport) fun _ => ?_)
    split
    · exact wp_pure rfl
    refine wp_call (sendFrame_life _ _ _ _ _ _ _) fun sent => ?_
    split
    · refine wp_bind (life_skip (Does.tick (k := .gaveUp) trivial rfl (fun _ => rfl) fun _ => rfl) fun _ => ?_)
      exact wp_pure rfl
    refine wp_bind (life_skip (requestWait_all quiet_mem trivial hport _ _ _) fun waited => ?_)
    split
    · exact wp_pure rfl
    refine wp_bind (life_skip ?_ fun _ => ih _)
    split
    · exact statsIncrement_all quiet_mem hstats _
    · exact Does.pure _

theorem raspikeRequest_life (port cmd : Byte) (data : Buf) (size : Int) :
    wp (lifeLogic T d₀) t (raspikeRequest port cmd data size) (fun _ g' => g' = {}) {} := by
  unfold raspikeRequest
  split
  · exact wp_pure rfl
  split
  · exact wp_pure rfl
  case h_2 i _ =>
    have hport : Mutex.port i ∈ lifeMutexes := lifeMutexes_of (by simp) (by simp)
    refine wp_bind (life_skip (Does.lock (lifeMutexes_of (by simp) (by simp))) fun _ => ?_)
    refine wp_bind (life_skip ?_ fun sequence => ?_)
    · exact requestBegin_all quiet_mem trivial trivial hport (lifeMutexes_of (by simp) (by simp)) cmd
    refine wp_bind (life_skip (Does.load quiet_mem) fun v2 => ?_)
    refine wp_call (requestAttempts_life _ _ _ _ _ _ _ _) fun waited => life_skip ?_ fun _ => rfl
    exact requestFinish_all quiet_mem trivial hport (lifeMutexes_of (by simp) (by simp))
      (lifeMutexes_of (by simp) (by simp)) _ _ _ _

/-! ## the receiver -/

/-- the ghost of an active receiver -/
def receiving : LifeG := { inside := true, early := true }

theorem commandKinds_receiving : commandKinds ⊆ lifeKinds d₀ receiving := by
  intro k hk
  simp only [commandKinds, Set.mem_insert_iff, Set.mem_singleton_iff] at hk
  rcases hk with rfl | rfl | rfl | rfl | rfl | rfl | rfl | rfl
  case inr.inr.inr.inr.inr.inr.inl => exact .inl rfl
  all_goals trivial

theorem commandMutexes_life : commandMutexes ⊆ lifeMutexes := by
  intro l hl
  rcases hl with ⟨i, rfl⟩ | rfl | rfl | rfl <;> exact lifeMutexes_of nofun nofun

theorem receiving_desc {Q : Option Nat → LifeG → Prop} (hQ : Q (some d₀) receiving) :
    wp (lifeLogic T d₀) t (load fun m => m.fgDesc) Q receiving :=
  life_desc (.inl rfl) hQ

theorem receiving_com (size : Nat) {Q : Except Int (List Byte) → LifeG → Prop}
    (hQ : ∀ r, Q r receiving) :
    wp (lifeLogic T d₀) t (raspikeComReceiveTimeout (some d₀) size) Q receiving :=
  life_skip (raspikeComReceiveTimeout_all quiet_mem
    (fun d hd => by cases hd; exact ⟨rfl, .inl rfl⟩) size) hQ

theorem receiving_stats (s : Stat) {Q : Unit → LifeG → Prop} (hQ : Q () receiving) :
    wp (lifeLogic T d₀) t (statsIncrement s) Q receiving :=
  life_skip (statsIncrement_all quiet_mem (lifeMutexes_of nofun nofun) s) fun _ => hQ

theorem receiveLegacyFrame_life :
    wp (lifeLogic T d₀) t receiveLegacyFrame (fun _ g' => g' = receiving) receiving := by
  refine wp_bind (receiving_desc (wp_bind (receiving_com 3 fun r => ?_)))
  cases r with
  | error e => exact wp_pure rfl
  | ok header =>
    show wp (lifeLogic T d₀) t (receiveLegacyBody header) _ _
    unfold receiveLegacyBody
    dsimp only
    split
    · exact wp_bind (receiving_stats _ (wp_pure rfl))
    refine wp_call ?_ fun received => ?_
    · split
      · exact wp_bind (receiving_desc (receiving_com _ fun _ => rfl))
      · exact wp_pure rfl
    cases received with
    | error e => exact wp_pure rfl
    | ok payload =>
      refine wp_bind (life_skip (Does.tick (k := .recv) rfl rfl (fun _ => rfl) fun _ => rfl)
        fun _ => wp_bind (receiving_stats _ ?_))
      refine wp_bind (life_skip (Does.load quiet_mem) fun session => life_skip ?_ fun _ => rfl)
      exact processCommand_all commandKinds_receiving commandMutexes_life _ _ _ _ _ _

theorem discardReceiveBytes_life (size : Nat) :
    wp (lifeLogic T d₀) t (discardReceiveBytes size) (fun _ g' => g' = receiving) receiving := by
  refine wp_loopFrom (fun _ g' => g' = receiving) rfl ?_
  rintro size g rfl
  split
  · exact wp_pure rfl
  refine wp_bind (receiving_desc (wp_bind (receiving_com _ fun r => ?_)))
  cases r <;> exact wp_pure rfl

theorem receiveV2Frame_life :
    wp (lifeLogic T d₀) t receiveV2Frame (fun _ g' => g' = receiving) receiving := by
  refine wp_bind (receiving_desc (wp_bind (receiving_com _ fun r => ?_)))
  cases r with
  | error e => exact wp_pure rfl
  | ok header =>
    show wp (lifeLogic T d₀) t (receiveV2Body header) _ _
    unfold receiveV2Body
    dsimp only
    split
    · exact wp_call (discardReceiveBytes_life _) fun _ => wp_bind (receiving_stats _ (wp_pure rfl))
    split
    · exact wp_call (discardReceiveBytes_life _) fun _ => wp_bind (receiving_stats _ (wp_pure rfl))
    refine wp_bind (receiving_desc (wp_bind (receiving_com _ fun r => ?_)))
    cases r with
    | error e => exact wp_pure rfl
    | ok rest =>
      show wp (lifeLogic T d₀) t (receiveV2Checked header rest) _ _
      unfold receiveV2Checked
      dsimp only
      split
      · exact wp_bind (receiving_stats _ (wp_pure rfl))
      refine wp_bind (life_skip (Does.tick (k := .recv) rfl rfl (fun _ => rfl) fun _ => rfl)
        fun _ => life_skip ?_ fun _ => rfl)
      exact processCommand_all commandKinds_receiving commandMutexes_life _ _ _ _ _ _

theorem receiveFrame_life :
    wp (lifeLogic T d₀) t receiveFrame (fun _ g' => g' = receiving) receiving := by
  refine wp_bind (receiving_desc (wp_bind (receiving_com _ fun r => ?_)))
  cases r with
  | error e => exact wp_pure rfl
  | ok start =>
    refine wp_call ?_ fun result => wp_call ?_ fun _ => wp_pure rfl
    · show wp (lifeLogic T d₀) t (receiveStarted (start.getD 0 0)) _ _
      unfold receiveStarted
      split
      · exact receiveV2Frame_life
      split
      · exact receiveLegacyFrame_life
      · exact wp_bind (receiving_stats _ (wp_pure rfl))
    · split
      · exact receiving_stats _ rfl
      · exact wp_pure rfl

theorem receiveDone_life :
    wp (lifeLogic T d₀) t receiveDone (fun _ g' => g' = { early := true }) receiving := by
  refine wp_bind (life_lock (wp_bind (life_act fun w gs hI hg =>
    ⟨_, hI.receiverOut (by rw [hg]; rfl), ?_⟩)))
  rw [hg]
  refine wp_bind (life_skip (Does.load quiet_mem) fun active => wp_call ?_ fun _ => ?_)
  · split
    · exact wp_broadcast rfl
    · exact wp_pure rfl
  · exact life_unlock rfl rfl

/-- the three looks of the entry check of `raspike_prot_receive` -/
theorem receiveCheck_life : wp (lifeLogic T d₀) t
    (orElse (load fun m => m.fgStopCommunication)
      (orElse (load fun m => m.fgDesc.isNone) (load fun m => !m.fgHandshakeComplete)))
    (fun down g' => if down then { g' with early := false, ready := false } = ({ life := true } : LifeG)
      else g' = { life := true, ready := true, early := true }) { life := true } := by
  refine wp_orElse (life_act fun w gs hI hg => ?_)
  have hl := hI.thread t
  rw [hg] at hl
  by_cases hstop : w.mem.fgStopCommunication = true
  · refine ⟨{ life := true }, ?_, ?_⟩
    · rw [update_self_of_eq hg]
      exact hI
    · show if w.mem.fgStopCommunication then _ else _
      rw [hstop]
      rfl
  have hnot : (lifeOf d₀ w.trace).stopped = false := by
    by_contra hc
    exact hstop (hI.stop (by simpa using hc))
  refine ⟨{ life := true, early := true }, ?_, ?_⟩
  · exact hI.learn { hl with early := fun _ => (hI.sound.prompt hnot t).1 }
      (by rw [hg]; exact fun h => h)
  show if w.mem.fgStopCommunication then _ else _
  rw [if_neg hstop]
  refine wp_orElse (life_act fun w gs hI hg => ?_)
  have hl := hI.thread t
  rw [hg] at hl
  by_cases htaken : (lifeOf d₀ w.trace).taken = true
  · refine ⟨{ life := true, early := true }, ?_, ?_⟩
    · rw [update_self_of_eq hg]
      exact hI
    · show if w.mem.fgDesc.isNone then _ else _
      rw [hI.desc, htaken]
      rfl
  · have hfalse : (lifeOf d₀ w.trace).taken = false := by simpa using htaken
    refine ⟨{ life := true, ready := true, early := true }, ?_, ?_⟩
    · exact hI.learn { hl with ready := fun _ => ⟨rfl, hfalse⟩ } (by rw [hg]; exact fun h => h)
    show if w.mem.fgDesc.isNone then _ else _
    rw [hI.desc, hfalse]
    refine life_skip (Does.load quiet_mem) fun down => ?_
    split <;> rfl

theorem raspikeProtReceive_life : wp (lifeLogic T d₀) t raspikeProtReceive
    (fun r g' => { g' with early := false } = ({} : LifeG) ∧ (g'.early = true ∨ r = -ENOTCONN)) {} := by
  refine wp_bind (life_lock (wp_seq _ receiveCheck_life fun down g' hg' => ?_))
  cases down with
  | true =>
    have hlife : g'.life = true := congrArg LifeG.life (show _ = ({ life := true } : LifeG) from hg')
    refine wp_bind (life_unlock hlife (wp_pure ⟨?_, .inr rfl⟩))
    have hrest : { g' with early := false, ready := false } = ({ life := true } : LifeG) := hg'
    obtain ⟨⟩ := g'
    simp only [LifeG.mk.injEq] at hrest ⊢
    simp_all
  | false =>
    cases hg'
    refine wp_bind (life_act fun w gs hI hg => ⟨_, hI.receiverIn (by rw [hg]) (by rw [hg]), ?_⟩)
    rw [hg]
    refine wp_bind (life_unlock rfl (wp_call receiveFrame_life fun result => ?_))
    exact wp_seq _ receiveDone_life fun _ g' hg' => wp_pure (by subst hg'; exact ⟨rfl, .inl rfl⟩)

/-! ## the shutdown -/

/-- the loop leaves with no active receiver -/
theorem awaitReceivers_life : wp (lifeLogic T d₀) t awaitReceivers
    (fun _ g' => g' = { life := true, drained := true, saidStop := true })
    { life := true, saidStop := true } := by
  refine wp_loopFrom (fun _ g' => g' = { life := true, saidStop := true }) rfl ?_
  rintro - g rfl
  refine wp_bind (life_act fun w gs hI hg => ?_)
  have hl := hI.thread t
  rw [hg] at hl
  by_cases hactive : w.mem.fgActiveReceivers > 0
  · refine ⟨{ life := true, saidStop := true }, ?_, ?_⟩
    · rw [update_self_of_eq hg]
      exact hI
    show wp (lifeLogic T d₀) t (if w.mem.fgActiveReceivers > 0 then _ else _) _ _
    rw [if_pos hactive]
    refine wp_bind (wp_condWait { saidStop := true } trivial trivial ?_ ?_)
    · intro w gs hI hg
      have := LifeInv.release_life hI (t := t) (by rw [hg])
      rwa [hg] at this
    · intro w gs hI hg hfree
      refine ⟨_, LifeInv.acquire_life hI (t := t) hfree, fun r => wp_pure ?_⟩
      rw [hg]
  · refine ⟨{ life := true, drained := true, saidStop := true }, ?_, ?_⟩
    · refine hI.learn { hl with drained := fun _ => ⟨rfl, ?_⟩ } (by rw [hg]; exact fun h => h)
      have hcount := hI.count
      exact Finset.card_eq_zero.mp (by omega)
    · show wp (lifeLogic T d₀) t (if w.mem.fgActiveReceivers > 0 then _ else _) _ _
      rw [if_neg hactive]
      exact wp_pure rfl

/-- the ghost after `shutdownTake`: the descriptor is this thread's, or already closed -/
def tookDesc (d₀ : Nat) (desc : Option Nat) (g : LifeG) : Prop :=
  (desc = some d₀ ∧ g = { send := true, saidStop := true, took := true }) ∨
    (desc = none ∧ g = { send := true, saidStop := true, sawClosed := true })

theorem shutdownTake_life : wp (lifeLogic T d₀) t shutdownTake (tookDesc d₀)
    { saidStop := true } := by
  refine wp_bind (life_lock (wp_seq _ awaitReceivers_life ?_))
  rintro - g rfl
  refine wp_bind (send_lock rfl (wp_bind (life_act fun w gs hI hg => ?_)))
  have hl := hI.thread t
  rw [hg] at hl
  by_cases htaken : (lifeOf d₀ w.trace).taken = true
  · have hclosed : (lifeOf d₀ w.trace).closed = true := by
      rcases hI.closed htaken with hc | ⟨u, hu⟩
      · exact hc
      · -- whoever has the descriptor would hold `fgSendMutex`
        have hsend := (hI.thread u).send.mpr ((hI.thread u).took hu).1
        rw [hl.send.mpr rfl] at hsend
        cases hsend
        rw [hg] at hu
        cases hu
    refine ⟨{ life := true, send := true, drained := true, saidStop := true, sawClosed := true },
      ?_, ?_⟩
    · exact hI.learn { hl with sawClosed := fun _ => hclosed } (by rw [hg]; exact fun h => h)
    have hdesc : w.mem.fgDesc = none := by rw [hI.desc, htaken]; rfl
    dsimp only
    rw [hdesc]
    refine wp_bind (life_act fun w gs hI hg => ⟨gs t, ?_, ?_⟩)
    · rw [Function.update_eq_self]
      exact hI.takeNothing (by rw [hg]) (by rw [hg]) (by rw [hg])
    · rw [hg]
      exact wp_bind (life_unlock rfl (wp_pure (.inr ⟨rfl, rfl⟩)))
  · have hfalse : (lifeOf d₀ w.trace).taken = false := by simpa using htaken
    refine ⟨{ life := true, send := true, ready := true, drained := true, saidStop := true }, ?_, ?_⟩
    · exact hI.learn { hl with ready := fun _ => ⟨rfl, hfalse⟩ } (by rw [hg]; exact fun h => h)
    have hdesc : w.mem.fgDesc = some d₀ := by rw [hI.desc, hfalse]; rfl
    dsimp only
    rw [hdesc]
    refine wp_bind (life_act fun w gs hI hg => ⟨_, hI.takeDesc (by rw [hg]) (by rw [hg]) (by rw [hg])
      (by rw [hg]) (by rw [hg]) (by rw [hg]), ?_⟩)
    rw [hg]
    exact wp_bind (life_unlock rfl (wp_pure (.inl ⟨rfl, rfl⟩)))

/-- the connection is closed and the mutex is still held -/
def closedG : LifeG := { send := true, saidStop := true, sawClosed := true }

theorem shutdownClose_life {desc : Option Nat} (hg : tookDesc d₀ desc g) :
    wp (lifeLogic T d₀) t (shutdownClose desc) (fun _ g' => g' = closedG) g := by
  rcases hg with ⟨rfl, rfl⟩ | ⟨rfl, rfl⟩
  · refine wp_bind (life_skip ?_ fun _ => wp_bind (life_act fun w gs hI hg =>
      ⟨_, hI.close (by rw [hg]), ?_⟩))
    · exact raspikeComFlush_all quiet_mem
        (fun d hd => by cases hd; exact ⟨rfl, .inr (.inr rfl)⟩) (lifeMutexes_of nofun nofun)
    · rw [hg]
      exact life_skip (rpUsbClose_all quiet_mem d₀) fun _ => rfl
  · exact wp_pure rfl

/-- an access that moves neither the machine nor its globals -/
theorem life_plain {α : Type} {e : Mem → Option Event} {f : Mem → α × Mem}
    {Q : α → LifeG → Prop} (hm : ∀ m, SameLife m (f m).2)
    (he : ∀ w gs, LifeInv d₀ w gs → gs t = g → ∀ x, e w.mem = some x →
      (lifeOf d₀ w.trace).Ok d₀ t x ∧ (lifeOf d₀ w.trace).next t x = lifeOf d₀ w.trace)
    (hQ : ∀ m, Q (f m).1 g) : wp (lifeLogic T d₀) t (.act e f .ret) Q g := by
  refine life_act fun w gs hI hg => ⟨g, ?_, hQ w.mem⟩
  rw [update_self_of_eq hg]
  exact hI.same (hm w.mem) (he w gs hI hg)

theorem shutdownRelease_life : wp (lifeLogic T d₀) t shutdownRelease
    (fun _ g' => g' = { saidStop := true, sawClosed := true })
    { saidStop := true, sawClosed := true } := by
  have hstatus : Mutex.fgStatus ∈ lifeMutexes := lifeMutexes_of nofun nofun
  refine wp_bind (life_skip (Does.lock hstatus) fun _ => ?_)
  refine wp_bind (life_skip (freeStatus_all trivial) fun _ => ?_)
  refine wp_bind (life_skip ?_ fun _ => wp_bind (life_skip (Does.unlock hstatus) fun _ => ?_))
  · exact Does.modify .statusPtr trivial rfl fun m => ⟨⟨_, rfl⟩, fun _ => rfl⟩
  refine wp_bind (life_plain (fun m => ⟨rfl, rfl, rfl⟩) (fun _ _ _ _ x hx => (nomatch hx)) fun _ => ?_)
  have htaken : ∀ w gs, LifeInv d₀ w gs → gs t = { saidStop := true, sawClosed := true } →
      (lifeOf d₀ w.trace).taken = true := fun w gs hI hg =>
    hI.sound.closed ((hI.thread t).sawClosed (by rw [hg]))
  refine wp_bind (life_plain (fun m => ⟨rfl, rfl, rfl⟩) (fun w gs hI hg x hx => ?_) fun _ => ?_)
  · cases hx
    exact ⟨⟨htaken w gs hI hg, rfl⟩, rfl⟩
  refine life_plain (fun m => ⟨rfl, rfl, rfl⟩) (fun w gs hI hg x hx => ?_) fun _ => rfl
  cases hx
  exact ⟨.inr ⟨htaken w gs hI hg, rfl⟩, rfl⟩

theorem raspikeProtShutdown_life : wp (lifeLogic T d₀) t raspikeProtShutdown
    (fun _ g' => g' = { saidStop := true, sawClosed := true }) {} := by
  refine wp_bind (life_act fun w gs hI hg => ⟨_, hI.stopped, ?_⟩)
  rw [hg]
  refine wp_seq _ shutdownTake_life fun desc g hg => wp_call (life_skip ?_ fun _ => rfl) fun _ => ?_
  · refine resetPortState_all quiet_mem ?_ (fun i => lifeMutexes_of nofun nofun) _ true
      (fun _ => trivial) fun _ i => lifeMutexes_of nofun nofun
    rcases hg with ⟨-, rfl⟩ | ⟨-, rfl⟩
    · exact .inr (.inl rfl)
    · exact .inr (.inr rfl)
  refine wp_seq _ (shutdownClose_life hg) ?_
  rintro - g' rfl
  refine wp_bind (send_unlock rfl rfl ?_)
  exact wp_seq _ shutdownRelease_life fun _ g' hg' => wp_pure hg'

/-! ## calls -/

/-- what a call leaves in the ghost, by the call -/
def Finished (c : Call) (r : Ret) (g : LifeG) : Prop :=
  { g with early := false, saidStop := false, sawClosed := false } = ({} : LifeG) ∧
    match c with
    | .receive => g.early = true ∨ r = .int (-ENOTCONN)
    | .shutdown => g.sawClosed = true
    | _ => True

theorem device_neutral (t : T) : (lifeLogic T d₀).Neutral (Acc deviceKinds) (· ∈ deviceMutexes) t {} where
  act := fun h w gs hI hg hK => (life_neutral t {}).act (fun m => by
    obtain ⟨k, hk, hstep⟩ := h m
    refine ⟨k, ?_, hstep⟩
    simp only [deviceKinds, Set.mem_insert_iff, Set.mem_singleton_iff] at hk
    rcases hk with rfl | rfl | rfl | rfl <;> trivial) w gs hI hg hK
  acquire := fun h => (life_neutral t {}).acquire (by
    rcases h with rfl | ⟨i, rfl⟩ <;> exact lifeMutexes_of (by simp) (by simp))
  release := fun h => (life_neutral t {}).release (by
    rcases h with rfl | ⟨i, rfl⟩ <;> exact lifeMutexes_of (by simp) (by simp))
  places := fun _ => ⟨trivial, trivial, fun _ => trivial, trivial⟩

theorem body_life (c : Call) (hc : ∀ desc, c ≠ .init desc) :
    wp (lifeLogic T d₀) t c.body (Finished c) {} := by
  have hclient : c.isClient → wp (lifeLogic T d₀) t c.body (fun _ g' => g' = {}) {} :=
    body_keeps (device_neutral t) raspikeProtSend_life raspikeProtSendPriority_life
      raspikeRequest_life
  cases c with
  | init desc => exact (hc desc rfl).elim
  | shutdown =>
    refine wp_seq _ raspikeProtShutdown_life ?_
    rintro r g rfl
    exact wp_pure ⟨rfl, rfl⟩
  | receive =>
    refine wp_seq _ raspikeProtReceive_life ?_
    rintro r g ⟨hg, hr⟩
    refine wp_pure ⟨?_, hr.imp_right fun h => by rw [h]⟩
    exact congrArg (fun g : LifeG => { g with saidStop := false, sawClosed := false }) hg
  | _ =>
    refine wp_mono ?_ (hclient rfl)
    rintro r g rfl
    exact ⟨rfl, trivial⟩

/-- the label of a return: the ghost is forgotten -/
theorem returned_life {c : Call} {r : Ret} (h : Finished c r g) :
    wp (lifeLogic T d₀) t (tick (.returned c r)) (fun _ g' => g' = {}) g := by
  obtain ⟨hg, hfin⟩ := h
  refine life_act fun w gs hI hgs => ⟨{}, ?_, rfl⟩
  have hl := hI.thread t
  rw [hgs] at hl
  have hok : (lifeOf d₀ w.trace).Ok d₀ t (.returned c r) := by
    cases c with
    | receive =>
      intro hlate
      rcases hfin with hearly | hr
      · rw [hl.early hearly] at hlate
        cases hlate
      · exact hr
    | shutdown => exact hl.sawClosed hfin
    | _ => trivial
  have hsame : LifeInv d₀ (w.act t (fun _ => some (.returned c r)) fun m => ((), m)) gs := by
    refine hI.same ⟨rfl, rfl, rfl⟩ fun e he => ?_
    cases he
    exact ⟨hok, by cases c <;> rfl⟩
  refine hsame.learn ?_ ?_
  · have hl' := hsame.thread t
    rw [hgs] at hl'
    rw [← hg]
    exact { hl' with
      early := fun h => (nomatch h)
      saidStop := fun h => (nomatch h)
      sawClosed := fun h => (nomatch h) }
  · rw [hgs]
    intro htook
    have : g.took = false := congrArg LifeG.took hg
    rw [this] at htook
    cases htook

theorem runCall_life (c : Call) (hc : ∀ desc, c ≠ .init desc) :
    wp (lifeLogic T d₀) t (runCall c) (fun _ g' => g' = {}) {} := by
  refine wp_bind (life_act fun w gs hI hg => ⟨{}, ?_, ?_⟩)
  · rw [update_self_of_eq hg]
    exact hI.call (by rw [hg]) c
  exact wp_seq _ (body_life c hc) fun r g hg => returned_life hg

theorem client_life (calls : List Call) (hc : ∀ c ∈ calls, ∀ desc, c ≠ .init desc) :
    wp (lifeLogic T d₀) t (client calls) (fun _ g' => g' = {}) {} := by
  induction calls with
  | nil => exact wp_pure rfl
  | cons c calls ih =>
    refine wp_call (runCall_life c (hc c List.mem_cons_self)) fun _ => ih fun c' h' => ?_
    exact hc c' (List.mem_cons_of_mem _ h')

/-- a connection with nobody at work: what the lifetime of a connection starts from -/
structure Idle (d₀ : Nat) (m : Mem) : Prop where
  desc : m.fgDesc = some d₀
  active : m.fgActiveReceivers = 0

theorem life_start {m : Mem} (hm : Idle d₀ m) {calls : T → List Call} (hc : NoInit calls) :
    (lifeLogic T d₀).Holds (start m calls) fun _ => {} := by
  refine ⟨⟨trivial, hm.desc, fun h => (nomatch h), ?_, fun h => (nomatch h), fun u => ?_⟩, fun u => ?_⟩
  · show m.fgActiveReceivers = ((∅ : Finset T).card : Int)
    rw [hm.active, Finset.card_empty]
    rfl
  · constructor <;> simp [start, Life.start]
  · exact wp_mono (fun _ _ _ => trivial) (client_life (calls u) (hc u))

/-- **the code keeps to the machine**: in every run without `raspike_prot_init` -/
theorem lifetime_refines {m : Mem} (hm : Idle d₀ m) {calls : T → List Call} (hc : NoInit calls)
    {c : Sys T} (hr : Reach (start m calls) c) :
    ∃ gs, LifeInv d₀ c.toWorld gs := by
  have hv := hr.via (K := fun _ => True) (fun _ _ h => h) trivial
  obtain ⟨gs, h⟩ := (lifeLogic T d₀).reach (life_start hm hc) hv
  exact ⟨gs, h.1⟩

end RaspikeArt
