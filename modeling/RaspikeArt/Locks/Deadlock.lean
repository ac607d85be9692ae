import RaspikeArt.Locks.Receivers

/-!
# Races and deadlocks

* `written_under_guard`  a guarded global changes only under its mutex, but for the device of a motor
                         that is set, and in a `raspike_prot_init`;
* `mutexes_in_hand`      nobody takes a mutex twice, or releases one he does not have, and a call
                         returns without one;
* `Apart`                while the thread that shuts down has `fgSendMutex`, nobody else has a
                         device mutex;
* `no_deadlock`          where it holds, no threads wait for each other in a circle;
* `deadlock`             a `pup_*_get_device` and a `raspike_prot_shutdown` that do;
* `Awaits`               a thread waits for a mutex of another, or a shutdown for a receiver;
* `never_stuck`          where it holds, whoever waits for a mutex waits in the end for a thread that
                         can go on, or sleeps; and where nobody connects, no shutdown sleeps without
                         a receiver that can go on, or waits for one that can.
-/

set_option linter.unusedSectionVars false

namespace RaspikeArt
open Threads

variable {T : Type} [DecidableEq T]

/-! ## guards -/

theorem written_under_guard {m : Mem} {ops : T → List LibCall} {c c' : Sys T} {ch : Choice T}
    (hr : Reach (startLib m ops) c) (hs : step c ch = some c') {x : Field}
    (hx : ¬ x.Same c.mem c'.mem) :
    ∃ t, ch = .run t ∧ (c.own x.guard = some t ∨ Bare ops t x) := by
  obtain ⟨hmem, -⟩ | ⟨t, e, f, hch, hacc, hmem, -⟩ := (orderly_lib hr).access hs
  · rw [hmem] at hx
    exact (hx (x.same_refl _)).elim
  refine ⟨t, hch, ?_⟩
  rw [hmem] at hx
  exact (hacc.guarded c.mem x).resolve_left hx

/-- a thread that makes a request and flushes the send buffer, and one that stops a motor of the same port
and asks for the telemetry -/
def guardOps : Fin 2 → List LibCall
  | 0 => [.op (.api (.request 0 96 none 0)), .op (.com (.usbBufferFlush 0))]
  | 1 => [.motor (some 0) .stop, .runtimeTelemetry true]

/-- the request is marked pending in the 8th step -/
theorem written_under_guard_run : ∃ c c' : Sys (Fin 2), Reach (startLib (freshMem [] []) guardOps) c ∧
    step c (.run 0) = some c' ∧ ¬ (Field.request 0).Same c.mem c'.mem ∧
    ∃ t, .run (0 : Fin 2) = Choice.run t ∧
      (c.own (Field.request 0).guard = some t ∨ Bare guardOps t (.request 0)) := by
  obtain ⟨c', hc'⟩ : ∃ c', exec (startLib (freshMem [] []) guardOps) (steps 7 0 ++ [.run 0]) = some c' :=
    Option.isSome_iff_exists.mp (by decide +kernel)
  obtain ⟨c, hc, hs⟩ := exec_last hc'
  have hchange : ∀ c ∈ exec (startLib (freshMem [] []) guardOps) (steps 7 0),
      ∀ c' ∈ step c (.run 0), (c'.mem.gPortDevices 0).asked ≠ (c.mem.gPortDevices 0).asked := by
    decide +kernel
  have hx := hchange c hc c' hs
  exact ⟨c, c', exec_reach hc, hs, hx, written_under_guard (x := .request 0) (exec_reach hc) hs hx⟩

theorem mutexes_in_hand {m : Mem} {ops : T → List LibCall} {c : Sys T} (hr : Reach (startLib m ops) c)
    (t : T) :
    (∀ l, (c.thr t).wants = some l → c.own l ≠ some t) ∧
    (∀ l k, c.thr t = .unlock l k → c.own l = some t) ∧
    (∀ v l k, c.thr t = .wait v l k → c.own l = some t) ∧
    (c.thr t = .ret () → ∀ l, c.own l ≠ some t) ∧
    ∀ c' x r, step c (.run t) = some c' → c'.trace = (t, .returned x r) :: c.trace →
      ∀ l, c.own l ≠ some t := by
  have horderly := orderly_lib hr
  have ht := horderly t
  refine ⟨fun l hl => (horderly.wants hl).1, fun l k hk => ?_, fun v l k hk => ?_,
    fun hk l hl => horderly.running hl hk, fun c' x r hs htr l hl => ?_⟩
  · rw [hk] at ht
    exact ht.1
  · rw [hk] at ht
    exact ht.1.1
  obtain ⟨-, hsame⟩ | ⟨u, e, f, hch, hacc, -, htr'⟩ := horderly.access hs
  · rw [hsame] at htr
    exact (List.cons_ne_self _ _ htr.symm).elim
  cases hch
  rw [htr] at htr'
  cases hlabel : e c.mem with
  | none =>
    rw [hlabel] at htr'
    exact (List.cons_ne_self _ _ htr').elim
  | some y =>
    rw [hlabel] at htr'
    have hy : .returned x r = y := (Prod.mk.inj (List.cons.inj htr').1).2
    have hempty := hacc.free c.mem y hlabel (hy ▸ rfl)
    exact Set.notMem_empty l (hempty ▸ (show l ∈ c.held t from hl))

theorem mutexes_in_hand_run : ∃ c : Sys (Fin 2),
    exec (startLib (freshMem [] []) guardOps) (steps 14 0) = some c ∧
    c.own (.request 0) = some 0 ∧ (c.thr 0).wants = some .fgSend ∧ c.own .fgSend ≠ some 0 := by
  obtain ⟨c, hc⟩ : ∃ c, exec (startLib (freshMem [] []) guardOps) (steps 14 0) = some c :=
    Option.isSome_iff_exists.mp (by decide +kernel)
  have hat : ∀ c ∈ exec (startLib (freshMem [] []) guardOps) (steps 14 0),
      c.own (.request 0) = some 0 ∧ (c.thr 0).wants = some .fgSend := by
    decide +kernel
  obtain ⟨hown, hwants⟩ := hat c hc
  exact ⟨c, hc, hown, hwants, (mutexes_in_hand (exec_reach hc) 0).1 _ hwants⟩

/-! ## circles -/

/-- while the thread `s` has `fgSendMutex`, nobody else has a device mutex -/
def Apart (s : T) (w : World T Mutex Event Mem) : Prop :=
  w.own .fgSend = some s → ∀ i u, w.own (.device i) = some u → u = s

theorem apart_ranked {D : T → Discipline Mutex Event Mem} {shuts : T → Prop} {s : T} {c : Sys T}
    (h : Orderly D c) (hD : ∀ t, ∃ bare, D t = rules bare (shuts t)) (hs : ∀ t, shuts t → t = s)
    (hapart : Apart s c.toWorld) {t u : T} {l l' : Mutex} (hl : (c.thr t).wants = some l)
    (hown : c.own l = some u) (hl' : c.own l' = some t) : l'.rank < l.rank := by
  obtain ⟨bare, hrules⟩ := hD t
  obtain ⟨hnew, htake⟩ := h.wants hl
  rw [hrules] at htake
  obtain hbelow | ⟨hshuts, hheld, i, rfl⟩ := htake
  · exact hbelow l' hl'
  -- a shutdown waits for a device mutex of somebody else
  have hts := hs t hshuts
  subst hts
  have hsend : Mutex.fgSend ∈ c.held t := hheld ▸ Set.mem_singleton _
  have hut : u = t := hapart hsend i u hown
  exact (hnew (hut ▸ hown)).elim

/-- **No deadlock**: only `s` shuts down, and where it is `Apart` no threads wait in a circle -/
theorem no_deadlock {m : Mem} {calls : T → List Call} {s : T}
    (hs : ∀ t, .shutdown ∈ calls t → t = s) {c : Sys T} (hr : Reach (start m calls) c)
    (hapart : Apart s c.toWorld) (t : T) : ¬ Relation.TransGen c.Blocks t t := by
  refine no_cycle Mutex.rank (fun t u l l' hl hown hl' => ?_) t
  exact apart_ranked (orderly hr) (fun t => ⟨_, rfl⟩) hs hapart hl hown hl'

/-- two threads that ask for the same motor, and one that shuts down -/
def crowdCalls : Fin 3 → List Call
  | 0 | 1 => [.getDevice rpCmdTypeMotor 65]
  | 2 => [.shutdown]

/-- A motor thread has its device mutex, its request mutex and that of the port, and the other one waits
for it; the shutdown has `fgLifecycleMutex`, and `fgSendMutex` is next. -/
theorem no_deadlock_run : ∃ c : Sys (Fin 3),
    exec (start (freshMem [] []) crowdCalls) (steps 10 0 ++ steps 1 1 ++ steps 5 2) = some c ∧
    c.own (.device 0) = some 0 ∧ c.own (.request 0) = some 0 ∧ c.own (.port 0) = some 0 ∧ c.Blocks 1 0 ∧
    c.own .fgLifecycle = some 2 ∧ (c.thr 2).wants = some .fgSend ∧ ∀ t, ¬ Relation.TransGen c.Blocks t t := by
  obtain ⟨c, hc⟩ : ∃ c, exec (start (freshMem [] []) crowdCalls)
      (steps 10 0 ++ steps 1 1 ++ steps 5 2) = some c :=
    Option.isSome_iff_exists.mp (by decide +kernel)
  have hat : ∀ c ∈ exec (start (freshMem [] []) crowdCalls) (steps 10 0 ++ steps 1 1 ++ steps 5 2),
      (c.own (.device 0) = some 0 ∧ c.own (.request 0) = some 0 ∧ c.own (.port 0) = some 0) ∧
      (c.thr 1).wants = some (.device 0) ∧ c.own .fgLifecycle = some 2 ∧
      (c.thr 2).wants = some .fgSend ∧ c.own .fgSend = none := by
    decide +kernel
  obtain ⟨⟨hdevice, hrequest, hport⟩, hwants, hlife, hnext, hsend⟩ := hat c hc
  have hs : ∀ t, .shutdown ∈ crowdCalls t → t = 2 := by decide
  refine ⟨c, hc, hdevice, hrequest, hport, ⟨_, hwants, hdevice⟩, hlife, hnext,
    no_deadlock hs (exec_reach hc) fun h => ?_⟩
  rw [hsend] at h
  cases h

/-- a thread that asks for a motor, and one that shuts down -/
def deadlockCalls : Fin 2 → List Call
  | 0 => [.getDevice rpCmdTypeMotor 65]
  | 1 => [.shutdown]

theorem deadlockCalls_shutdown (t : Fin 2) (h : .shutdown ∈ deadlockCalls t) : t = 1 := by
  match t, h with
  | 0, h => simp [deadlockCalls] at h
  | 1, h => rfl

/-- The motor thread has its device mutex and waits for `fgSendMutex`; the shutdown has that and
waits for the device mutex. -/
theorem deadlock : ¬ ∀ (T : Type) [DecidableEq T] (d₀ : Nat) (m : Mem) (calls : T → List Call) (s : T),
    Connected d₀ m → NoInit calls → (∀ t, .shutdown ∈ calls t → t = s) →
    ∀ c, Reach (start m calls) c → ∀ t, ¬ Relation.TransGen c.Blocks t t := by
  intro h
  obtain ⟨c, hc⟩ : ∃ c, exec (start (freshMem [] []) deadlockCalls) (steps 17 0 ++ steps 15 1) = some c :=
    Option.isSome_iff_exists.mp (by decide +kernel)
  have hat : ∀ c ∈ exec (start (freshMem [] []) deadlockCalls) (steps 17 0 ++ steps 15 1),
      (c.thr 0).wants = some .fgSend ∧ c.own .fgSend = some 1 ∧
      (c.thr 1).wants = some (.device 0) ∧ c.own (.device 0) = some 0 := by
    decide +kernel
  obtain ⟨hwants, hsend, hwants', hdevice⟩ := hat c hc
  have hinit : NoInit deadlockCalls := by
    intro t x hx desc
    match t, hx with
    | 0, hx => simp_all [deadlockCalls]
    | 1, hx => simp_all [deadlockCalls]
  refine h (Fin 2) 0 _ deadlockCalls 1 (freshMem_connected [] []) hinit deadlockCalls_shutdown c
    (exec_reach hc) 0 ?_
  exact .head ⟨_, hwants, hsend⟩ (.single ⟨_, hwants', hdevice⟩)

/-! ## progress -/

/-- `t` waits for a mutex of `u`; or it sleeps until no receiver is active, and `u` is one, or has the
mutex under which they are counted -/
def Awaits (c : Sys T) (t u : T) : Prop :=
  c.Blocks t u ∨ (c.thr t).sleepsUnder = some .fgLifecycle ∧
    (insideReceive c.trace u ∨ c.own .fgLifecycle = some u)

/-- The thread can take its next step, or it sleeps under another mutex than `fgLifecycleMutex`: in a
request or in a wait for a mode, which end at their deadline. -/
def GoesOn (c : Sys T) (t : T) : Prop :=
  (∃ c', step c (.run t) = some c') ∨ ∃ l ≠ .fgLifecycle, (c.thr t).sleepsUnder = some l

theorem alive_goesOn {c : Sys T} {t : T} (h : c.Alive t) :
    GoesOn c t ∨ (c.thr t).sleepsUnder = some .fgLifecycle := by
  obtain hstep | ⟨v, l, k, hk⟩ := h
  · exact .inl (.inl hstep)
  · have hsleeps : (c.thr t).sleepsUnder = some l := Prog.sleepsUnder_iff.mpr ⟨v, k, hk⟩
    by_cases hl : l = .fgLifecycle
    · subst hl
      exact .inr hsleeps
    · exact .inl (.inr ⟨l, hl, hsleeps⟩)

/-- whoever sleeps under `fgLifecycleMutex` has no mutex -/
theorem sleeper_free {ops : T → List LibCall} {c : Sys T} (h : Orderly (threadRules ops) c) {t : T}
    (ht : (c.thr t).sleepsUnder = some .fgLifecycle) (l : Mutex) : c.own l ≠ some t := by
  intro hl
  obtain ⟨v, k, hk⟩ := Prog.sleepsUnder_iff.mp ht
  have hobeys := h t
  rw [hk] at hobeys
  obtain ⟨⟨-, htake⟩, -⟩ := hobeys
  obtain hbelow | ⟨-, -, i, hi⟩ := htake
  · exact absurd (hbelow l hl) (Nat.not_lt_zero _)
  · cases hi

theorem never_stuck [Finite T] {m : Mem} {ops : T → List LibCall} {s : T}
    (hs : ∀ t, .op (.api .shutdown) ∈ ops t → t = s) {c : Sys T} (hr : Reach (startLib m ops) c)
    (hapart : Apart s c.toWorld) {t : T} (ht : c.thr t ≠ .ret ()) :
    (∃ u, Relation.ReflTransGen c.Blocks t u ∧ c.Alive u) ∧
    (m.fgActiveReceivers = 0 → NoInitLib ops → ∃ u, Relation.ReflTransGen (Awaits c) t u ∧ GoesOn c u) := by
  have horderly := orderly_lib hr
  have hends : ∀ {t}, c.thr t ≠ .ret () → ∃ u, Relation.ReflTransGen c.Blocks t u ∧ c.Alive u := by
    refine fun ht => exists_alive horderly (no_cycle Mutex.rank fun t u l l' hl hown hl' => ?_) ht
    exact apart_ranked horderly (fun t => ⟨_, rfl⟩) hs hapart hl hown hl'
  have hawaits : ∀ {t u}, Relation.ReflTransGen c.Blocks t u → Relation.ReflTransGen (Awaits c) t u :=
    fun h => Relation.ReflTransGen.mono (fun _ _ => Or.inl) _ _ h
  refine ⟨hends ht, fun hm hi => ?_⟩
  obtain ⟨u, htu, halive⟩ := hends ht
  obtain hgoes | hsleeps := alive_goesOn halive
  · exact ⟨u, hawaits htu, hgoes⟩
  -- the shutdown sleeps, and somebody is to wake it
  obtain ⟨hu, w, hwu, hw, hdebt⟩ := asleep_debtor hm hi hr hsleeps
  have htw : Relation.ReflTransGen (Awaits c) t w := (hawaits htu).tail (.inr ⟨hsleeps, hdebt⟩)
  obtain ⟨x, hwx, halive'⟩ := hends hw
  obtain hgoes | hsleeps' := alive_goesOn halive'
  · exact ⟨x, htw.trans (hawaits hwx), hgoes⟩
  -- that one does not wait for the shutdown, which has no mutex
  obtain ⟨hx, -⟩ := asleep_debtor hm hi hr hsleeps'
  have hxu : x = u := (hs x hx).trans (hs u hu).symm
  subst hxu
  obtain heq | ⟨y, -, l, -, hown⟩ := hwx.cases_tail
  · exact (hwu heq.symm).elim
  · exact (sleeper_free horderly hsleeps l hown).elim

/-- a request, a motor of the same port, a receiver, and a shutdown -/
def crowdOps : Fin 4 → List LibCall
  | 0 => [.op (.api (.request 0 96 none 0))]
  | 1 => [.motor (some 0) .stop]
  | 2 => [.op (.api .receive)]
  | 3 => [.op (.api .shutdown)]

/-- the motor thread waits for the request mutex of its port, and the shutdown sleeps until the receiver is
done -/
theorem never_stuck_run : ∃ c : Sys (Fin 4),
    exec (startLib (freshMem [] []) crowdOps) (steps 14 0 ++ steps 1 1 ++ steps 8 2 ++ steps 6 3) = some c ∧
    c.Blocks 1 0 ∧ (c.thr 3).sleepsUnder = some .fgLifecycle ∧ insideReceive c.trace 2 ∧
    ∀ t, (c.thr t ≠ .ret ()) → (∃ u, Relation.ReflTransGen c.Blocks t u ∧ c.Alive u) ∧
      ∃ u, Relation.ReflTransGen (Awaits c) t u ∧ GoesOn c u := by
  obtain ⟨c, hc⟩ : ∃ c, exec (startLib (freshMem [] []) crowdOps)
      (steps 14 0 ++ steps 1 1 ++ steps 8 2 ++ steps 6 3) = some c :=
    Option.isSome_iff_exists.mp (by decide +kernel)
  have hat : ∀ c ∈ exec (startLib (freshMem [] []) crowdOps)
      (steps 14 0 ++ steps 1 1 ++ steps 8 2 ++ steps 6 3),
      c.own (.request 0) = some 0 ∧ (c.thr 1).wants = some (.request 0) ∧
      (c.thr 3).sleepsUnder = some .fgLifecycle ∧ c.own .fgSend = none ∧ 2 ∈ receivers.inside c.trace := by
    decide +kernel
  obtain ⟨hown, hwants, hsleeps, hsend, hin⟩ := hat c hc
  have hs : ∀ t : Fin 4, .op (.api .shutdown) ∈ crowdOps t → t = 3 := by
    intro t ht
    match t with
    | 0 | 1 | 2 => simp [crowdOps] at ht
    | 3 => rfl
  have hi : NoInitLib crowdOps := by
    intro t desc ht
    match t with
    | 0 | 1 | 2 | 3 => simp [crowdOps] at ht
  refine ⟨c, hc, ⟨_, hwants, hown⟩, hsleeps, (receivers_inside c.trace 2).mp hin, fun t ht => ?_⟩
  have hnever := never_stuck hs (exec_reach hc) (fun h => ?_) ht
  · exact ⟨hnever.1, hnever.2 rfl hi⟩
  · rw [hsend] at h
    cases h

end RaspikeArt
