import RaspikeArt.Model.Passes
import RaspikeArt.Lifetime.Machine

/-!
# Lifetime of a connection, part 2: the code keeps to the machine

The logic `lifeLogic` ties the machine to the memory and to the two mutexes `fgLifecycleMutex` and
`fgSendMutex`.  The ghost of a thread says which of them it holds and what it knows:

* `inside`     it is an active receiver;
* `ready`      it holds `fgLifecycleMutex` and has seen a descriptor;
* `drained`    it holds `fgLifecycleMutex` and has seen no active receiver;
* `saidStop`   it has stopped the connection;
* `early`      its call began before the stop;
* `prompt`     its send began before the stop;
* `atLock`     it has just got `fgSendMutex` for a send;
* `admitted`   it has seen a descriptor since;
* `took`       it has taken the descriptor and not yet closed it;
* `sawClosed`  it knows that the descriptor is closed.
-/

set_option linter.unusedSectionVars false

namespace RaspikeArt
open Threads

structure LifeG where
  life : Bool := false
  send : Bool := false
  inside : Bool := false
  ready : Bool := false
  drained : Bool := false
  saidStop : Bool := false
  early : Bool := false
  prompt : Bool := false
  atLock : Bool := false
  admitted : Bool := false
  took : Bool := false
  sawClosed : Bool := false

variable {T : Type} [DecidableEq T]

abbrev lifeOf (d₀ : Nat) (tr : Trace T) : Life T := (lifetime T d₀).replay .start tr

/-- what the ghost of a thread stands for -/
structure LifeLocal (a : Life T) (own : Mutex → Option T) (t : T) (g : LifeG) : Prop where
  life : own .fgLifecycle = some t ↔ g.life = true
  send : own .fgSend = some t ↔ g.send = true
  inside : t ∈ a.receivers ↔ g.inside = true
  live : g.inside = true → a.taken = false
  ready : g.ready = true → g.life = true ∧ a.taken = false
  drained : g.drained = true → g.life = true ∧ a.receivers = ∅
  saidStop : g.saidStop = true → a.stopped = true
  early : g.early = true → a.lateCall t = false
  prompt : g.prompt = true → a.lateSend t = false
  atLock : g.atLock = true → g.send = true ∧ a.lockedLive t = !a.taken
  admitted : g.admitted = true → a.lockedLive t = true ∧ (g.send = true → a.taken = false)
  took : g.took = true → g.send = true ∧ a.taken = true ∧ a.closed = false
  sawClosed : g.sawClosed = true → a.closed = true

structure LifeInv (d₀ : Nat) (w : World T Mutex Event Mem) (gs : T → LifeG) : Prop where
  legal : (lifetime T d₀).Legal .start w.trace
  desc : w.mem.fgDesc = if (lifeOf d₀ w.trace).taken then none else some d₀
  stop : (lifeOf d₀ w.trace).stopped = true → w.mem.fgStopCommunication = true
  count : w.mem.fgActiveReceivers = (lifeOf d₀ w.trace).receivers.card
  closed : (lifeOf d₀ w.trace).taken = true →
    (lifeOf d₀ w.trace).closed = true ∨ ∃ t, (gs t).took = true
  thread : ∀ t, LifeLocal (lifeOf d₀ w.trace) w.own t (gs t)

def lifeLogic (T : Type) [DecidableEq T] (d₀ : Nat) : Logic T Mutex CondVar Event Mem where
  G := LifeG
  K := fun _ => True
  I := LifeInv d₀
  A := fun _ _ _ => True

variable {d₀ : Nat} {w : World T Mutex Event Mem} {gs : T → LifeG} {t : T}

/-! ## steps that the machine does not see -/

/-- the globals the machine is about -/
structure SameLife (m m' : Mem) : Prop where
  desc : m'.fgDesc = m.fgDesc
  stop : m'.fgStopCommunication = m.fgStopCommunication
  active : m'.fgActiveReceivers = m.fgActiveReceivers

theorem Kind.Touches.sameLife {k : Kind} {m m' : Mem} (h : k.Touches m m') (hk : k ≠ .life)
    (hr : k ≠ .receivers) : SameLife m m' :=
  ⟨h.rest.desc hk, h.rest.stop hk, h.rest.active hr⟩

/-- an access that leaves the state of the machine and its globals alone -/
theorem LifeInv.same {m : Mem} {x : Option Event} (h : LifeInv d₀ w gs)
    (hm : SameLife w.mem m)
    (hx : ∀ e, x = some e → (lifeOf d₀ w.trace).Ok d₀ t e ∧
      (lifeOf d₀ w.trace).next t e = lifeOf d₀ w.trace) :
    LifeInv d₀ { w with mem := m, trace := World.push t x w.trace } gs := by
  have hrep : lifeOf d₀ (World.push t x w.trace)
      = lifeOf d₀ w.trace := by
    cases x with
    | none => rfl
    | some e => exact (hx e rfl).2
  have hleg : (lifetime T d₀).Legal .start (World.push t x w.trace) := by
    cases x with
    | none => exact h.legal
    | some e => exact ⟨(hx e rfl).1, h.legal⟩
  constructor
  · exact hleg
  · simp only [hrep]
    rw [hm.desc, h.desc]
  · simp only [hrep]
    rw [hm.stop]
    exact h.stop
  · simp only [hrep]
    rw [hm.active, h.count]
  · simpa only [hrep] using h.closed
  · simpa only [hrep] using h.thread

theorem LifeInv.sound (h : LifeInv d₀ w gs) : (lifeOf d₀ w.trace).Sound :=
  Life.Sound.of_legal h.legal

/-- input and output are still allowed -/
theorem LifeInv.not_closed (h : LifeInv d₀ w gs)
    (ht : (gs t).inside = true ∨ ((gs t).admitted = true ∧ (gs t).send = true) ∨
      (gs t).took = true) : (lifeOf d₀ w.trace).closed = false := by
  have hopen : (lifeOf d₀ w.trace).taken = false → (lifeOf d₀ w.trace).closed = false := by
    intro hf
    by_contra hc
    rw [h.sound.closed (by simpa using hc)] at hf
    cases hf
  rcases ht with ht | ⟨ha, hs⟩ | ht
  · exact hopen ((h.thread t).live ht)
  · exact hopen (((h.thread t).admitted ha).2 hs)
  · exact ((h.thread t).took ht).2.2

/-- the accesses that a thread may make without the machine moving -/
def lifeKinds (d₀ : Nat) (g : LifeG) : Set Kind
  | .quiet | .gaveUp | .pend | .finish | .dev | .seq | .status | .statusPtr | .config => True
  | .io d | .input d => d = d₀ ∧ (g.inside = true ∨ (g.admitted = true ∧ g.send = true) ∨ g.took = true)
  | .recv | .hello | .prot | .ack | .sess => g.inside = true
  | .reset => g.inside = true ∨ g.took = true ∨ g.sawClosed = true
  | .frame => g.admitted = true ∧ g.send = true
  | .call | .send | .receivers | .life | .v2 | .setup => False

theorem LifeInv.silent_event (h : LifeInv d₀ w gs) {e : Event} (hk : e.kind ∈ lifeKinds d₀ (gs t)) :
    (lifeOf d₀ w.trace).Ok d₀ t e ∧ (lifeOf d₀ w.trace).next t e = lifeOf d₀ w.trace := by
  have hin : (gs t).inside = true → t ∈ (lifeOf d₀ w.trace).receivers := (h.thread t).inside.mpr
  cases e with
  | io d k =>
    cases k with
    | receive | send | flush =>
      obtain ⟨hd, ht⟩ := hk
      exact ⟨⟨hd, h.not_closed ht⟩, rfl⟩
  | wrote d bs =>
    obtain ⟨hd, ht⟩ := hk
    exact ⟨⟨hd, h.not_closed ht⟩, rfl⟩
  | ack | v2Frame | legacyFrame | command | helloDone | capabilities | runtimeTelemetry =>
    exact ⟨hin hk, rfl⟩
  | session s => exact ⟨.inl (hin hk), rfl⟩
  | cancel | clear =>
    refine ⟨?_, rfl⟩
    rcases hk with hk | hk | hk
    · exact .inl (hin hk)
    · exact .inr ((h.thread t).took hk).2.1
    · exact .inr (h.sound.closed ((h.thread t).sawClosed hk))
  | frame =>
    obtain ⟨ha, hs⟩ := hk
    exact ⟨⟨((h.thread t).admitted ha).1, ((h.thread t).admitted ha).2 hs⟩, rfl⟩
  | drawn | pend | gaveUp | finish | devReset | statusFetch | statusUse | statusFree | statusWoken
  | configure | configured | queued | emptied => exact ⟨trivial, rfl⟩
  | call | returned | comCall | comReturned | useV2 | receiverIn | receiverOut | close | stop
  | takeDesc | sendBegin | sendLocked | sendEnd => exact hk.elim

/-- every mutex but the two of the machine -/
def lifeMutexes : Set Mutex := {l | l ≠ .fgLifecycle ∧ l ≠ .fgSend}

theorem LifeLocal.own {a : Life T} {own own' : Mutex → Option T} {g : LifeG}
    (h : LifeLocal a own t g) (h1 : own' .fgLifecycle = own .fgLifecycle)
    (h2 : own' .fgSend = own .fgSend) : LifeLocal a own' t g :=
  { h with
    life := by rw [h1]; exact h.life
    send := by rw [h2]; exact h.send }

theorem LifeInv.own (h : LifeInv d₀ w gs) {own : Mutex → Option T}
    (h1 : own .fgLifecycle = w.own .fgLifecycle) (h2 : own .fgSend = w.own .fgSend) :
    LifeInv d₀ { w with own := own } gs :=
  ⟨h.legal, h.desc, h.stop, h.count, h.closed, fun u => (h.thread u).own h1 h2⟩

theorem life_neutral (t : T) (g : LifeG) :
    (lifeLogic T d₀).Neutral (Acc (lifeKinds d₀ g)) (· ∈ lifeMutexes) t g where
  act := by
    intro e f hacc w gs hI hg _
    obtain ⟨k, hk, hstep⟩ := hacc w.mem
    have hlife : k ≠ .life := by
      rintro rfl
      exact hk
    have hrecv : k ≠ .receivers := by
      rintro rfl
      exact hk
    refine LifeInv.same hI (hstep.touches.sameLife hlife hrecv) fun e' he' => ?_
    refine LifeInv.silent_event hI ?_
    rw [hstep.label e' he', hg]
    exact hk
  acquire := by
    intro l hl w gs hI _ _
    refine LifeInv.own hI ?_ ?_
    · exact Function.update_of_ne (Ne.symm hl.1) _ _
    · exact Function.update_of_ne (Ne.symm hl.2) _ _
  release := by
    intro l hl w gs hI _
    refine LifeInv.own hI ?_ ?_
    · exact Function.update_of_ne (Ne.symm hl.1) _ _
    · exact Function.update_of_ne (Ne.symm hl.2) _ _
  places := fun _ => ⟨trivial, trivial, fun _ => trivial, trivial⟩

/-- a function whose accesses the machine does not see -/
theorem life_skip {α : Type} {p : P α} {g : LifeG} {Q : α → LifeG → Prop}
    (hp : Does (lifeKinds d₀ g) lifeMutexes p) (hQ : ∀ a, Q a g) : wp (lifeLogic T d₀) t p Q g :=
  wp_all (life_neutral t g) hp hQ

/-! ## the two mutexes -/

theorem LifeInv.relock (h : LifeInv d₀ w gs) {own : Mutex → Option T} {g' : LifeG}
    (ht : LifeLocal (lifeOf d₀ w.trace) own t g')
    (hu : ∀ u, u ≠ t → LifeLocal (lifeOf d₀ w.trace) own u (gs u))
    (htook : (gs t).took = true → g'.took = true) :
    LifeInv d₀ { w with own := own } (Function.update gs t g') := by
  refine ⟨h.legal, h.desc, h.stop, h.count, fun htaken => ?_, fun u => ?_⟩
  · rcases h.closed htaken with hc | ⟨u, hut⟩
    · exact .inl hc
    · refine .inr ⟨u, ?_⟩
      by_cases heq : u = t
      · subst heq
        simpa using htook hut
      · simpa [heq] using hut
  · by_cases hut : u = t
    · subst hut
      simpa using ht
    · simpa [hut] using hu u hut

/-- a mutex that is free, or held by another thread, is not held by `t` -/
theorem LifeLocal.life_false {a : Life T} {own : Mutex → Option T} {g : LifeG}
    (h : LifeLocal a own t g) (hne : own .fgLifecycle ≠ some t) : g.life = false := by
  by_contra hc
  exact hne (h.life.mpr (by simpa using hc))

theorem LifeLocal.send_false {a : Life T} {own : Mutex → Option T} {g : LifeG}
    (h : LifeLocal a own t g) (hne : own .fgSend ≠ some t) : g.send = false := by
  by_contra hc
  exact hne (h.send.mpr (by simpa using hc))

theorem LifeInv.acquire_life (h : LifeInv d₀ w gs) (hfree : w.own .fgLifecycle = none) :
    LifeInv d₀ (w.acquire t .fgLifecycle) (Function.update gs t { gs t with life := true }) := by
  refine h.relock ?_ (fun u hut => ?_) fun ht => ht
  · have hl := h.thread t
    exact { hl with
      life := by simp
      send := by simpa using hl.send
      ready := fun hr => ⟨rfl, (hl.ready hr).2⟩
      drained := fun hr => ⟨rfl, (hl.drained hr).2⟩ }
  · have hl := h.thread u
    have hno : (gs u).life = false := hl.life_false (by rw [hfree]; exact fun h => nomatch h)
    exact { hl with
      life := by simp [hno, Ne.symm hut]
      send := by simpa using hl.send }

theorem LifeInv.release_life (h : LifeInv d₀ w gs) (hheld : (gs t).life = true) :
    LifeInv d₀ (w.release .fgLifecycle)
      (Function.update gs t { gs t with life := false, ready := false, drained := false }) := by
  refine h.relock ?_ (fun u hut => ?_) fun ht => ht
  · have hl := h.thread t
    exact { hl with
      life := by simp
      send := by simpa using hl.send
      ready := fun hr => nomatch hr
      drained := fun hr => nomatch hr }
  · have hl := h.thread u
    have hown := (h.thread t).life.mpr hheld
    have hno : (gs u).life = false :=
      hl.life_false (by rw [hown]; simpa using Ne.symm hut)
    exact { hl with
      life := by simp [hno]
      send := by simpa using hl.send }

theorem LifeInv.acquire_send (h : LifeInv d₀ w gs) (hfree : w.own .fgSend = none)
    (hadm : (gs t).admitted = false) :
    LifeInv d₀ (w.acquire t .fgSend) (Function.update gs t { gs t with send := true }) := by
  refine h.relock ?_ (fun u hut => ?_) fun ht => ht
  · have hl := h.thread t
    exact { hl with
      life := by simpa using hl.life
      send := by simp
      atLock := fun hr => ⟨rfl, (hl.atLock hr).2⟩
      admitted := fun hr => by rw [hadm] at hr; cases hr
      took := fun hr => ⟨rfl, (hl.took hr).2⟩ }
  · have hl := h.thread u
    have hno : (gs u).send = false := hl.send_false (by rw [hfree]; exact fun h => nomatch h)
    exact { hl with
      life := by simpa using hl.life
      send := by simp [hno, Ne.symm hut] }

theorem LifeInv.release_send (h : LifeInv d₀ w gs) (hheld : (gs t).send = true)
    (htook : (gs t).took = false) :
    LifeInv d₀ (w.release .fgSend)
      (Function.update gs t { gs t with send := false, atLock := false }) := by
  refine h.relock ?_ (fun u hut => ?_) fun ht => ht
  · have hl := h.thread t
    exact { hl with
      life := by simpa using hl.life
      send := by simp
      atLock := fun hr => nomatch hr
      admitted := fun hr => ⟨(hl.admitted hr).1, fun hs => nomatch hs⟩
      took := fun hr => by rw [htook] at hr; cases hr }
  · have hl := h.thread u
    have hown := (h.thread t).send.mpr hheld
    have hno : (gs u).send = false :=
      hl.send_false (by rw [hown]; simpa using Ne.symm hut)
    exact { hl with
      life := by simpa using hl.life
      send := by simp [hno] }

/-! ## the labels of the machine -/

theorem LifeInv.event (h : LifeInv d₀ w gs) {e : Event} {m : Mem} {k : LifeG}
    (hok : (lifeOf d₀ w.trace).Ok d₀ t e)
    (hdesc : m.fgDesc = if ((lifeOf d₀ w.trace).next t e).taken then none else some d₀)
    (hstop : ((lifeOf d₀ w.trace).next t e).stopped = true → m.fgStopCommunication = true)
    (hcount : m.fgActiveReceivers = ((lifeOf d₀ w.trace).next t e).receivers.card)
    (hclosed : ((lifeOf d₀ w.trace).next t e).taken = true →
      ((lifeOf d₀ w.trace).next t e).closed = true ∨
        ∃ u, (Function.update gs t k u).took = true)
    (ht : LifeLocal ((lifeOf d₀ w.trace).next t e) w.own t k)
    (hu : ∀ u, u ≠ t → LifeLocal ((lifeOf d₀ w.trace).next t e) w.own u (gs u)) :
    LifeInv d₀ { w with mem := m, trace := (t, e) :: w.trace } (Function.update gs t k) := by
  refine ⟨⟨hok, h.legal⟩, hdesc, hstop, hcount, hclosed, fun u => ?_⟩
  by_cases hut : u = t
  · subst hut
    rw [Function.update_self]
    exact ht
  · rw [Function.update_of_ne hut]
    exact hu u hut

/-- a thread that keeps `took` keeps the invariant about the taken descriptor -/
theorem LifeInv.still_closed (h : LifeInv d₀ w gs) {g' : LifeG}
    (htook : (gs t).took = true → g'.took = true) (htaken : (lifeOf d₀ w.trace).taken = true) :
    (lifeOf d₀ w.trace).closed = true ∨ ∃ u, (Function.update gs t g' u).took = true := by
  rcases h.closed htaken with hc | ⟨u, hut⟩
  · exact .inl hc
  · refine .inr ⟨u, ?_⟩
    by_cases heq : u = t
    · subst heq
      simpa using htook hut
    · simpa [heq] using hut

theorem LifeInv.receiverIn (h : LifeInv d₀ w gs) (hready : (gs t).ready = true)
    (hout : (gs t).inside = false) :
    LifeInv d₀ (w.act t (fun _ => some .receiverIn)
        fun m => ((), { m with fgActiveReceivers := m.fgActiveReceivers + 1 }))
      (Function.update gs t { gs t with inside := true, drained := false }) := by
  have hl := h.thread t
  obtain ⟨hlife, htaken⟩ := hl.ready hready
  have hmem : t ∉ (lifeOf d₀ w.trace).receivers := fun hc => by
    rw [hl.inside.mp hc] at hout
    cases hout
  refine h.event ⟨hmem, htaken⟩ h.desc h.stop ?_ (h.still_closed fun ht => ht) ?_ fun u hut => ?_
  · show w.mem.fgActiveReceivers + 1 = ((insert t (lifeOf d₀ w.trace).receivers).card : Int)
    rw [Finset.card_insert_of_notMem hmem, h.count]
    push_cast
    rfl
  · exact { hl with
      inside := by simp [Life.next]
      live := fun _ => htaken
      drained := fun hr => nomatch hr }
  · have hu := h.thread u
    have hno : (gs u).life = false := by
      refine hu.life_false ?_
      rw [hl.life.mpr hlife]
      simpa using Ne.symm hut
    exact { hu with
      inside := by simpa [Life.next, hut] using hu.inside
      drained := fun hr => absurd (hu.drained hr).1 (by simp [hno]) }

theorem LifeInv.receiverOut (h : LifeInv d₀ w gs) (hin : (gs t).inside = true) :
    LifeInv d₀ (w.act t (fun _ => some .receiverOut)
        fun m => ((), { m with fgActiveReceivers := m.fgActiveReceivers - 1 }))
      (Function.update gs t { gs t with inside := false }) := by
  have hl := h.thread t
  have hmem : t ∈ (lifeOf d₀ w.trace).receivers := hl.inside.mpr hin
  refine h.event hmem h.desc h.stop ?_ (h.still_closed fun ht => ht) ?_ fun u hut => ?_
  · show w.mem.fgActiveReceivers - 1 = (((lifeOf d₀ w.trace).receivers.erase t).card : Int)
    have hpos : 0 < (lifeOf d₀ w.trace).receivers.card := Finset.card_pos.mpr ⟨t, hmem⟩
    rw [Finset.card_erase_of_mem hmem, h.count]
    omega
  · exact { hl with
      inside := by simp [Life.next]
      live := fun hr => nomatch hr
      drained := fun hr => by
        refine ⟨(hl.drained hr).1, ?_⟩
        show (lifeOf d₀ w.trace).receivers.erase t = ∅
        rw [(hl.drained hr).2]
        rfl }
  · have hu := h.thread u
    exact { hu with
      inside := by simpa [Life.next, hut] using hu.inside
      drained := fun hr => by
        refine ⟨(hu.drained hr).1, ?_⟩
        show (lifeOf d₀ w.trace).receivers.erase t = ∅
        rw [(hu.drained hr).2]
        rfl }

theorem LifeInv.stopped (h : LifeInv d₀ w gs) :
    LifeInv d₀ (w.act t (fun _ => some .stop)
        fun m => ((), { m with fgStopCommunication := true }))
      (Function.update gs t { gs t with saidStop := true }) := by
  refine h.event trivial h.desc (fun _ => rfl) h.count (h.still_closed fun ht => ht) ?_
    fun u hut => ?_
  · exact { h.thread t with saidStop := fun _ => rfl }
  · exact { h.thread u with saidStop := fun _ => rfl }

/-- the descriptor is there and is taken -/
theorem LifeInv.takeDesc (h : LifeInv d₀ w gs) (hready : (gs t).ready = true)
    (hdrained : (gs t).drained = true) (hsaid : (gs t).saidStop = true)
    (hsend : (gs t).send = true) (hadm : (gs t).admitted = false) (hat : (gs t).atLock = false) :
    LifeInv d₀ (w.act t (fun _ => some (.takeDesc (some d₀)))
        fun m => ((), { m with fgDesc := none }))
      (Function.update gs t { gs t with ready := false, took := true }) := by
  have hl := h.thread t
  obtain ⟨hlife, htaken⟩ := hl.ready hready
  have hempty := (hl.drained hdrained).2
  have hopen : (lifeOf d₀ w.trace).closed = false := by
    by_contra hc
    rw [h.sound.closed (by simpa using hc)] at htaken
    cases htaken
  have hnone : ∀ u, (gs u).inside ≠ true := fun u hc => by
    have hmem := (h.thread u).inside.mpr hc
    rw [hempty] at hmem
    exact absurd hmem (Finset.notMem_empty u)
  refine h.event ⟨hempty, hl.saidStop hsaid⟩ rfl h.stop h.count ?_ ?_ fun u hut => ?_
  · exact fun _ => .inr ⟨t, by simp⟩
  · exact { hl with
      live := fun hr => absurd hr (hnone t)
      ready := fun hr => nomatch hr
      atLock := fun hr => by rw [hat] at hr; cases hr
      admitted := fun hr => by rw [hadm] at hr; cases hr
      took := fun _ => ⟨hsend, rfl, hopen⟩ }
  · have hu := h.thread u
    have hnolife : (gs u).life = false :=
      hu.life_false (by rw [hl.life.mpr hlife]; simpa using Ne.symm hut)
    have hnosend : (gs u).send = false :=
      hu.send_false (by rw [hl.send.mpr hsend]; simpa using Ne.symm hut)
    exact { hu with
      live := fun hr => absurd hr (hnone u)
      ready := fun hr => absurd (hu.ready hr).1 (by simp [hnolife])
      atLock := fun hr => absurd (hu.atLock hr).1 (by simp [hnosend])
      admitted := fun hr => ⟨(hu.admitted hr).1, fun hs => by rw [hnosend] at hs; cases hs⟩
      took := fun hr => absurd (hu.took hr).1 (by simp [hnosend]) }

/-- the descriptor was taken before -/
theorem LifeInv.takeNothing (h : LifeInv d₀ w gs) (hclosed : (gs t).sawClosed = true)
    (hdrained : (gs t).drained = true) (hsaid : (gs t).saidStop = true) :
    LifeInv d₀ (w.act t (fun _ => some (.takeDesc none))
        fun m => ((), { m with fgDesc := none })) gs := by
  have hl := h.thread t
  have htaken : (lifeOf d₀ w.trace).taken = true := h.sound.closed (hl.sawClosed hclosed)
  have hnext : (lifeOf d₀ w.trace).next t (.takeDesc none) = lifeOf d₀ w.trace := by
    rw [Life.next, ← htaken]
  have hdesc : w.mem.fgDesc = none := by rw [h.desc, htaken]; rfl
  refine LifeInv.same h ⟨hdesc.symm, rfl, rfl⟩ fun e he => ?_
  cases he
  exact ⟨⟨(hl.drained hdrained).2, hl.saidStop hsaid⟩, hnext⟩

theorem LifeInv.close (h : LifeInv d₀ w gs) (htook : (gs t).took = true) :
    LifeInv d₀ (w.act t (fun _ => some (.close d₀)) fun m => ((), m))
      (Function.update gs t { gs t with took := false, sawClosed := true }) := by
  have hl := h.thread t
  obtain ⟨hsend, htaken, hopen⟩ := hl.took htook
  refine h.event ⟨rfl, htaken, hopen⟩ h.desc h.stop h.count (fun _ => .inl rfl) ?_ fun u hut => ?_
  · exact { hl with took := fun hr => (nomatch hr), sawClosed := fun _ => rfl }
  · have hu := h.thread u
    have hnosend : (gs u).send = false :=
      hu.send_false (by rw [hl.send.mpr hsend]; simpa using Ne.symm hut)
    exact { hu with
      took := fun hr => absurd (hu.took hr).1 (by simp [hnosend])
      sawClosed := fun _ => rfl }

theorem LifeInv.call (h : LifeInv d₀ w gs) (hg : (gs t).early = false) (c : Call) :
    LifeInv d₀ (w.act t (fun _ => some (.call c)) fun m => ((), m)) gs := by
  have hev := h.event (t := t) (e := .call c) (m := w.mem) (k := gs t) trivial h.desc h.stop h.count
    (h.still_closed fun ht => ht) ?_ fun u hut => ?_
  · rwa [Function.update_eq_self] at hev
  · exact { h.thread t with early := fun hr => by rw [hg] at hr; cases hr }
  · have hne : ((lifeOf d₀ w.trace).next t (.call c)).lateCall u = (lifeOf d₀ w.trace).lateCall u :=
      Function.update_of_ne hut _ _
    exact { h.thread u with early := fun hr => by rw [hne]; exact (h.thread u).early hr }

theorem LifeInv.sendBegin (h : LifeInv d₀ w gs) (hg : (gs t).prompt = false) :
    LifeInv d₀ (w.act t (fun _ => some .sendBegin) fun m => ((), m)) gs := by
  have hev := h.event (t := t) (e := .sendBegin) (m := w.mem) (k := gs t) trivial h.desc h.stop
    h.count (h.still_closed fun ht => ht) ?_ fun u hut => ?_
  · rwa [Function.update_eq_self] at hev
  · exact { h.thread t with prompt := fun hr => by rw [hg] at hr; cases hr }
  · have hne : ((lifeOf d₀ w.trace).next t .sendBegin).lateSend u = (lifeOf d₀ w.trace).lateSend u :=
      Function.update_of_ne hut _ _
    exact { h.thread u with prompt := fun hr => by rw [hne]; exact (h.thread u).prompt hr }

theorem LifeInv.sendLocked (h : LifeInv d₀ w gs) (hsend : (gs t).send = true)
    (hadm : (gs t).admitted = false) :
    LifeInv d₀ (w.act t (fun _ => some .sendLocked) fun m => ((), m))
      (Function.update gs t { gs t with atLock := true }) := by
  have hne : ∀ u, u ≠ t → ((lifeOf d₀ w.trace).next t .sendLocked).lockedLive u
      = (lifeOf d₀ w.trace).lockedLive u := fun u hut => Function.update_of_ne hut _ _
  refine h.event trivial h.desc h.stop h.count (h.still_closed fun ht => ht) ?_ fun u hut => ?_
  · exact { h.thread t with
      atLock := fun _ => ⟨hsend, by simp [Life.next]⟩
      admitted := fun hr => by rw [hadm] at hr; cases hr }
  · have hu := h.thread u
    exact { hu with
      atLock := fun hr => by rw [hne u hut]; exact hu.atLock hr
      admitted := fun hr => by rw [hne u hut]; exact hu.admitted hr }

/-- a plain read from which a thread learns something -/
theorem LifeInv.learn (h : LifeInv d₀ w gs) {g' : LifeG}
    (ht : LifeLocal (lifeOf d₀ w.trace) w.own t g')
    (htook : (gs t).took = true → g'.took = true) : LifeInv d₀ w (Function.update gs t g') :=
  h.relock ht (fun u _ => h.thread u) htook

end RaspikeArt
