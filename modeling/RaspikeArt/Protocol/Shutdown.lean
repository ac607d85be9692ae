import RaspikeArt.Protocol.RequestsSpecs
import RaspikeArt.Model.Returns

/-!
# What a shutdown leaves behind

* `Life.Down`               the connection is stopped, taken and closed; it stays so;
* `shutdown_leaves_nobody`  after a shutdown has returned nobody waits, every send and every receive
                            that begins is refused, and nothing is written any more.
-/

set_option linter.unusedSectionVars false

namespace RaspikeArt
open Threads

variable {T : Type} [DecidableEq T] {d₀ : Nat} {s₀ : U32} {m : Mem}

/-! ## a connection that is down -/

structure Life.Down (a : Life T) : Prop where
  stopped : a.stopped = true
  closed : a.closed = true

theorem Life.Down.next {a : Life T} {t : T} {e : Event} (h : a.Down) : (a.next t e).Down := by
  cases e with
  | stop => exact ⟨rfl, h.closed⟩
  | close => exact ⟨h.stopped, rfl⟩
  | _ => exact ⟨h.stopped, h.closed⟩

theorem down_append {as bs : Trace T} (h : (lifeOf d₀ bs).Down) : (lifeOf d₀ (as ++ bs)).Down := by
  induction as with
  | nil => exact h
  | cons x as ih => exact ih.next

/-- the connection is down once a shutdown has returned -/
theorem down_of_returned {bs : Trace T} {u : T} {r : Ret}
    (h : (lifetime T d₀).Legal .start ((u, .returned .shutdown r) :: bs)) :
    (lifeOf d₀ ((u, .returned .shutdown r) :: bs)).Down := by
  have hclosed : (lifeOf d₀ bs).closed = true := h.1
  have hs := Life.Sound.of_legal h.tail
  exact ⟨hs.stopped (hs.closed hclosed), hclosed⟩

/-- a send that begins on it is late -/
theorem lateSend_append {as bs : Trace T} {t : T} (h : (lifeOf d₀ bs).Down)
    (hbegin : (t, .sendBegin) ∈ as) : (lifeOf d₀ (as ++ bs)).lateSend t = true := by
  induction as with
  | nil => cases hbegin
  | cons x as ih =>
    obtain ⟨u, e⟩ := x
    have hdown : (lifeOf d₀ (as ++ bs)).Down := down_append h
    by_cases hx : (u, e) = (t, .sendBegin)
    · cases hx
      show Function.update (lifeOf d₀ (as ++ bs)).lateSend t (lifeOf d₀ (as ++ bs)).stopped t = true
      rw [Function.update_self]
      exact hdown.stopped
    · have hold := ih ((List.mem_cons.mp hbegin).resolve_left (Ne.symm hx))
      cases e with
      | sendBegin =>
        have hut : t ≠ u := by
          rintro rfl
          exact hx rfl
        exact (Function.update_of_ne hut _ _).trans hold
      | _ => exact hold

/-- a call that begins on it is late -/
theorem lateCall_append {as bs : Trace T} {t : T} {c : Call} (h : (lifeOf d₀ bs).Down)
    (hbegin : (t, .call c) ∈ as) : (lifeOf d₀ (as ++ bs)).lateCall t = true := by
  induction as with
  | nil => cases hbegin
  | cons x as ih =>
    obtain ⟨u, e⟩ := x
    have hdown : (lifeOf d₀ (as ++ bs)).Down := down_append h
    by_cases hx : ∃ c', (u, e) = (t, .call c')
    · obtain ⟨c', hx⟩ := hx
      cases hx
      show Function.update (lifeOf d₀ (as ++ bs)).lateCall t (lifeOf d₀ (as ++ bs)).stopped t = true
      rw [Function.update_self]
      exact hdown.stopped
    · have hold := ih ((List.mem_cons.mp hbegin).resolve_left fun h => hx ⟨c, h.symm⟩)
      cases e with
      | call c' =>
        have hut : t ≠ u := by
          rintro rfl
          exact hx ⟨c', rfl⟩
        exact (Function.update_of_ne hut _ _).trans hold
      | _ => exact hold

/-- what is left to do on a connection that is down -/
theorem after_down {as bs : Trace T} (h : (lifetime T d₀).Legal .start (as ++ bs))
    (hdown : (lifeOf d₀ bs).Down) :
    (∀ as₁ as₂ t r, as = as₁ ++ (t, .sendEnd r) :: as₂ → (t, .sendBegin) ∈ as₂ → r = -ENOTCONN) ∧
    (∀ as₁ as₂ t r, as = as₁ ++ (t, .returned .receive r) :: as₂ → (t, .call .receive) ∈ as₂ →
      r = .int (-ENOTCONN)) ∧
    ∀ t d b, (t, .wrote d b) ∉ as := by
  have hguard : ∀ {as₁ as₂ : Trace T} {t : T} {e : Event}, as = as₁ ++ (t, e) :: as₂ →
      (lifeOf d₀ (as₂ ++ bs)).Ok d₀ t e := by
    rintro as₁ as₂ t e rfl
    rw [List.append_assoc, List.cons_append] at h
    exact h.guard
  refine ⟨fun as₁ as₂ t r has hbegin => ?_, fun as₁ as₂ t r has hbegin => ?_, fun t d b hmem => ?_⟩
  · by_contra hr
    have hfalse := (hguard has hr).2
    rw [lateSend_append hdown hbegin] at hfalse
    cases hfalse
  · exact hguard has (lateCall_append hdown hbegin)
  · obtain ⟨as₁, as₂, has⟩ := List.append_of_mem hmem
    have hopen := (hguard has).2
    rw [(down_append hdown).closed] at hopen
    cases hopen

/-! ## nobody waits -/

theorem swept_append {as bs : Trace T} {i : Port} (h : (portsOf s₀ bs).swept i = true) :
    (portsOf s₀ (as ++ bs)).swept i = true := by
  induction as with
  | nil => exact h
  | cons x as ih => exact Ports.next_swept ih

/-- an early request on a port that a shutdown has reset is completed -/
theorem ReqInv.swept_done {rx : T} {w : World T Mutex Event Mem} {gs : T → ReqG} {t : T} {c : CallG}
    (h : ReqInv d₀ s₀ rx w gs) (hc : (gs t).call = some c) (hearly : c.early = true)
    (hswept : (portsOf s₀ w.trace).swept c.port = true) :
    (w.mem.gPortDevices c.port).pending = false := by
  obtain ⟨st, -, hk, hs, hm⟩ := h.mine hc
  have hdone := hs.swept (hk.early hearly) hswept
  rw [hm.pending]
  cases hd : st.done with
  | none => exact (hdone hd).elim
  | some comp => rfl

/-- **A shutdown leaves nobody waiting.**  After one has returned, no request sleeps on a pending
port, and none can go to sleep; a send that begins is refused, so that its call (a request too) returns
`-ENOTCONN`, as does every call of a sender that begins; so does a receive; no byte is written any
more. -/
theorem shutdown_leaves_nobody (hm : Connected d₀ m) {calls : T → List Call} (hc : NoInit calls)
    {c : Sys T} (hr : Reach (start m calls) c) {as bs : Trace T} {u : T} {r : Ret}
    (htr : c.trace = as ++ (u, .returned .shutdown r) :: bs) :
    (∀ rx, OneReceiver rx calls → ∀ t i,
      (∀ v k, c.thr t = .blocked v (.port i) k → (c.mem.gPortDevices i).pending = false) ∧
      ∀ j k, c.thr t ≠ .wait (.port i) (.port j) k) ∧
    (∀ as₁ as₂ t r, as = as₁ ++ (t, .sendEnd r) :: as₂ → (t, .sendBegin) ∈ as₂ → r = -ENOTCONN) ∧
    (∀ as₁ as₂ t call ret, as = as₁ ++ (t, .returned call ret) :: as₂ → call.transmits = true → Attempts t as₂ →
      ret = .int (-ENOTCONN)) ∧
    (∀ as₁ as₂ t call ret, as = as₁ ++ (t, .returned call ret) :: as₂ → call.sends = true → (t, .call call) ∈ as₂ →
      ret = .int (-ENOTCONN)) ∧
    (∀ as₁ as₂ t r, as = as₁ ++ (t, .returned .receive r) :: as₂ → (t, .call .receive) ∈ as₂ →
      r = .int (-ENOTCONN)) ∧
    ∀ t d b, (t, .wrote d b) ∉ as := by
  obtain ⟨ls, hlife⟩ := lifetime_refines hm.idle hc hr
  have hlegal := hlife.legal
  rw [htr] at hlegal
  obtain ⟨hsend, hreceive, hwrote⟩ := after_down hlegal (down_of_returned hlegal.suffix)
  have hattempt : ∀ as₁ as₂ t call ret, as = as₁ ++ (t, .returned call ret) :: as₂ → call.transmits = true →
      Attempts t as₂ → ret = .int (-ENOTCONN) := by
    intro as₁ as₂ t call ret has hcall hattempt
    have hsplit : c.trace = as₁ ++ (t, .returned call ret) :: (as₂ ++ (u, .returned .shutdown r) :: bs) := by
      rw [htr, has, List.append_assoc, List.cons_append]
    obtain ⟨ws₁, ws₂, x, hws, hbegin, hret⟩ := attempt_returned hc hr hsplit hcall hattempt
    have hx : x = -ENOTCONN := by
      apply hsend (as₁ ++ (t, .returned call ret) :: ws₁) ws₂ t x _ hbegin
      rw [has, hws, List.append_assoc, List.cons_append]
    subst hx
    exact hret (by decide)
  refine ⟨fun rx hrx t i => ?_, ?_⟩
  · obtain ⟨-, gs, hI, hwp⟩ := requests_refine hm hc hrx hr
    have hlegal := hI.legal
    rw [htr] at hlegal
    have hswept : ∀ j, (portsOf m.fgSessionId c.trace).swept j = true := by
      intro j
      rw [htr]
      exact swept_append (hlegal.guard j)
    refine ⟨fun v k hk => ?_, fun j k hk => ?_⟩
    · have hat := hwp t
      rw [hk] at hat
      obtain ⟨g, hg, rfl, hearly⟩ := hat.1
      exact hI.swept_done hg hearly (hswept _)
    · have hat := hwp t
      rw [hk] at hat
      obtain ⟨g, d, hg, rfl, hearly, hport, hseen, hpending⟩ := hat.1
      obtain ⟨i', hi', hd⟩ := (hI.thread t).seen d hseen
      cases hport.symm.trans hi'
      obtain ⟨-, -, -, -, -, hpend⟩ := RPPortDevice.slot_fields hd
      rw [hpend, hI.swept_done hg hearly (hswept _)] at hpending
      cases hpending
  · refine ⟨hsend, hattempt, fun as₁ as₂ t call ret has hcall hbegin => ?_, hreceive, hwrote⟩
    have hsplit : c.trace = as₁ ++ (t, .returned call ret) :: (as₂ ++ (u, .returned .shutdown r) :: bs) := by
      rw [htr, has, List.append_assoc, List.cons_append]
    exact hattempt as₁ as₂ t call ret has (Call.transmits_of_sends hcall) (send_attempts hc hr hsplit hcall hbegin)

/-- a thread shuts the connection down, another one sends and requests after that -/
def shutdownThenSend : Bool → List Call
  | false => [.shutdown]
  | true => [.send 0 5 none 0, .request 0 5 none 0]

theorem shutdown_leaves_nobody_run : ∃ c,
    exec (start (freshMem [] []) shutdownThenSend) (steps 74 false ++ steps 38 true) = some c ∧
    (false, .returned .shutdown (.int 0)) ∈ c.trace ∧
    (true, .returned (.send 0 5 none 0) (.int (-ENOTCONN))) ∈ c.trace ∧
    (true, .returned (.request 0 5 none 0) (.int (-ENOTCONN))) ∈ c.trace ∧
    ∀ t i j k, c.thr t ≠ .wait (.port i) (.port j) k := by
  obtain ⟨c, hrun⟩ := Option.isSome_iff_exists.mp (show (exec (start (freshMem [] []) shutdownThenSend)
    (steps 74 false ++ steps 38 true)).isSome by decide +kernel)
  have hmem : ∀ c ∈ exec (start (freshMem [] []) shutdownThenSend) (steps 74 false ++ steps 38 true),
      (false, .returned .shutdown (.int 0)) ∈ c.trace ∧
      (true, .returned (.send 0 5 none 0) (.int (-ENOTCONN))) ∈ c.trace ∧
      (true, .returned (.request 0 5 none 0) (.int (-ENOTCONN))) ∈ c.trace := by
    decide +kernel
  obtain ⟨hreturned, hsent, hrequested⟩ := hmem c hrun
  have hc : NoInit shutdownThenSend := by
    intro t
    cases t <;> simp [shutdownThenSend]
  have hrx : OneReceiver false shutdownThenSend := by
    intro t
    cases t <;> simp [shutdownThenSend]
  obtain ⟨as, bs, htr⟩ := List.append_of_mem hreturned
  have hnobody := shutdown_leaves_nobody (freshMem_connected _ _) hc (exec_reach hrun) htr
  exact ⟨c, hrun, hreturned, hsent, hrequested, fun t i => (hnobody.1 false hrx t i).2⟩

end RaspikeArt
