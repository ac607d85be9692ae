import RaspikeArt.Threads.Local
import RaspikeArt.Threads.Alone
import RaspikeArt.Model.Connected

/-!
# Transport, part 1: what a device takes

* `deviceTakes`      how many of `n` bytes a device takes before `write_all_fd` ends, and whether
                     that is all of them;
* `Willing`          the answers of a device that never fails;
* `Solo`             the world of one thread; `Solo.setTx`, `Solo.wrote` are what a device does to it;
* `writeAllFd_alone` the loop of `write_all_fd`, by an invariant of what is still to be written.
-/

namespace RaspikeArt
open Threads

/-- the answers of a device to a write of `n` bytes; with `clock` the deadline is looked at next -/
def deviceTakes : Bool → List TxItem → Nat → Nat × Bool
  | _, [], n => (n, true)
  | clock, item :: tx, n =>
    if n = 0 then (0, true)
    else match item with
      | .late => if clock then (0, false) else (n, true)
      | .poll (.fail e) => if e.int = EINTR then deviceTakes false tx n else (0, false)
      | .poll _ => (0, false)
      | .fail e => if e.int = EINTR ∨ e.int = EAGAIN then deviceTakes true tx n else (0, false)
      | .accept k =>
        if k = 0 then (0, false)
        else if n ≤ k then (n, true)
        else (k + (deviceTakes true tx (n - k)).1, (deviceTakes true tx (n - k)).2)

theorem deviceTakes_zero (clock : Bool) (tx : List TxItem) : deviceTakes clock tx 0 = (0, true) := by
  cases tx <;> rfl

theorem deviceTakes_all {clock : Bool} {tx : List TxItem} {n : Nat}
    (h : (deviceTakes clock tx n).2 = true) : (deviceTakes clock tx n).1 = n := by
  induction tx generalizing clock n with
  | nil => rfl
  | cons item tx ih =>
    unfold deviceTakes at h ⊢
    split at h
    case isTrue h0 => rw [if_pos h0, h0]
    case isFalse h0 =>
    rw [if_neg h0]
    cases item with
    | late =>
      cases clock with
      | true => cases h
      | false => rfl
    | poll p =>
      cases p with
      | fail e =>
        dsimp only at h ⊢
        split at h
        case isTrue he => rw [if_pos he]; exact ih h
        case isFalse => cases h
      | timeout | hup => cases h
    | fail e =>
      dsimp only at h ⊢
      split at h
      case isTrue he => rw [if_pos he]; exact ih h
      case isFalse => cases h
    | accept k =>
      dsimp only at h ⊢
      split at h
      case isTrue => cases h
      case isFalse hk =>
      rw [if_neg hk]
      split at h
      case isTrue hle => rw [if_pos hle]
      case isFalse hle =>
        rw [if_neg hle]
        have hrest := ih h
        dsimp only
        omega

/-- the device never fails and no deadline passes: it takes some bytes, or asks to be called again -/
def Willing : TxItem → Prop
  | .accept k => k ≠ 0
  | .fail e => e.int = EINTR ∨ e.int = EAGAIN
  | .poll (.fail e) => e.int = EINTR
  | _ => False

theorem deviceTakes_willing {clock : Bool} {tx : List TxItem} (h : ∀ x ∈ tx, Willing x) (n : Nat) :
    deviceTakes clock tx n = (n, true) := by
  induction tx generalizing clock n with
  | nil => rfl
  | cons item tx ih =>
    have hitem := h item List.mem_cons_self
    have hrest : ∀ clock n, deviceTakes clock tx n = (n, true) := fun clock n =>
      ih (fun x hx => h x (List.mem_cons_of_mem _ hx)) n
    unfold deviceTakes
    split
    case isTrue h0 => rw [h0]
    case isFalse h0 =>
    cases item with
    | late => exact hitem.elim
    | poll p =>
      cases p with
      | fail e => exact (if_pos hitem).trans (hrest false n)
      | timeout | hup => exact hitem.elim
    | fail e => exact (if_pos hitem).trans (hrest true n)
    | accept k =>
      dsimp only
      rw [if_neg hitem]
      split
      · rfl
      case isFalse hle =>
      rw [hrest]
      dsimp only
      rw [Nat.add_sub_of_le (by omega)]

/-! ## the world of one thread -/

abbrev Solo := World Unit Mutex Event Mem

/-- a connected library with the saved status all zero -/
def freshWorld : Solo := ⟨freshMem [] [], fun _ => none, []⟩

/-- what a thread does by itself -/
abbrev OwnStep := Own CondVar Event Mem

/-- no own step is the end of a call -/
def Unreturned (s : OwnStep) : Prop := ∀ c r, s.label ≠ some (.returned c r)

def Event.isReturned : Option Event → Bool
  | some (.returned _ _) => true
  | _ => false

/-- a run of one thread, up to the first return from a call -/
theorem ownSteps_returned {T : Type} [DecidableEq T] {t : T} {n : Nat} {c c' : Sys T} {call : Call} {x : Ret}
    (he : exec c (steps n t) = some c')
    (hlast : (ownSteps t n c).head?.map Own.label = some (some (.returned call x)))
    (hfirst : (ownSteps t n c).tail.all fun s => !Event.isReturned s.label) :
    ∃ m m', Follows t c (.act m (some (.returned call x)) m' :: (ownSteps t n c).tail) c' ∧
      ∀ s ∈ (ownSteps t n c).tail, Unreturned s := by
  have hf : Follows t c (ownSteps t n c) c' := exec_follows he
  match hss : ownSteps t n c with
  | [] =>
    rw [hss] at hlast
    cases hlast
  | .wake v :: ss =>
    rw [hss] at hlast
    cases hlast
  | .act m y m' :: ss =>
    rw [hss] at hlast hfirst hf
    cases hlast
    refine ⟨m, m', hf, ?_⟩
    intro s hs a b hl
    have hno := List.all_eq_true.mp hfirst s hs
    rw [hl] at hno
    cases hno

/-- **A call**: when it returns, what is known of its body holds -/
theorem call_returned {T : Type} [DecidableEq T] {t : T} {c c' : Sys T} {q : Unit → P Unit} {call : Call}
    {β : Type} {p : P β} {f : β → Ret} {R : Mem → Prop} {A : List OwnStep → OwnStep → Prop}
    {Q : β → List OwnStep → Prop} {ss : List OwnStep} {m m' : Mem} {x : Ret}
    (hbody : call.body = p >>= fun b => pure (f b)) (hc : c.thr t = runCall call >>= q)
    (hf : Follows t c (.act m (some (.returned call x)) m' :: ss) c') (hfirst : ∀ s ∈ ss, Unreturned s)
    (hA : ∀ ss s, A ss s → Unreturned s) (hRm : R m) (hR : ∀ m x m', .act m x m' ∈ ss → R m)
    (hp : along (recording R A) (tick (.call call) >>= fun _ => p) Q []) : ∃ b, x = f b ∧ Q b ss := by
  have hprog : runCall call >>= q =
      (tick (.call call) >>= fun _ => p : P β).bind fun b => tick (.returned call (f b)) >>= q := by
    show (((tick (.call call) : P Unit).bind fun _ => call.body.bind fun x => tick (.returned call x))).bind q = _
    rw [hbody]
    show (((tick (.call call) : P Unit).bind fun _ => (p.bind fun b => .ret (f b)).bind fun x =>
      tick (.returned call x))).bind q = _
    rw [Prog.bind_assoc, Prog.bind_eq, Prog.bind_assoc]
    simp only [Prog.bind_assoc]
    rfl
  rw [hprog] at hc
  have hrelies : (recording R A).Relies [] (.act m (some (.returned call x)) m' :: ss) := by
    apply recording_relies
    intro a y b hmem
    obtain heq | hmem := List.mem_cons.mp hmem
    · cases heq
      exact hRm
    · exact hR a y b hmem
  have hgives : ∀ {ss}, (recording R A).Gives [] (.act m (some (.returned call x)) m' :: ss) → False :=
    fun h => hA _ _ h.2 _ _ rfl
  obtain ⟨p', -, -, hg⟩ | ⟨b, c₁, ss₁, ss₂, hss, hc₁, hv, hg, hf₂⟩ := Local.passes hf hc hp hrelies
  · exact (hgives hg).elim
  obtain ⟨rfl, -⟩ | ⟨m₀, ss', rfl⟩ := hf₂.first hc₁
  · rw [show ss₁ = _ from hss.symm] at hg
    exact (hgives hg).elim
  rw [recording_after, List.append_nil] at hv
  cases ss' with
  | nil =>
    obtain ⟨hhead, rfl⟩ := List.cons.inj hss
    cases hhead
    exact ⟨b, rfl, hv⟩
  | cons y ys =>
    obtain ⟨-, rfl⟩ := List.cons.inj hss
    have hmem : Own.act m₀ (some (.returned call (f b))) m₀ ∈
        (ys ++ [.act m₀ (some (.returned call (f b))) m₀]) ++ ss₁ :=
      List.mem_append_left _ (List.mem_append_right _ List.mem_cons_self)
    exact (hfirst _ hmem call (f b) rfl).elim

namespace Solo

def tx (w : Solo) (d : Nat) : List TxItem := (w.mem.com.desc d).tx

/-- the device has given an answer that is no write -/
def setTx (w : Solo) (d : Nat) (tx : List TxItem) : Solo :=
  { w with mem := w.mem.setDesc d fun s => { s with tx := tx } }

/-- the device has taken `bs` -/
def wrote (w : Solo) (d : Nat) (tx : List TxItem) (bs : List Byte) : Solo :=
  { w with
    mem := w.mem.setDesc d fun s => { s with tx := tx, wire := s.wire ++ bs }
    trace := ((), .wrote d bs) :: w.trace }

@[simp] theorem setTx_tx (w : Solo) (d : Nat) (tx : List TxItem) : (w.setTx d tx).tx d = tx := by
  simp [setTx, Solo.tx, Mem.setDesc]

@[simp] theorem wrote_tx (w : Solo) (d : Nat) (tx : List TxItem) (bs : List Byte) :
    (w.wrote d tx bs).tx d = tx := by
  simp [wrote, Solo.tx, Mem.setDesc]

end Solo

/-! ## the loop of `write_all_fd` -/

theorem Errno.neg_lt (e : Errno) : -e.int < 0 := by
  have := e.2
  unfold Errno.int
  omega

/-- before the deadline is looked at, and after it is found not to be over -/
theorem deviceTakes_clock {tx : List TxItem} (h : ∀ r, tx ≠ .late :: r) (n : Nat) :
    deviceTakes true tx n = deviceTakes false tx n := by
  cases tx with
  | nil => rfl
  | cons item tx =>
    cases item with
    | late => exact (h tx rfl).elim
    | poll p => cases p <;> rfl
    | fail | accept => rfl

section
variable {K P : Solo → Prop} {d : Nat} {buf : List Byte}

/-- `write_all_fd` on its way: `rest` is still to be written, and the device has answered as far as
its script says -/
structure Writing (J : List Byte → Solo → Prop) (d : Nat) (buf : List Byte) (tx₀ : List TxItem)
    (clock : Bool) (rest : List Byte) (w : Solo) : Prop where
  inv : J rest w
  drop : ∃ k, rest = buf.drop k ∧ k ≤ buf.length ∧ deviceTakes true tx₀ buf.length =
    (k + (deviceTakes clock (w.tx d) rest.length).1, (deviceTakes clock (w.tx d) rest.length).2)

/-- the result of `write_all_fd`: how much has been written is what the device takes -/
structure WriteEnd (J : List Byte → Solo → Prop) (buf : List Byte) (took : Nat × Bool) (r : Int)
    (w : Solo) : Prop where
  inv : J (buf.drop took.1) w
  ok : took.2 = true → r = buf.length
  failed : took.2 = false → r < 0

variable {J : List Byte → Solo → Prop} {tx₀ : List TxItem}

/-- the device ends the write before it takes more -/
theorem Writing.fail {clock : Bool} {rest : List Byte} {w w' : Solo} {r : Int}
    (h : Writing J d buf tx₀ clock rest w) (hfail : deviceTakes clock (w.tx d) rest.length = (0, false))
    (hJ : J rest w') (hr : r < 0) : WriteEnd J buf (deviceTakes true tx₀ buf.length) r w' := by
  obtain ⟨k, hk, -, htakes⟩ := h.drop
  rw [htakes, hfail]
  refine ⟨?_, nofun, fun _ => hr⟩
  show J (buf.drop (k + 0)) w'
  rw [Nat.add_zero, ← hk]
  exact hJ

/-- the device answers without taking anything -/
theorem Writing.next {clock clock' : Bool} {rest : List Byte} {w w' : Solo}
    (h : Writing J d buf tx₀ clock rest w)
    (hsame : deviceTakes clock (w.tx d) rest.length = deviceTakes clock' (w'.tx d) rest.length)
    (hJ : J rest w') : Writing J d buf tx₀ clock' rest w' := by
  obtain ⟨k, hk, hle, htakes⟩ := h.drop
  exact ⟨hJ, k, hk, hle, by rw [htakes, hsame]⟩

theorem Writing.took {rest : List Byte} {w w' : Solo} {n : Nat}
    (h : Writing J d buf tx₀ false rest w) (hn : n ≤ rest.length)
    (htook : deviceTakes false (w.tx d) rest.length =
      (n + (deviceTakes true (w'.tx d) (rest.length - n)).1,
        (deviceTakes true (w'.tx d) (rest.length - n)).2))
    (hJ : J (rest.drop n) w') : Writing J d buf tx₀ true (rest.drop n) w' := by
  obtain ⟨k, hk, hle, htakes⟩ := h.drop
  have hlen : rest.length = buf.length - k := by rw [hk, List.length_drop]
  refine ⟨hJ, k + n, ?_, by omega, ?_⟩
  · rw [hk, List.drop_drop]
  · rw [htakes, htook, List.length_drop]
    simp only [Nat.add_assoc]

theorem Writing.done {w : Solo} (h : Writing J d buf tx₀ true [] w) :
    WriteEnd J buf (deviceTakes true tx₀ buf.length) buf.length w := by
  obtain ⟨k, hk, hle, htakes⟩ := h.drop
  rw [htakes, List.length_nil, deviceTakes_zero]
  refine ⟨?_, fun _ => rfl, nofun⟩
  show J (buf.drop (k + 0)) w
  rw [Nat.add_zero, ← hk]
  exact h.inv

/-- `J rest` is an invariant of what is still to be written -/
structure WriteInv (K P : Solo → Prop) (d : Nat) (J : List Byte → Solo → Prop) : Prop where
  safe : ∀ rest w, J rest w → P w
  setTx : ∀ rest w item tx, J rest w → w.tx d = item :: tx → J rest (w.setTx d tx)
  wrote : ∀ rest w tx n, J rest w → tx <:+ w.tx d → rest ≠ [] → K (w.wrote d tx (rest.take n)) →
    J (rest.drop n) (w.wrote d tx (rest.take n))

theorem clockLate_alone (hJ : WriteInv K P d J) {rest : List Byte} {w : Solo}
    (h : Writing J d buf tx₀ true rest w) (hrest : rest ≠ []) :
    Alone K P (clockLate d .tx) (fun late w' =>
      if late then WriteEnd J buf (deviceTakes true tx₀ buf.length) (-ETIMEDOUT) w'
      else Writing J d buf tx₀ false rest w') w := by
  have hlen : rest.length ≠ 0 := by simpa using hrest
  by_cases hlate : ∃ tx, w.tx d = .late :: tx
  · obtain ⟨tx, htx⟩ := hlate
    have hd : (w.mem.com.desc d).tx = .late :: tx := htx
    refine alone_eval (b := true) rfl (by rw [hd]) fun _ _ => ?_
    have hJ' := hJ.setTx rest w .late tx h.inv htx
    exact ⟨hJ.safe _ _ hJ', h.fail (by rw [htx]; exact if_neg hlen) hJ' (by decide)⟩
  · have hne : ∀ tx, (w.mem.com.desc d).tx ≠ .late :: tx := fun tx htx => hlate ⟨tx, htx⟩
    refine alone_eval (b := false) (m := w.mem) rfl ?_ fun hP _ => ?_
    · split
      case h_1 tx htx => exact (hne tx htx).elim
      · rfl
    · exact ⟨hP, h.next (deviceTakes_clock hne _) h.inv⟩

theorem waitFd_alone (hJ : WriteInv K P d J) {rest : List Byte} {w : Solo}
    (h : Writing J d buf tx₀ false rest w) (hrest : rest ≠ []) :
    Alone K P (waitFd d .tx) (fun ready (w' : Solo) =>
      if ready < 0 then WriteEnd J buf (deviceTakes true tx₀ buf.length) ready w'
      else Writing J d buf tx₀ false rest w' ∧ ∀ p tx, w'.tx d ≠ .poll p :: tx) w := by
  have hlen : rest.length ≠ 0 := by simpa using hrest
  refine alone_loop (fun _ w => Writing J d buf tx₀ false rest w) h fun _ (w : Solo) h => ?_
  by_cases hpoll : ∃ p tx, w.tx d = .poll p :: tx
  · obtain ⟨p, tx, htx⟩ := hpoll
    have hd : (w.mem.com.desc d).tx = .poll p :: tx := htx
    refine alone_bind (alone_eval (b := some p) rfl (by rw [hd]) fun _ _ => ?_)
    have hJ' := hJ.setTx rest w (.poll p) tx h.inv htx
    have hfail : (∀ e, p = .fail e → e.int ≠ EINTR) →
        deviceTakes false (w.tx d) rest.length = (0, false) := by
      intro hne
      rw [htx]
      cases p with
      | fail e => exact (if_neg hlen).trans (if_neg (hne e rfl))
      | timeout | hup => exact if_neg hlen
    refine ⟨hJ.safe _ _ hJ', ?_⟩
    cases p with
    | fail e =>
      by_cases he : e.int = EINTR
      · refine alone_pure ?_
        rw [if_pos he]
        refine h.next ?_ hJ'
        rw [htx]
        exact (if_neg hlen).trans ((if_pos he).trans
          (congrArg (deviceTakes false · rest.length) (w.setTx_tx d tx).symm))
      · refine alone_pure ?_
        rw [if_neg he]
        have hr := e.neg_lt
        refine (if_pos hr).mpr (h.fail (hfail ?_) hJ' hr)
        intro e' he'
        cases he'
        exact he
    | timeout | hup =>
      refine alone_pure ((if_pos (by decide)).mpr (h.fail (hfail nofun) hJ' (by decide)))
  · have hne : ∀ p tx, (w.mem.com.desc d).tx ≠ .poll p :: tx := fun p tx htx => hpoll ⟨p, tx, htx⟩
    refine alone_bind (alone_eval (b := none) (m := w.mem) rfl ?_ fun hP _ => ?_)
    · split
      case h_1 p tx htx => exact (hne p tx htx).elim
      · rfl
    · exact ⟨hP, alone_pure ((if_neg (by decide)).mpr ⟨h, hne⟩)⟩

theorem writeFd_alone (hJ : WriteInv K P d J) {rest : List Byte} {w : Solo}
    (h : Writing J d buf tx₀ false rest w) (hrest : rest ≠ [])
    (hpoll : ∀ p tx, w.tx d ≠ .poll p :: tx) :
    Alone K P (writeFd d rest) (fun r w' =>
      (r = .ok 0 → WriteEnd J buf (deviceTakes true tx₀ buf.length) (- EIO) w') ∧
      (∀ n, n ≠ 0 → r = .ok n → Writing J d buf tx₀ true (rest.drop n) w') ∧
      (∀ e, r = .error e → if e.int = EINTR ∨ e.int = EAGAIN then Writing J d buf tx₀ true rest w'
        else WriteEnd J buf (deviceTakes true tx₀ buf.length) (-e.int) w')) w := by
  have hlen : rest.length ≠ 0 := by simpa using hrest
  -- a device that has nothing else to say takes all of it
  have hall : deviceTakes false (w.tx d) rest.length = (rest.length, true) →
      K (w.wrote d (w.tx d) rest) → P (w.wrote d (w.tx d) rest) ∧
        Writing J d buf tx₀ true (rest.drop rest.length) (w.wrote d (w.tx d) rest) := by
    intro htakes hK
    have hJ' := hJ.wrote rest w (w.tx d) rest.length h.inv (List.suffix_refl _) hrest
    rw [List.take_length] at hJ'
    refine ⟨hJ.safe _ _ (hJ' hK), h.took (Nat.le_refl _) ?_ (hJ' hK)⟩
    rw [Nat.sub_self, deviceTakes_zero, htakes]
    rfl
  cases htx : w.tx d with
  | nil =>
    have hd : (w.mem.com.desc d).tx = [] := htx
    refine alone_eval (x := some (.wrote d rest)) (b := .ok rest.length) (by rw [hd]) (by rw [hd])
      fun _ hK => ?_
    obtain ⟨hP, hw⟩ := hall (by rw [htx]; rfl) hK
    refine ⟨hP, fun h0 => ?_, fun n _ hn => ?_, nofun⟩
    · cases hlen (Except.ok.inj h0)
    · cases Except.ok.inj hn
      exact hw
  | cons item tx =>
    have hd : (w.mem.com.desc d).tx = item :: tx := htx
    cases item with
    | late =>
      refine alone_eval (x := some (.wrote d rest)) (b := .ok rest.length) (by rw [hd])
        (by rw [hd]) fun _ hK => ?_
      obtain ⟨hP, hw⟩ := hall (by rw [htx]; exact if_neg hlen) hK
      refine ⟨hP, fun h0 => ?_, fun n _ hn => ?_, nofun⟩
      · cases hlen (Except.ok.inj h0)
      · cases Except.ok.inj hn
        exact hw
    | poll p => exact (hpoll p tx htx).elim
    | fail e =>
      have hJ' := hJ.setTx rest w (.fail e) tx h.inv htx
      refine alone_eval (x := none) (b := .error e) (by rw [hd]) (by rw [hd]) fun _ _ => ?_
      refine ⟨hJ.safe _ _ hJ', nofun, nofun, fun e' he' => ?_⟩
      cases he'
      by_cases he : e.int = EINTR ∨ e.int = EAGAIN
      · rw [if_pos he]
        refine h.next ?_ hJ'
        rw [htx]
        exact (if_neg hlen).trans ((if_pos he).trans
          (congrArg (deviceTakes true · rest.length) (w.setTx_tx d tx).symm))
      · rw [if_neg he]
        exact h.fail (by rw [htx]; exact (if_neg hlen).trans (if_neg he)) hJ' e.neg_lt
    | accept k =>
      have hJ' := hJ.wrote rest w tx k h.inv (by rw [htx]; exact List.suffix_cons _ _) hrest
      refine alone_eval (x := some (.wrote d (rest.take k))) (b := .ok (min k rest.length))
        (by rw [hd]) (by rw [hd]) fun _ hK => ?_
      refine ⟨hJ.safe _ _ (hJ' hK), fun h0 => ?_, fun n hn0 hn => ?_, nofun⟩
      · have hk : k = 0 := by
          have := Except.ok.inj h0
          omega
        subst hk
        exact h.fail (by rw [htx]; exact (if_neg hlen).trans (if_pos rfl)) (hJ' hK) (by decide)
      · cases Except.ok.inj hn
        have hk : k ≠ 0 := by omega
        have hdrop : rest.drop (min k rest.length) = rest.drop k := by
          by_cases hle : rest.length ≤ k
          · rw [Nat.min_eq_right hle, List.drop_length, List.drop_of_length_le hle]
          · rw [Nat.min_eq_left (by omega)]
        refine h.took (Nat.min_le_right _ _) ?_ (by rw [hdrop]; exact hJ' hK)
        rw [htx]
        refine (if_neg hlen).trans ((if_neg hk).trans ?_)
        show (if rest.length ≤ k then (rest.length, true) else _) = (min k rest.length +
          (deviceTakes true ((w.wrote d tx (rest.take k)).tx d) (rest.length - min k rest.length)).1,
          (deviceTakes true ((w.wrote d tx (rest.take k)).tx d) (rest.length - min k rest.length)).2)
        rw [Solo.wrote_tx]
        by_cases hle : rest.length ≤ k
        · rw [if_pos hle, Nat.min_eq_right hle, Nat.sub_self, deviceTakes_zero]
          rfl
        · rw [if_neg hle, Nat.min_eq_left (by omega)]

/-- **the loop of `write_all_fd`** -/
theorem writeAllFd_alone (hJ : WriteInv K P d J) {w : Solo} (h : J buf w) :
    Alone K P (writeAllFd d buf)
      (fun r w' => WriteEnd J buf (deviceTakes true (w.tx d) buf.length) r w') w := by
  refine alone_loop (fun rest w' => Writing J d buf (w.tx d) true rest w')
    ⟨h, 0, rfl, Nat.zero_le _, by simp⟩ fun rest w' h => ?_
  by_cases hrest : rest = []
  · subst hrest
    exact alone_pure h.done
  rw [if_neg hrest]
  refine alone_seq _ (clockLate_alone hJ h hrest) fun late w' hlate => ?_
  cases late with
  | true => exact alone_pure hlate
  | false =>
  refine alone_seq _ (waitFd_alone hJ hlate hrest) fun ready w' hready => ?_
  by_cases hneg : ready < 0
  · rw [if_pos hneg] at hready ⊢
    exact alone_pure hready
  rw [if_neg hneg] at hready ⊢
  obtain ⟨hwriting, hpoll⟩ := hready
  refine alone_seq _ (writeFd_alone hJ hwriting hrest hpoll) fun r w' hr => ?_
  match r with
  | .ok 0 => exact alone_pure (hr.1 rfl)
  | .ok (n + 1) => exact alone_pure (hr.2.1 (n + 1) (Nat.succ_ne_zero n) rfl)
  | .error e =>
    have herr := hr.2.2 e rfl
    dsimp only
    split at herr
    case isTrue he => rw [if_pos he]; exact alone_pure herr
    case isFalse he => rw [if_neg he]; exact alone_pure herr

end

end RaspikeArt
