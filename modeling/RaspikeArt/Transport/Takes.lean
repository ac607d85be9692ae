import RaspikeArt.Transport.Script

/-!
# Transport, part 19: what a peer takes

* `deviceAccepts`  whether all of a write is taken, with the answers that are left;
* `Peer.send`, `Peer.flush`, `Peer.discard`  the calls of the com layer, on a peer;
* `raspikeComSend_told`, `raspikeComFlush_told`, `raspikeComDiscardInput_told`  how they end.
-/

namespace RaspikeArt
open Threads

/-- whether the device takes all of a write of `n` bytes, and the answers it leaves; with `clock` the
deadline is looked at next -/
def deviceAccepts : Bool → List TxItem → Nat → Bool × List TxItem
  | _, [], _ => (true, [])
  | clock, item :: tx, n =>
    if n = 0 then (true, item :: tx)
    else match item with
      | .late => if clock then (false, tx) else (true, item :: tx)
      | .poll (.fail e) => if e.int = EINTR then deviceAccepts false tx n else (false, tx)
      | .poll _ => (false, tx)
      | .fail e => if Again e then deviceAccepts true tx n else (false, tx)
      | .accept k =>
        if k = 0 then (false, tx) else if n ≤ k then (true, tx) else deviceAccepts true tx (n - k)

namespace Peer

/-- whether the device takes `n` bytes -/
def write (p : Peer) (n : Nat) : Bool × Peer :=
  if p.opened then ((deviceAccepts true p.tx n).1, { p with tx := (deviceAccepts true p.tx n).2 })
  else (false, p)

/-- whether it takes what is in the send buffer, which is empty then -/
def flush (p : Peer) : Bool × Peer :=
  if p.unsent = 0 then (true, p)
  else if (p.write p.unsent).1 then (true, { (p.write p.unsent).2 with unsent := 0 })
  else (false, (p.write p.unsent).2)

/-- whether `n` bytes go out, or into the send buffer -/
def send (p : Peer) (n : Nat) : Bool × Peer :=
  if p.mode = .buffered then
    if p.unsent + n > rpSendBufferSize then (false, p) else (true, { p with unsent := p.unsent + n })
  else p.write n

/-- the input is discarded -/
def discard (p : Peer) : Peer :=
  if p.opened then match p.discards with
    | .error _ :: rest => { p with discards := rest }
    | .ok n :: rest => { p with discards := rest, rx := p.rx.drop n }
    | [] => p
  else p

end Peer

section
variable {d : Nat} {p : Peer} {w : Solo}

theorem Faces.tx (h : Faces d p w) (tx : List TxItem) (wire : List Byte) {m : Mem} {tr : Trace Unit}
    (hm : m = w.mem.setDesc d fun s => { s with tx := tx, wire := wire }) :
    Faces d { p with tx := tx } { w with mem := m, trace := tr } := by
  refine ⟨(congrArg Mem.fgDesc hm).trans h.desc, ?_⟩
  rw [← h.peer]
  simp [hm, Mem.peer, Mem.setDesc]

theorem Faces.tx_eq (h : Faces d p w) : (w.mem.com.desc d).tx = p.tx := congrArg Peer.tx h.peer

end

/-! ## a write -/

theorem deviceAccepts_zero (clock : Bool) (tx : List TxItem) : deviceAccepts clock tx 0 = (true, tx) := by
  cases tx <;> rfl

section
variable {n : Nat} {tx : List TxItem}

/-- a deadline that is not over makes no difference -/
theorem deviceAccepts_clock (h : ∀ r, tx ≠ .late :: r) :
    deviceAccepts true tx n = deviceAccepts false tx n := by
  cases tx with
  | nil => rfl
  | cons x tx =>
    cases x with
    | late => exact (h tx rfl).elim
    | poll q => cases q <;> rfl
    | fail | accept => rfl

variable (hn : n ≠ 0)
include hn

theorem deviceAccepts_late : deviceAccepts true (.late :: tx) n = (false, tx) := if_neg hn

theorem deviceAccepts_ready : deviceAccepts false (.late :: tx) n = (true, .late :: tx) := if_neg hn

theorem deviceAccepts_timeout : deviceAccepts false (.poll .timeout :: tx) n = (false, tx) := if_neg hn

theorem deviceAccepts_hup : deviceAccepts false (.poll .hup :: tx) n = (false, tx) := if_neg hn

theorem deviceAccepts_poll {e : Errno} : deviceAccepts false (.poll (.fail e) :: tx) n =
    if e.int = EINTR then deviceAccepts false tx n else (false, tx) := if_neg hn

theorem deviceAccepts_fail {e : Errno} : deviceAccepts false (.fail e :: tx) n =
    if Again e then deviceAccepts true tx n else (false, tx) := if_neg hn

theorem deviceAccepts_accept {k : Nat} : deviceAccepts false (.accept k :: tx) n =
    if k = 0 then (false, tx) else if n ≤ k then (true, tx) else deviceAccepts true tx (n - k) := if_neg hn

end

/-- some answers of `p` to writes are left, and what is known of the result -/
def Unused (d : Nat) (p : Peer) {α : Type} (Q : α → List TxItem → Prop) (a : α) (w : Solo) : Prop :=
  ∃ tx, Faces d { p with tx := tx } w ∧ Q a tx

/-- a `write` comes back, on the way to `D` -/
def WroteAs (n : Nat) (D : Bool × List TxItem) : Except Errno Nat → List TxItem → Prop
  | .ok k, tx => if k = 0 then D = (false, tx) else D = deviceAccepts true tx (n - k)
  | .error e, tx => if Again e then D = deviceAccepts true tx n else D = (false, tx)

section
variable {d n : Nat} {p : Peer} {w : Solo}

theorem clockLate_accepts (h : Faces d p w) : Settles (clockLate d .tx) w (Unused d p fun late tx =>
    late = true ∧ p.tx = .late :: tx ∨ late = false ∧ tx = p.tx ∧ ∀ r, tx ≠ .late :: r) := by
  have hd := h.tx_eq
  by_cases hlate : ∃ r, p.tx = .late :: r
  · obtain ⟨r, hr⟩ := hlate
    apply settle_eval (b := true) rfl (by rw [hd, hr])
    exact ⟨r, h.tx r (w.mem.com.desc d).wire rfl, .inl ⟨rfl, hr⟩⟩
  · have hne : ∀ r, p.tx ≠ .late :: r := fun r hr => hlate ⟨r, hr⟩
    apply settle_eval (b := false) (m := w.mem) rfl
    · rw [hd]
      split
      case h_1 r hr => exact (hne r hr).elim
      · rfl
    · exact ⟨p.tx, h, .inr ⟨rfl, rfl, hne⟩⟩

theorem waitFd_accepts (hn : n ≠ 0) (h : Faces d p w) : Settles (waitFd d .tx) w (Unused d p fun r tx =>
    r = 0 ∧ deviceAccepts false p.tx n = deviceAccepts false tx n ∧ (∀ q more, tx ≠ .poll q :: more) ∨
      r < 0 ∧ deviceAccepts false p.tx n = (false, tx)) := by
  apply settle_loop (fun _ => Unused d p (fun (_ : Unit) tx =>
    deviceAccepts false p.tx n = deviceAccepts false tx n) ()) ⟨p.tx, h, rfl⟩
  rintro _ w' ⟨tx, h', htx⟩
  have hd := h'.tx_eq
  apply settle_bind
  by_cases hpoll : ∃ q more, tx = .poll q :: more
  · obtain ⟨q, more, rfl⟩ := hpoll
    apply settle_eval (b := some q) rfl (by rw [hd])
    have h₁ : Faces d { p with tx := more } ⟨w'.mem.setDesc d fun s => { s with tx := more }, w'.own, w'.trace⟩ :=
      h'.tx more (w'.mem.com.desc d).wire rfl
    cases q with
    | timeout =>
      exact settle_pure ⟨more, h₁, .inr ⟨by decide, htx.trans (deviceAccepts_timeout hn)⟩⟩
    | hup => exact settle_pure ⟨more, h₁, .inr ⟨by decide, htx.trans (deviceAccepts_hup hn)⟩⟩
    | fail e =>
      rw [deviceAccepts_poll hn] at htx
      apply settle_pure
      by_cases hintr : e.int = EINTR
      · rw [if_pos hintr]
        rw [if_pos hintr] at htx
        exact ⟨more, h₁, htx⟩
      · rw [if_neg hintr]
        rw [if_neg hintr] at htx
        exact ⟨more, h₁, .inr ⟨e.neg_lt, htx⟩⟩
  · have hne : ∀ q more, tx ≠ .poll q :: more := fun q more hq => hpoll ⟨q, more, hq⟩
    apply settle_eval (b := none) (m := w'.mem) rfl
    · rw [hd]
      split
      case h_1 q more hq => exact (hne q more hq).elim
      · rfl
    · exact settle_pure ⟨tx, h', .inl ⟨rfl, htx, hne⟩⟩

theorem writeFd_accepts {buf : List Byte} (hbuf : buf ≠ []) (hpoll : ∀ q more, p.tx ≠ .poll q :: more)
    (h : Faces d p w) : Settles (writeFd d buf) w
      (Unused d p (WroteAs buf.length (deviceAccepts false p.tx buf.length))) := by
  have hd := h.tx_eq
  have hn : buf.length ≠ 0 := fun hz => hbuf (List.eq_nil_of_length_eq_zero hz)
  -- the device takes what is left
  have hall : deviceAccepts false p.tx buf.length = (true, p.tx) →
      WroteAs buf.length (deviceAccepts false p.tx buf.length) (.ok buf.length) p.tx := by
    intro hD
    unfold WroteAs
    dsimp only
    rw [if_neg hn, Nat.sub_self, deviceAccepts_zero, hD]
  cases htx : p.tx with
  | nil =>
    apply settle_eval rfl (by rw [hd, htx])
    exact ⟨p.tx, h.tx p.tx ((w.mem.com.desc d).wire ++ buf) (by rw [← hd]; rfl),
      htx ▸ hall (by rw [htx, deviceAccepts])⟩
  | cons x tx =>
    cases x with
    | poll q => exact (hpoll q tx htx).elim
    | late =>
      apply settle_eval rfl (by rw [hd, htx])
      exact ⟨p.tx, h.tx p.tx ((w.mem.com.desc d).wire ++ buf) (by rw [← hd]; rfl),
        htx ▸ hall (by rw [htx, deviceAccepts_ready hn])⟩
    | fail e =>
      apply settle_eval (b := .error e) rfl (by rw [hd, htx])
      refine ⟨tx, h.tx tx (w.mem.com.desc d).wire rfl, ?_⟩
      unfold WroteAs
      dsimp only
      rw [deviceAccepts_fail hn]
      split <;> rfl
    | accept k =>
      apply settle_eval (b := .ok (min k buf.length)) rfl (by rw [hd, htx])
      refine ⟨tx, h.tx tx ((w.mem.com.desc d).wire ++ buf.take k) rfl, ?_⟩
      unfold WroteAs
      dsimp only
      rw [deviceAccepts_accept hn]
      by_cases hk : k = 0
      · rw [if_pos hk, if_pos (by omega)]
      rw [if_neg hk, if_neg (by omega)]
      by_cases hle : buf.length ≤ k
      · rw [if_pos hle, Nat.min_eq_right hle, Nat.sub_self, deviceAccepts_zero]
      · rw [if_neg hle, Nat.min_eq_left (by omega)]

theorem writeAllFd_accepts {buf : List Byte} (h : Faces d p w) :
    Settles (writeAllFd d buf) w (Unused d p fun r tx =>
      deviceAccepts true p.tx buf.length = (decide (0 ≤ r), tx)) := by
  apply settle_loop (fun rest => Unused d p (fun (_ : Unit) tx =>
    deviceAccepts true p.tx buf.length = deviceAccepts true tx rest.length) ()) ⟨p.tx, h, rfl⟩
  rintro rest w₁ ⟨tx₁, h₁, htx₁⟩
  have hfails : ∀ {r : Int} {tx : List TxItem}, r < 0 →
      deviceAccepts true p.tx buf.length = (false, tx) →
      deviceAccepts true p.tx buf.length = (decide (0 ≤ r), tx) := fun hr hD => by
    rw [hD, decide_eq_false (Int.not_le.mpr hr)]
  by_cases hrest : rest = []
  · rw [if_pos hrest]
    refine settle_pure ⟨tx₁, h₁, ?_⟩
    show _ = (decide ((0 : Int) ≤ buf.length), tx₁)
    rw [htx₁, hrest, List.length_nil, deviceAccepts_zero, decide_eq_true (Int.natCast_nonneg _)]
  rw [if_neg hrest]
  have hn : rest.length ≠ 0 := fun hz => hrest (List.eq_nil_of_length_eq_zero hz)
  apply settle_seq (clockLate_accepts h₁)
  rintro late w₂ ⟨tx₂, h₂, ⟨rfl, hlate⟩ | ⟨rfl, rfl, hne⟩⟩
  · obtain rfl : tx₁ = .late :: tx₂ := hlate
    rw [deviceAccepts_late hn] at htx₁
    exact settle_pure ⟨tx₂, h₂, hfails (by decide) htx₁⟩
  rw [if_neg (by decide)]
  have h₂' : Faces d { p with tx := tx₂ } w₂ := h₂
  rw [deviceAccepts_clock hne] at htx₁
  apply settle_seq (waitFd_accepts hn h₂')
  rintro ready w₃ ⟨tx₃, h₃, ⟨rfl, htx₃, hpoll⟩ | ⟨hneg, hend⟩⟩
  swap
  · rw [if_pos hneg]
    exact settle_pure ⟨tx₃, h₃, hfails hneg (htx₁.trans hend)⟩
  rw [if_neg (by decide)]
  have h₃' : Faces d { p with tx := tx₃ } w₃ := h₃
  apply settle_seq (writeFd_accepts hrest hpoll h₃')
  rintro r w₄ ⟨tx₄, h₄, hwrote⟩
  have h₄' : Faces d { p with tx := tx₄ } w₄ := h₄
  have hwrote' : WroteAs rest.length (deviceAccepts true p.tx buf.length) r tx₄ :=
    (htx₁.trans htx₃).symm ▸ hwrote
  cases r with
  | ok k =>
    unfold WroteAs at hwrote'
    dsimp only at hwrote'
    cases k with
    | zero => exact settle_pure ⟨tx₄, h₄', hfails (by decide) hwrote'⟩
    | succ k =>
      rw [if_neg (Nat.succ_ne_zero k)] at hwrote'
      refine settle_pure ⟨tx₄, h₄', ?_⟩
      rw [List.length_drop]
      exact hwrote'
  | error e =>
    unfold WroteAs at hwrote'
    dsimp only at hwrote' ⊢
    by_cases hagain : e.int = EINTR ∨ e.int = EAGAIN
    · rw [if_pos hagain]
      rw [if_pos (show Again e from hagain)] at hwrote'
      exact settle_pure ⟨tx₄, h₄', hwrote'⟩
    · rw [if_neg hagain]
      rw [if_neg (show ¬ Again e from hagain)] at hwrote'
      exact settle_pure ⟨tx₄, h₄', hfails e.neg_lt hwrote'⟩

/-! ## sends and flushes -/

/-- a call to the device comes back as the peer says -/
def AsTold (d : Nat) (r : Bool × Peer) (a : Int) (w : Solo) : Prop := r = (decide (0 ≤ a), r.2) ∧ Faces d r.2 w

theorem Faces.closed (h : Faces d p w) (hclosed : p.opened = false) :
    (if (w.mem.com.desc d).type ≠ rpComTypeUsb then -1 else (w.mem.com.desc d).desc) < 0 := by
  have husb : ¬ ((w.mem.com.desc d).type = rpComTypeUsb ∧ 0 ≤ (w.mem.com.desc d).desc) :=
    of_decide_eq_false ((congrArg Peer.opened h.peer).trans hclosed)
  split
  case isTrue => decide
  case isFalse htype =>
    exact Int.not_le.mp fun hfd => husb ⟨not_not.mp htype, hfd⟩

theorem Peer.write_closed (hclosed : p.opened = false) : p.write n = (false, p) :=
  if_neg (Bool.eq_false_iff.mp hclosed)

theorem Peer.write_told {buf : List Byte} (hopen : p.opened = true) (h : Faces d p w) :
    Settles (writeAllFd d buf) w (AsTold d (p.write buf.length)) := by
  apply settle_mono (writeAllFd_accepts h)
  rintro r w' ⟨tx, h', htx⟩
  have hw : p.write buf.length = (decide (0 ≤ r), { p with tx := tx }) := by
    rw [Peer.write, if_pos hopen, htx]
  rw [hw]
  exact ⟨rfl, h'⟩

theorem flushBufferLocked_told (h : Faces d p w) :
    Settles (flushBufferLocked d) w (AsTold d p.flush) := by
  have hunsent : w.mem.com.fgSendBuffer.length = p.unsent := congrArg Peer.unsent h.peer
  apply settle_bind
  apply settle_load
  by_cases hempty : w.mem.com.fgSendBuffer = []
  · rw [if_pos hempty]
    have hf : p.flush = (true, p) := if_pos (by rw [← hunsent, hempty]; rfl)
    exact settle_pure ⟨by rw [hf]; rfl, hf ▸ h⟩
  rw [if_neg hempty]
  have hne : ¬ p.unsent = 0 := fun hz =>
    hempty (List.eq_nil_of_length_eq_zero (hunsent.trans hz))
  apply settle_bind
  apply settle_load
  cases hopen : p.opened with
  | false =>
    rw [if_pos (h.closed hopen)]
    have hf : p.flush = (false, p) := by
      rw [Peer.flush, if_neg hne, Peer.write_closed hopen, if_neg Bool.false_ne_true]
    exact settle_pure ⟨by rw [hf]; rfl, hf ▸ h⟩
  | true =>
    rw [if_neg (h.fd hopen)]
    apply settle_seq (Peer.write_told hopen h)
    rw [hunsent]
    rintro ret w₁ ⟨hret, h₁⟩
    by_cases hneg : ret < 0
    · rw [if_pos hneg]
      have hfalse : (p.write p.unsent).1 = false := by
        rw [hret]
        exact decide_eq_false (Int.not_le.mpr hneg)
      have hf : p.flush = (false, (p.write p.unsent).2) := by
        rw [Peer.flush, if_neg hne, if_neg (by rw [hfalse]; decide)]
      refine settle_pure ⟨?_, by rw [hf]; exact h₁⟩
      rw [hf]
      exact Prod.ext (decide_eq_false (Int.not_le.mpr hneg)).symm rfl
    · rw [if_neg hneg]
      have htrue : (p.write p.unsent).1 = true := by
        rw [hret]
        exact decide_eq_true (Int.not_lt.mp hneg)
      have hf : p.flush = (true, { (p.write p.unsent).2 with unsent := 0 }) := by
        rw [Peer.flush, if_neg hne, if_pos htrue]
      apply settle_bind
      apply settle_act
      refine settle_pure ⟨?_, ?_⟩
      · rw [hf]
        exact Prod.ext (decide_eq_true (Int.not_lt.mp hneg)).symm rfl
      · rw [hf]
        refine ⟨h₁.desc, ?_⟩
        rw [← h₁.peer]
        rfl

/-- **A flush** -/
theorem raspikeComFlush_told (h : Faces d p w) :
    Settles (raspikeComFlush (some d)) w (AsTold d p.flush) := by
  apply settle_bind
  apply settle_act
  apply settle_bind
  apply settle_lock
  intro _
  have h₁ : Faces d p ((w.act () (fun _ => some (.io d .flush)) fun m => ((), m)).acquire () .comSend) :=
    ⟨h.desc, h.peer⟩
  apply settle_seq (flushBufferLocked_told h₁)
  rintro ret w₂ ⟨hret, h₂⟩
  apply settle_bind
  apply settle_unlock
  refine settle_pure ⟨?_, h₂.desc, h₂.peer⟩
  rw [hret]
  refine Prod.ext ?_ rfl
  split
  · rfl
  · exact decide_eq_true (Int.not_lt.mp ‹_›)

theorem bufferedWrite_told {buf : List Byte} (hmode : p.mode = .buffered) (h : Faces d p w) :
    Settles (bufferedWrite d buf) w (AsTold d (p.send buf.length)) := by
  have hunsent : w.mem.com.fgSendBuffer.length = p.unsent := congrArg Peer.unsent h.peer
  have hfull : p.unsent + buf.length > rpSendBufferSize → p.send buf.length = (false, p) := fun hf => by
    rw [Peer.send, if_pos hmode, if_pos hf]
  show Settles (if buf.length > rpSendBufferSize then _ else _) w _
  by_cases hlong : buf.length > rpSendBufferSize
  · rw [if_pos hlong]
    have hf := hfull (by omega)
    exact settle_pure ⟨by rw [hf]; rfl, hf ▸ h⟩
  rw [if_neg hlong]
  apply settle_bind
  apply settle_lock
  intro _
  apply settle_bind
  apply settle_load
  rw [show (w.acquire () Mutex.comSend).mem.com.fgSendBuffer.length = p.unsent from hunsent]
  by_cases hroom : p.unsent + buf.length > rpSendBufferSize
  · rw [if_pos hroom]
    have hf := hfull hroom
    apply settle_bind
    apply settle_unlock
    refine settle_pure ⟨by rw [hf]; rfl, ?_⟩
    rw [hf]
    exact ⟨h.desc, h.peer⟩
  · rw [if_neg hroom]
    have hf : p.send buf.length = (true, { p with unsent := p.unsent + buf.length }) := by
      rw [Peer.send, if_pos hmode, if_neg hroom]
    apply settle_bind
    apply settle_act
    apply settle_bind
    apply settle_unlock
    refine settle_pure ⟨?_, ?_⟩
    · rw [hf]
      exact Prod.ext (decide_eq_true (Int.natCast_nonneg buf.length)).symm rfl
    · rw [hf]
      refine ⟨h.desc, ?_⟩
      rw [← h.peer]
      simp [Mem.peer, World.release, World.act, World.acquire]

/-- **A send** -/
theorem raspikeComSend_told {buf : List Byte} (h : Faces d p w) :
    Settles (raspikeComSend (some d) buf) w (AsTold d (p.send buf.length)) := by
  have hmode : w.mem.com.fgSendMode = p.mode := congrArg Peer.mode h.peer
  apply settle_bind
  apply settle_act
  apply settle_bind
  apply settle_lock
  intro _
  apply settle_bind
  apply settle_load
  apply settle_bind
  apply settle_unlock
  generalize hw₁ : World.release _ Mutex.comSend = w₁
  have h₁ : Faces d p w₁ := by
    subst hw₁
    exact ⟨h.desc, h.peer⟩
  have hkept : w₁.mem = w.mem := by
    subst hw₁
    rfl
  show Settles (if w.mem.com.fgSendMode = .buffered then _ else _) w₁ _
  rw [hmode]
  by_cases hb : p.mode = .buffered
  · rw [if_pos hb]
    exact bufferedWrite_told hb h₁
  rw [if_neg hb, Peer.send, if_neg hb]
  apply settle_bind
  apply settle_load
  cases hopen : p.opened with
  | false =>
    rw [if_pos (h₁.closed hopen)]
    have hf : p.write buf.length = (false, p) := Peer.write_closed hopen
    exact settle_pure ⟨by rw [hf]; rfl, hf ▸ h₁⟩
  | true =>
    rw [if_neg (h₁.fd hopen)]
    exact Peer.write_told hopen h₁

/-- **The input is discarded.** -/
theorem raspikeComDiscardInput_told (h : Faces d p w) :
    Settles (raspikeComDiscardInput (some d)) w fun _ w' => Faces d p.discard w' := by
  have hd : (w.mem.com.desc d).discards = p.discards := congrArg Peer.discards h.peer
  apply settle_bind
  apply settle_load
  cases hopen : p.opened with
  | false =>
    rw [if_pos (h.closed hopen)]
    apply settle_pure
    rw [Peer.discard, if_neg (by rw [hopen]; decide)]
    exact h
  | true =>
    rw [if_neg (h.fd hopen)]
    apply settle_seq (R := fun _ w' => Faces d p.discard w')
    · rw [Peer.discard, if_pos hopen]
      apply settle_act
      cases hl : p.discards with
      | nil =>
        refine ⟨?_, ?_⟩
        · simp only [World.act, hd, hl]
          exact h.desc
        · simp only [World.act, hd, hl]
          exact h.peer
      | cons x rest =>
        cases x with
        | error e =>
          refine ⟨?_, ?_⟩
          · simp only [World.act, hd, hl]
            exact h.desc
          · simp only [World.act, hd, hl]
            rw [← h.peer]
            simp [Mem.peer, Mem.setDesc]
        | ok k =>
          refine ⟨?_, ?_⟩
          · simp only [World.act, hd, hl]
            exact h.desc
          · simp only [World.act, hd, hl]
            rw [← h.peer]
            simp [Mem.peer, Mem.setDesc]
    · intro r w₁ h₁
      cases r <;> exact settle_pure h₁

end

end RaspikeArt
