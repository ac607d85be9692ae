import RaspikeArt.Threads.Outcome
import RaspikeArt.Transport.Reading

/-!
# Transport, part 18: a device as its script

What the receives of the com layer get from a device, as functions of the answers that it gives.

* `deviceGives`  what a receive ends with;
* `deviceFinds`  whether a scan finds its byte; both with the answers that are left;
* `Peer`         all that a negotiation depends on;
* `Faces d p w`  in `w` the library is connected with the peer `p`.
-/

namespace RaspikeArt
open Threads

/-! ## the answers of a device -/

instance (e : Errno) : Decidable (Again e) := inferInstanceAs (Decidable (_ ∨ _))

/-- the same end, with `bs` received before -/
def behind (bs : List Byte) (G : Except Int (List Byte) × List RxItem) : Except Int (List Byte) × List RxItem :=
  (G.1.map (bs ++ ·), G.2)

/-- what a receive of `n` bytes ends with, and the answers it leaves -/
def deviceGives : List RxItem → Nat → Except Int (List Byte) × List RxItem
  | [], n => (if n = 0 then .ok [] else .error (-ETIMEDOUT), [])
  | item :: rx, n =>
    if n = 0 then (.ok [], item :: rx)
    else match item with
      | .late | .poll .timeout => (.error (-ETIMEDOUT), rx)
      | .poll .hup => (.error (- EIO), rx)
      | .poll (.fail e) | .fail e => if Again e then deviceGives rx n else (.error (-e.int), rx)
      | .data bs =>
        if bs = [] then (.error (-EPIPE), rx)
        else if n < bs.length then (.ok (bs.take n), .data (bs.drop n) :: rx)
        else behind bs (deviceGives rx (n - bs.length))

/-- the clock is looked at before a scan goes on to `r` -/
def afterClock : List RxItem → Bool × List RxItem → Bool × List RxItem
  | .late :: rest, _ => (false, rest)
  | _, r => r

/-- a scan has come to these bytes, which begin with the one it looks for, or goes on to `r` -/
def foundAt (rx : List RxItem) (r : Bool × List RxItem) : List Byte → Bool × List RxItem
  | [] => r
  | [_] => (true, rx)
  | _ :: more => (true, .data more :: rx)

/-- whether a scan finds `target`, and the answers it leaves; with none left it goes on for ever -/
def deviceFinds (target : Byte) : List RxItem → Bool × List RxItem
  | [] => (false, [])
  | item :: rx => match item with
    | .late | .poll .timeout => afterClock rx (deviceFinds target rx)
    | .poll .hup => (false, rx)
    | .poll (.fail e) | .fail e =>
      if Again e then deviceFinds target rx
      else if e.int = ETIMEDOUT then afterClock rx (deviceFinds target rx)
      else (false, rx)
    | .data bs =>
      if bs = [] then (false, rx)
      else foundAt rx (afterClock rx (deviceFinds target rx)) (bs.dropWhile (· ≠ target))

/-! ## the peer of a negotiation -/

/-- a device with its descriptor, and how the library sends to it -/
structure Peer where
  opened : Bool
  mode : UsbMode
  /-- how much is in the send buffer -/
  unsent : Nat
  rx : List RxItem
  tx : List TxItem
  discards : List (Except Errno Nat)

def Mem.peer (m : Mem) (d : Nat) : Peer where
  opened := decide ((m.com.desc d).type = rpComTypeUsb ∧ 0 ≤ (m.com.desc d).desc)
  mode := m.com.fgSendMode
  unsent := m.com.fgSendBuffer.length
  rx := (m.com.desc d).rx
  tx := (m.com.desc d).tx
  discards := (m.com.desc d).discards

/-- the library is connected, with the peer `p` -/
structure Faces (d : Nat) (p : Peer) (w : Solo) : Prop where
  desc : w.mem.fgDesc = some d
  peer : w.mem.peer d = p

section
variable {d : Nat} {p : Peer} {w : Solo}

theorem Faces.setRx (h : Faces d p w) (rx : List RxItem) : Faces d { p with rx := rx } (w.setRx d rx) := by
  refine ⟨h.desc, ?_⟩
  rw [← h.peer]
  simp [Mem.peer, Solo.setRx, Mem.setDesc]

theorem Faces.rx_eq (h : Faces d p w) : (w.mem.com.desc d).rx = p.rx := congrArg Peer.rx h.peer

end

/-! ## a receive -/

theorem deviceGives_fails {rx : List RxItem} {n : Nat} {e : Int} (h : (deviceGives rx n).1 = .error e) :
    e < 0 := by
  induction rx generalizing n e with
  | nil =>
    unfold deviceGives at h
    split at h
    case isTrue => cases h
    case isFalse =>
      cases h
      decide
  | cons item rx ih =>
    unfold deviceGives at h
    by_cases hn : n = 0
    · rw [if_pos hn] at h
      cases h
    rw [if_neg hn] at h
    cases item with
    | late =>
      cases h
      decide
    | poll p =>
      cases p with
      | timeout | hup =>
        cases h
        decide
      | fail x =>
        dsimp only at h
        by_cases hx : Again x
        · rw [if_pos hx] at h
          exact ih h
        · rw [if_neg hx] at h
          cases h
          exact x.neg_lt
    | fail x =>
      dsimp only at h
      by_cases hx : Again x
      · rw [if_pos hx] at h
        exact ih h
      · rw [if_neg hx] at h
        cases h
        exact x.neg_lt
    | data bs =>
      dsimp only at h
      by_cases hbs : bs = []
      · rw [if_pos hbs] at h
        cases h
        decide
      rw [if_neg hbs] at h
      by_cases hlen : n < bs.length
      · rw [if_pos hlen] at h
        cases h
      rw [if_neg hlen] at h
      cases hr : (deviceGives rx (n - bs.length)).1 with
      | ok cs =>
        rw [behind, hr] at h
        cases h
      | error x =>
        rw [behind, hr] at h
        cases h
        exact ih hr

section
variable {rx : List RxItem} {n : Nat} (hn : n ≠ 0)
include hn

theorem deviceGives_nil : deviceGives [] n = (.error (-ETIMEDOUT), []) := by
  rw [deviceGives, if_neg hn]

theorem deviceGives_late : deviceGives (.late :: rx) n = (.error (-ETIMEDOUT), rx) := if_neg hn

theorem deviceGives_timeout : deviceGives (.poll .timeout :: rx) n = (.error (-ETIMEDOUT), rx) := if_neg hn

theorem deviceGives_hup : deviceGives (.poll .hup :: rx) n = (.error (- EIO), rx) := if_neg hn

theorem deviceGives_poll {e : Errno} : deviceGives (.poll (.fail e) :: rx) n =
    if Again e then deviceGives rx n else (.error (-e.int), rx) := if_neg hn

theorem deviceGives_fail {e : Errno} : deviceGives (.fail e :: rx) n =
    if Again e then deviceGives rx n else (.error (-e.int), rx) := if_neg hn

theorem deviceGives_end : deviceGives (.data [] :: rx) n = (.error (-EPIPE), rx) := if_neg hn

theorem deviceGives_data {bs : List Byte} (hbs : bs ≠ []) : deviceGives (.data bs :: rx) n =
    if n < bs.length then (.ok (bs.take n), .data (bs.drop n) :: rx)
    else behind bs (deviceGives rx (n - bs.length)) :=
  (if_neg hn).trans (if_neg hbs)

end

theorem behind_nil (G : Except Int (List Byte) × List RxItem) : behind [] G = G := by
  obtain ⟨r, rx⟩ := G
  cases r <;> rfl

theorem behind_append (bs cs : List Byte) (G : Except Int (List Byte) × List RxItem) :
    behind bs (behind cs G) = behind (bs ++ cs) G := by
  obtain ⟨r, rx⟩ := G
  cases r with
  | error e => rfl
  | ok as => exact congrArg (fun x => (Except.ok x, rx)) (List.append_assoc bs cs as).symm

theorem deviceGives_zero (rx : List RxItem) : deviceGives rx 0 = (.ok [], rx) := by
  cases rx <;> rfl

/-- some answers of `p` are left, and what is known of the result -/
def Unread (d : Nat) (p : Peer) {α : Type} (Q : α → List RxItem → Prop) (a : α) (w : Solo) : Prop :=
  ∃ rx, Faces d { p with rx := rx } w ∧ Q a rx

/-- a read comes back with `r`, on the way to `end` -/
def ReadsOn (n : Nat) (G : Except Int (List Byte) × List RxItem) : Except Int (List Byte) → List RxItem → Prop
  | .ok bs, rx => bs.length ≤ n ∧ G = behind bs (deviceGives rx (n - bs.length))
  | .error e, rx => if e = -EAGAIN ∨ e = -EINTR then G = deviceGives rx n else G = (.error e, rx)

/-- a `read` comes back with `r`, on the way to `G` -/
def ReadAs (n : Nat) (G : Except Int (List Byte) × List RxItem) : Except Errno (List Byte) → List RxItem → Prop
  | .ok bs, rx => if bs = [] then G = (.error (-EPIPE), rx) else ReadsOn n G (.ok bs) rx
  | .error e, rx => if Again e then G = deviceGives rx n else G = (.error (-e.int), rx)

section
variable {d n : Nat} {p : Peer} {w : Solo}

theorem clockLate_script (h : Faces d p w) : Settles (clockLate d .rx) w (Unread d p fun late rx =>
    late = true ∧ p.rx = .late :: rx ∨ late = false ∧ rx = p.rx ∧ ∀ r, rx ≠ .late :: r) := by
  have hd := h.rx_eq
  by_cases hlate : ∃ r, p.rx = .late :: r
  · obtain ⟨r, hr⟩ := hlate
    apply settle_eval (b := true) rfl (by rw [hd, hr])
    exact ⟨r, h.setRx r, .inl ⟨rfl, hr⟩⟩
  · have hne : ∀ r, p.rx ≠ .late :: r := fun r hr => hlate ⟨r, hr⟩
    apply settle_eval (b := false) (m := w.mem) rfl
    · rw [hd]
      split
      case h_1 r hr => exact (hne r hr).elim
      · rfl
    · exact ⟨p.rx, h, .inr ⟨rfl, rfl, hne⟩⟩

/-- an error that ends the receive -/
theorem reads_error {G : Except Int (List Byte) × List RxItem} {rx : List RxItem} {e : Int}
    (he : ¬ (e = -EAGAIN ∨ e = -EINTR)) (h : G = (.error e, rx)) : ReadsOn n G (.error e) rx :=
  (if_neg he).mpr h

theorem reads_again {G : Except Int (List Byte) × List RxItem} {rx : List RxItem} {e : Int}
    (he : e = -EAGAIN ∨ e = -EINTR) (h : G = deviceGives rx n) : ReadsOn n G (.error e) rx :=
  (if_pos he).mpr h

theorem waitFd_script (hn : n ≠ 0) (h : Faces d p w) : Settles (waitFd d .rx) w (Unread d p fun r rx =>
    r = 0 ∧ deviceGives p.rx n = deviceGives rx n ∨ r < 0 ∧ ReadsOn n (deviceGives p.rx n) (.error r) rx) := by
  apply settle_loop (fun _ => Unread d p (fun (_ : Unit) rx => deviceGives p.rx n = deviceGives rx n) ())
    ⟨p.rx, h, rfl⟩
  rintro _ w' ⟨rx, h', hrx⟩
  have hd := h'.rx_eq
  apply settle_bind
  cases rx with
  | nil =>
    apply settle_eval (b := some .timeout) (m := w'.mem) rfl (by rw [hd])
    apply settle_pure
    exact ⟨[], h', .inr ⟨by decide, reads_error (by decide) (hrx.trans (deviceGives_nil hn))⟩⟩
  | cons x rx =>
    cases x with
    | poll q =>
      apply settle_eval (b := some q) rfl (by rw [hd])
      cases q with
      | timeout =>
        have hend := hrx.trans (deviceGives_timeout hn)
        exact settle_pure ⟨rx, h'.setRx rx, .inr ⟨by decide, reads_error (by decide) hend⟩⟩
      | hup =>
        have hend := hrx.trans (deviceGives_hup hn)
        exact settle_pure ⟨rx, h'.setRx rx, .inr ⟨by decide, reads_error (by decide) hend⟩⟩
      | fail e =>
        rw [deviceGives_poll hn] at hrx
        apply settle_pure
        by_cases hintr : e.int = EINTR
        · rw [if_pos hintr]
          rw [if_pos (.inl hintr)] at hrx
          exact ⟨rx, h'.setRx rx, hrx⟩
        · rw [if_neg hintr]
          refine ⟨rx, h'.setRx rx, .inr ⟨e.neg_lt, ?_⟩⟩
          by_cases hagain : e.int = EAGAIN
          · rw [if_pos (.inr hagain)] at hrx
            exact reads_again (.inl (congrArg Neg.neg hagain)) hrx
          · rw [if_neg (show ¬ Again e from not_or.mpr ⟨hintr, hagain⟩)] at hrx
            exact reads_error (by omega) hrx
    | late | fail | data =>
      apply settle_eval (b := none) (m := w'.mem) rfl (by rw [hd])
      exact settle_pure ⟨_, h', .inl ⟨rfl, hrx⟩⟩

/-- a `read` takes of the bytes that have arrived -/
theorem reads_data (hn : n ≠ 0) {bs : List Byte} {rx : List RxItem} (hbs : bs ≠ []) :
    ReadsOn n (deviceGives (.data bs :: rx) n) (.ok (bs.take n)) (leftOver n bs rx) := by
  refine ⟨List.length_take_le n bs, ?_⟩
  rw [deviceGives_data hn hbs]
  by_cases hlen : n < bs.length
  · rw [if_pos hlen, List.length_take_of_le (Nat.le_of_lt hlen), Nat.sub_self, deviceGives_zero]
    rw [leftOver, if_neg (by omega)]
    show _ = (Except.ok (bs.take n ++ []), _)
    rw [List.append_nil]
  · rw [if_neg hlen, List.take_of_length_le (by omega), leftOver, if_pos (by omega)]

theorem readFd_script (hn : n ≠ 0) (h : Faces d p w) :
    Settles (readFd d n) w (Unread d p (ReadAs n (deviceGives p.rx n))) := by
  have hd := h.rx_eq
  -- no answer is there, or none that a `read` takes
  have hstale : Unread d p (ReadAs n (deviceGives p.rx n)) (.error eagain) w := by
    have hagain : Again eagain := .inr rfl
    refine ⟨p.rx, h, ?_⟩
    unfold ReadAs
    dsimp only
    rw [if_pos hagain]
  cases hrx : p.rx with
  | nil =>
    apply settle_eval (b := .error eagain) (m := w.mem) rfl (by rw [hd, hrx])
    exact hrx ▸ hstale
  | cons x rx =>
    cases x with
    | late | poll =>
      apply settle_eval (b := .error eagain) (m := w.mem) rfl (by rw [hd, hrx])
      exact hrx ▸ hstale
    | fail e =>
      apply settle_eval (b := .error e) rfl (by rw [hd, hrx])
      refine ⟨rx, h.setRx rx, ?_⟩
      unfold ReadAs
      dsimp only
      rw [deviceGives_fail hn]
      split <;> rfl
    | data bs =>
      apply settle_eval (b := .ok (bs.take n)) rfl (by rw [hd, hrx])
      refine ⟨leftOver n bs rx, h.setRx _, ?_⟩
      unfold ReadAs
      dsimp only
      by_cases hbs : bs = []
      · subst hbs
        rw [if_pos (List.take_nil ..), deviceGives_end hn]
        exact congrArg (Prod.mk _) (if_pos (Nat.zero_le n)).symm
      · rw [if_neg (by simp [hn, hbs])]
        exact reads_data hn hbs

theorem readSomeFd_script (hn : n ≠ 0) (h : Faces d p w) :
    Settles (readSomeFd d n) w (Unread d p (ReadsOn n (deviceGives p.rx n))) := by
  unfold readSomeFd
  rw [if_neg hn]
  apply settle_seq (waitFd_script hn h)
  rintro ready w₁ ⟨rx, h₁, ⟨rfl, hrx⟩ | ⟨hneg, hend⟩⟩
  · rw [if_neg (by decide)]
    apply settle_loop (fun _ => Unread d p (fun (_ : Unit) rx => deviceGives p.rx n = deviceGives rx n) ())
      ⟨rx, h₁, hrx⟩
    rintro _ w₂ ⟨rx₂, h₂, hrx₂⟩
    apply settle_seq (readFd_script hn h₂)
    rintro r w₃ ⟨rx₃, h₃, hread⟩
    have hread' : ReadAs n (deviceGives p.rx n) r rx₃ := hrx₂ ▸ hread
    have h₃' : Faces d { p with rx := rx₃ } w₃ := h₃
    cases r with
    | ok bs =>
      cases bs with
      | nil =>
        have hend : deviceGives p.rx n = (.error (-EPIPE), rx₃) := hread'
        exact settle_pure ⟨rx₃, h₃', reads_error (by decide) hend⟩
      | cons b bs => exact settle_pure ⟨rx₃, h₃', hread'⟩
    | error e =>
      unfold ReadAs at hread'
      dsimp only at hread' ⊢
      by_cases hintr : e.int = EINTR
      · rw [if_pos hintr]
        rw [if_pos (.inl hintr)] at hread'
        exact settle_pure ⟨rx₃, h₃', hread'⟩
      rw [if_neg hintr]
      by_cases hagain : e.int = EAGAIN
      · rw [if_pos hagain]
        rw [if_pos (.inr hagain)] at hread'
        exact settle_pure ⟨rx₃, h₃', reads_again (.inl rfl) hread'⟩
      · rw [if_neg hagain]
        rw [if_neg (show ¬ Again e from not_or.mpr ⟨hintr, hagain⟩)] at hread'
        exact settle_pure ⟨rx₃, h₃', reads_error (by omega) hread'⟩
  · rw [if_pos hneg]
    exact settle_pure ⟨rx, h₁, hend⟩

/-- the descriptor of an open peer -/
theorem Faces.fd (h : Faces d p w) (hopen : p.opened = true) :
    ¬ (if (w.mem.com.desc d).type ≠ rpComTypeUsb then -1 else (w.mem.com.desc d).desc) < 0 := by
  have husb : (w.mem.com.desc d).type = rpComTypeUsb ∧ 0 ≤ (w.mem.com.desc d).desc :=
    of_decide_eq_true ((congrArg Peer.opened h.peer).trans hopen)
  rw [if_neg (not_not.mpr husb.1)]
  exact Int.not_lt.mpr husb.2

theorem rpUsbReceive_script (hn : n ≠ 0) (hopen : p.opened = true) (h : Faces d p w) :
    Settles (rpUsbReceive d n) w (Unread d p (ReadsOn n (deviceGives p.rx n))) := by
  apply settle_bind
  apply settle_load
  rw [if_neg (h.fd hopen)]
  exact readSomeFd_script hn h

/-- **A receive** ends with what the device gives. -/
theorem raspikeComReceiveTimeout_script {size : Nat} (hsize : size ≠ 0) (hopen : p.opened = true)
    (h : Faces d p w) : Settles (raspikeComReceiveTimeout (some d) size) w (Unread d p fun r rx =>
      deviceGives p.rx size = (r, rx)) := by
  show Settles (if size = 0 then _ else _) w _
  rw [if_neg hsize]
  apply settle_bind
  apply settle_act
  apply settle_loop (fun received => Unread d p (fun (_ : Unit) rx => received.length ≤ size ∧
    deviceGives p.rx size = behind received (deviceGives rx (size - received.length))) ())
  · exact ⟨p.rx, ⟨h.desc, h.peer⟩, Nat.zero_le _, (behind_nil _).symm⟩
  rintro received w₁ ⟨rx₁, h₁, hle, hrx₁⟩
  by_cases hfull : received.length ≥ size
  · rw [if_pos hfull]
    refine settle_pure ⟨rx₁, h₁, ?_⟩
    rw [hrx₁, Nat.sub_eq_zero_of_le hfull, deviceGives_zero]
    exact congrArg (fun x => (Except.ok x, rx₁)) (List.append_nil received)
  rw [if_neg hfull]
  have hn : size - received.length ≠ 0 := by omega
  apply settle_seq (clockLate_script h₁)
  rintro late w₂ ⟨rx₂, h₂, ⟨rfl, hlate⟩ | ⟨rfl, rfl, -⟩⟩
  · obtain rfl : rx₁ = .late :: rx₂ := hlate
    rw [deviceGives_late hn] at hrx₁
    exact settle_pure ⟨rx₂, h₂, hrx₁⟩
  rw [if_neg (by decide)]
  apply settle_seq (rpUsbReceive_script hn (p := { p with rx := rx₂ }) hopen h₂)
  rintro r w₃ ⟨rx₃, h₃, hread⟩
  have h₃' : Faces d { p with rx := rx₃ } w₃ := h₃
  cases r with
  | ok bs =>
    obtain ⟨hlen, hgives⟩ := hread
    refine settle_pure ⟨rx₃, h₃', ?_, ?_⟩
    · rw [List.length_append]
      omega
    · rw [hrx₁, hgives, behind_append, List.length_append, Nat.sub_sub]
  | error e =>
    dsimp only
    unfold ReadsOn at hread
    dsimp only at hread
    by_cases he : e = -EAGAIN ∨ e = -EINTR
    · rw [if_pos he]
      rw [if_pos he] at hread
      exact settle_pure ⟨rx₃, h₃', hle, hread ▸ hrx₁⟩
    · rw [if_neg he]
      rw [if_neg he] at hread
      exact settle_pure ⟨rx₃, h₃', hrx₁.trans (congrArg (behind received) hread)⟩

end

/-! ## a scan -/

/-- a scan that has not found its byte yet -/
def scanOn (target : Byte) (rx : List RxItem) : Bool × List RxItem := afterClock rx (deviceFinds target rx)

/-- what one byte received, or an error, makes of a scan -/
def scanTurn (target : Byte) : Except Int (List Byte) → List RxItem → Bool × List RxItem
  | .ok bs, rest => if bs.getD 0 0 = target then (true, rest) else scanOn target rest
  | .error e, rest => if e ≠ -ETIMEDOUT ∧ e ≠ -EAGAIN then (false, rest) else scanOn target rest

section
variable {target : Byte} {rx : List RxItem} {e : Errno}

theorem deviceFinds_poll : deviceFinds target (.poll (.fail e) :: rx) =
    if Again e then deviceFinds target rx
    else if e.int = ETIMEDOUT then scanOn target rx else (false, rx) := rfl

theorem deviceFinds_fail : deviceFinds target (.fail e :: rx) =
    if Again e then deviceFinds target rx
    else if e.int = ETIMEDOUT then scanOn target rx else (false, rx) := rfl

theorem deviceFinds_data {b : Byte} {bs : List Byte} : deviceFinds target (.data (b :: bs) :: rx) =
    if b = target then (true, if bs = [] then rx else .data bs :: rx)
    else if bs = [] then scanOn target rx else deviceFinds target (.data bs :: rx) := by
  show foundAt rx (scanOn target rx) ((b :: bs).dropWhile (· ≠ target)) = _
  rw [List.dropWhile_cons]
  by_cases hb : b = target
  · rw [if_pos hb, if_neg (by simp [hb])]
    cases bs <;> rfl
  · rw [if_neg hb, if_pos (by simp [hb])]
    cases bs <;> rfl

theorem deviceGives_byte {b : Byte} {bs : List Byte} : deviceGives (.data (b :: bs) :: rx) 1 =
    (.ok [b], if bs = [] then rx else .data bs :: rx) := by
  rw [deviceGives_data (by decide) (List.cons_ne_nil b bs)]
  cases bs with
  | nil =>
    show behind [b] (deviceGives rx 0) = _
    rw [deviceGives_zero]
    rfl
  | cons c cs => rfl

theorem scanTurn_failed (hagain : ¬ Again e) : scanTurn target (.error (-e.int)) rx =
    if e.int = ETIMEDOUT then scanOn target rx else (false, rx) := by
  have hne : e.int ≠ EAGAIN := fun h => hagain (.inr h)
  by_cases he : e.int = ETIMEDOUT
  · rw [if_pos he]
    exact if_neg fun h => h.1 (congrArg Neg.neg he)
  · rw [if_neg he]
    exact if_pos ⟨by omega, by omega⟩

end

/-- one turn of a scan -/
theorem deviceFinds_turn (target : Byte) (rx : List RxItem) :
    deviceFinds target rx = scanTurn target (deviceGives rx 1).1 (deviceGives rx 1).2 := by
  have hone : 1 ≠ 0 := by decide
  induction rx with
  | nil => rfl
  | cons item rx ih =>
    cases item with
    | late => rfl
    | poll q =>
      cases q with
      | timeout => rfl
      | hup => rfl
      | fail e =>
        rw [deviceFinds_poll, deviceGives_poll hone]
        by_cases hagain : Again e
        · rw [if_pos hagain, if_pos hagain]
          exact ih
        · rw [if_neg hagain, if_neg hagain]
          exact (scanTurn_failed hagain).symm
    | fail e =>
      rw [deviceFinds_fail, deviceGives_fail hone]
      by_cases hagain : Again e
      · rw [if_pos hagain, if_pos hagain]
        exact ih
      · rw [if_neg hagain, if_neg hagain]
        exact (scanTurn_failed hagain).symm
    | data bs =>
      cases bs with
      | nil => rfl
      | cons b bs =>
        rw [deviceFinds_data, deviceGives_byte]
        by_cases hbs : bs = []
        · simp only [if_pos hbs]
          rfl
        · simp only [if_neg hbs]
          rfl

section
variable {d : Nat} {p : Peer} {w : Solo}

/-- **A scan** ends, if it does, as the device lets it. -/
theorem scanForByte_script (target : Byte) (hopen : p.opened = true) (h : Faces d p w) :
    Settles (scanForByte target) w (Unread d p fun r rx =>
      deviceFinds target p.rx = (decide (0 ≤ r), rx)) := by
  apply settle_loop (fun _ => Unread d p (fun (_ : Unit) rx =>
    deviceFinds target p.rx = deviceFinds target rx) ()) ⟨p.rx, h, rfl⟩
  rintro _ w₁ ⟨rx₁, h₁, hrx₁⟩
  apply settle_bind
  apply settle_load
  rw [h₁.desc]
  apply settle_seq (raspikeComReceiveTimeout_script (p := { p with rx := rx₁ }) Nat.one_ne_zero hopen h₁)
  rintro r w₂ ⟨rx₂, h₂, hgives⟩
  have h₂' : Faces d { p with rx := rx₂ } w₂ := h₂
  have hturn : deviceFinds target p.rx = scanTurn target r rx₂ := by
    rw [hrx₁, deviceFinds_turn]
    exact hgives ▸ rfl
  -- the byte has not come, and the clock is looked at
  have hlate : deviceFinds target p.rx = scanOn target rx₂ → Settles (do
      if ← scanLate (some d) then return .inr (-ETIMEDOUT)
      return .inl () : P (Unit ⊕ Int)) w₂ (Turned (fun _ => Unread d p (fun (_ : Unit) rx =>
        deviceFinds target p.rx = deviceFinds target rx) ()) (Unread d p fun r rx =>
          deviceFinds target p.rx = (decide (0 ≤ r), rx))) := by
    intro hon
    apply settle_seq (clockLate_script h₂')
    rintro late w₃ ⟨rx₃, h₃, ⟨rfl, hlate⟩ | ⟨rfl, rfl, hne⟩⟩
    · obtain rfl : rx₂ = .late :: rx₃ := hlate
      exact settle_pure ⟨rx₃, h₃, hon⟩
    · refine settle_pure ⟨rx₃, h₃, hon.trans ?_⟩
      cases rx₃ with
      | nil => rfl
      | cons x rx =>
        cases x with
        | late => exact (hne rx rfl).elim
        | _ => rfl
  cases r with
  | ok byte =>
    have hturn' : deviceFinds target p.rx = if byte.getD 0 0 = target then (true, rx₂) else scanOn target rx₂ :=
      hturn
    dsimp only
    by_cases hb : byte.getD 0 0 = target
    · rw [if_pos hb]
      rw [if_pos hb] at hturn'
      exact settle_pure ⟨rx₂, h₂', hturn'⟩
    · rw [if_neg hb]
      rw [if_neg hb] at hturn'
      exact hlate hturn'
  | error e =>
    have hneg : e < 0 := deviceGives_fails (congrArg Prod.fst hgives)
    have hturn' : deviceFinds target p.rx =
        if e ≠ -ETIMEDOUT ∧ e ≠ -EAGAIN then (false, rx₂) else scanOn target rx₂ := hturn
    dsimp only
    by_cases he : e ≠ -ETIMEDOUT ∧ e ≠ -EAGAIN
    · rw [if_pos he]
      rw [if_pos he] at hturn'
      refine settle_pure ⟨rx₂, h₂', ?_⟩
      show _ = (decide (0 ≤ e), rx₂)
      rw [hturn', decide_eq_false (Int.not_le.mpr hneg)]
    · rw [if_neg he]
      rw [if_neg he] at hturn'
      exact hlate hturn'

end

end RaspikeArt
