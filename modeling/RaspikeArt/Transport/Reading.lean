import RaspikeArt.Threads.Finish
import RaspikeArt.Transport.Device

/-!
# Transport, part 10: what a device delivers

* `Ready`        an answer of a device that delivers: bytes, or a call to be made again;
* `arrives`      the bytes of a script, whatever pieces they come in;
* `Took d w bs`  the device has delivered `bs`, and nothing else has happened;
* `raspikeComReceiveTimeout_finishes`  a receive ends with the next bytes, or with none left;
* `raspikeComReceiveTimeout_ends`      with any device, a receive ends.
-/

namespace RaspikeArt
open Threads

def Again (e : Errno) : Prop := e.int = EINTR ∨ e.int = EAGAIN

/-- no failure, no end of the stream, no deadline -/
def Ready : RxItem → Prop
  | .late => False
  | .poll (.fail e) => Again e
  | .poll .timeout | .poll .hup => False
  | .fail e => Again e
  | .data bs => bs ≠ []

def RxItem.bytes : RxItem → List Byte
  | .data bs => bs
  | _ => []

def arrives (rx : List RxItem) : List Byte := rx.flatMap RxItem.bytes

@[simp] theorem arrives_nil : arrives [] = [] := rfl
@[simp] theorem arrives_cons (x : RxItem) (rx : List RxItem) :
    arrives (x :: rx) = x.bytes ++ arrives rx := rfl

/-- the answers still to come, with the bytes in them -/
def rxSize (rx : List RxItem) : Nat := rx.length + (arrives rx).length

theorem rxSize_cons (x : RxItem) (rx : List RxItem) :
    rxSize (x :: rx) = 1 + x.bytes.length + rxSize rx := by
  simp only [rxSize, List.length_cons, arrives_cons, List.length_append]
  omega

namespace Solo

def rx (w : Solo) (d : Nat) : List RxItem := (w.mem.com.desc d).rx

def setRx (w : Solo) (d : Nat) (rx : List RxItem) : Solo :=
  { w with mem := w.mem.setDesc d fun s => { s with rx := rx } }

def log (w : Solo) (e : Event) : Solo := { w with trace := ((), e) :: w.trace }

@[simp] theorem setRx_rx (w : Solo) (d : Nat) (rx : List RxItem) : (w.setRx d rx).rx d = rx := by
  simp [setRx, Solo.rx, Mem.setDesc]

@[simp] theorem setRx_setRx (w : Solo) (d : Nat) (rx rx' : List RxItem) :
    (w.setRx d rx).setRx d rx' = w.setRx d rx' := by
  simp [setRx, Mem.setDesc, Function.update_idem]

@[simp] theorem setRx_self (w : Solo) (d : Nat) : w.setRx d (w.rx d) = w := by
  simp [setRx, Solo.rx, Mem.setDesc]

end Solo

/-- the descriptor is open, and its device delivers -/
structure Listening (d : Nat) (w : Solo) : Prop where
  usb : (w.mem.com.desc d).type = rpComTypeUsb
  fd : 0 ≤ (w.mem.com.desc d).desc
  ready : ∀ x ∈ w.rx d, Ready x

structure Took (d : Nat) (w : Solo) (bs : List Byte) (w' : Solo) : Prop where
  same : w' = w.setRx d (w'.rx d)
  ready : ∀ x ∈ w'.rx d, Ready x
  bytes : arrives (w.rx d) = bs ++ arrives (w'.rx d)
  size : rxSize (w'.rx d) ≤ rxSize (w.rx d)

theorem Took.refl {d : Nat} {w : Solo} (h : ∀ x ∈ w.rx d, Ready x) : Took d w [] w :=
  ⟨(w.setRx_self d).symm, h, rfl, Nat.le_refl _⟩

theorem Took.trans {d : Nat} {w w₁ w₂ : Solo} {bs cs : List Byte} (h : Took d w bs w₁)
    (h' : Took d w₁ cs w₂) : Took d w (bs ++ cs) w₂ := by
  constructor
  · have h2 := h'.same
    rw [h.same, Solo.setRx_setRx] at h2
    exact h2
  · exact h'.ready
  · rw [h.bytes, h'.bytes, List.append_assoc]
  · exact Nat.le_trans h'.size h.size

theorem Took.listening {d : Nat} {w w' : Solo} {bs : List Byte} (h : Listening d w)
    (ht : Took d w bs w') : Listening d w' := by
  have hsame := ht.same
  constructor
  · rw [hsame]
    simpa [Solo.setRx, Mem.setDesc] using h.usb
  · rw [hsame]
    simpa [Solo.setRx, Mem.setDesc] using h.fd
  · exact ht.ready

/-- the device gives its next answer -/
theorem Took.pop {d : Nat} {w : Solo} {x : RxItem} {rx : List RxItem} (h : ∀ x ∈ w.rx d, Ready x)
    (hrx : w.rx d = x :: rx) : Took d w x.bytes (w.setRx d rx) := by
  constructor
  · rw [Solo.setRx_rx]
  · intro y hy
    rw [Solo.setRx_rx] at hy
    exact h y (hrx ▸ List.mem_cons_of_mem _ hy)
  · rw [hrx, Solo.setRx_rx, arrives_cons]
  · rw [hrx, Solo.setRx_rx, rxSize_cons]
    omega

theorem Took.pop_lt {d : Nat} {w : Solo} {x : RxItem} {rx : List RxItem} (hrx : w.rx d = x :: rx) :
    rxSize ((w.setRx d rx).rx d) < rxSize (w.rx d) := by
  rw [hrx, Solo.setRx_rx, rxSize_cons]
  omega

/-- what a `read` of `n` bytes leaves of bytes that have arrived -/
def leftOver (n : Nat) (bs : List Byte) (rx : List RxItem) : List RxItem :=
  if bs.length ≤ n then rx else .data (bs.drop n) :: rx

theorem leftOver_ready {n : Nat} {bs : List Byte} {rx : List RxItem} (h : ∀ x ∈ rx, Ready x) :
    ∀ x ∈ leftOver n bs rx, Ready x := by
  unfold leftOver
  split
  case isTrue => exact h
  case isFalse hlen =>
    intro x hx
    obtain rfl | hx := List.mem_cons.mp hx
    · show bs.drop n ≠ []
      rw [ne_eq, List.drop_eq_nil_iff]
      exact hlen
    · exact h x hx

theorem leftOver_arrives (n : Nat) (bs : List Byte) (rx : List RxItem) :
    bs.take n ++ arrives (leftOver n bs rx) = bs ++ arrives rx := by
  unfold leftOver
  split
  case isTrue hlen => rw [List.take_of_length_le hlen]
  case isFalse =>
    show bs.take n ++ (bs.drop n ++ arrives rx) = _
    rw [← List.append_assoc, List.take_append_drop]

theorem leftOver_size {n : Nat} (hn : n ≠ 0) (bs : List Byte) (rx : List RxItem) :
    rxSize (leftOver n bs rx) < rxSize (.data bs :: rx) := by
  rw [rxSize_cons]
  unfold leftOver
  split
  case isTrue => omega
  case isFalse hlen =>
    rw [rxSize_cons]
    show 1 + (bs.drop n).length + _ < 1 + bs.length + _
    rw [List.length_drop]
    omega

theorem Took.read {d n : Nat} {w : Solo} {bs : List Byte} {rx : List RxItem}
    (h : ∀ x ∈ w.rx d, Ready x) (hn : n ≠ 0) (hrx : w.rx d = .data bs :: rx) :
    Took d w (bs.take n) (w.setRx d (leftOver n bs rx)) := by
  constructor
  · rw [Solo.setRx_rx]
  · rw [Solo.setRx_rx]
    exact leftOver_ready fun x hx => h x (hrx ▸ List.mem_cons_of_mem _ hx)
  · rw [hrx, Solo.setRx_rx, leftOver_arrives]
    rfl
  · rw [hrx, Solo.setRx_rx]
    exact Nat.le_of_lt (leftOver_size hn bs rx)

/-! ## one read -/

section
variable {d : Nat} {w : Solo}

theorem clockLate_finishes {Q : Bool → Solo → Prop} (h : ∀ x ∈ w.rx d, Ready x) (hQ : Q false w) :
    Finishes (clockLate d .rx) w Q := by
  apply finish_eval (b := false) (m := w.mem) rfl ?_ hQ
  split
  case h_1 rx hrx => exact (h .late (show _ ∈ (w.mem.com.desc d).rx from hrx ▸ List.mem_cons_self)).elim
  · rfl

/-- `poll` may have to be called again; then there is an answer, none is left, or the call fails
with an error that asks to come back -/
theorem waitFd_finishes (h : ∀ x ∈ w.rx d, Ready x) :
    Finishes (waitFd d .rx) w fun r (w' : Solo) => Took d w [] w' ∧
      (r = 0 ∧ (∃ x rx, w'.rx d = x :: rx ∧ ∀ p, x ≠ .poll p) ∨ r = -ETIMEDOUT ∧ w'.rx d = [] ∨
        r = -EAGAIN ∧ rxSize (w'.rx d) < rxSize (w.rx d)) := by
  apply finish_loop (fun _ (w' : Solo) => Took d w [] w') (fun _ (w' : Solo) => rxSize (w'.rx d)) (Took.refl h)
  intro _ (w' : Solo) ht
  apply finish_bind
  cases hrx : w'.rx d with
  | nil =>
    have hd : (w'.mem.com.desc d).rx = [] := hrx
    apply finish_eval (b := some .timeout) (m := w'.mem) rfl (by rw [hd])
    exact finish_pure ⟨ht, .inr (.inl ⟨rfl, hrx⟩)⟩
  | cons x rx =>
    have hd : (w'.mem.com.desc d).rx = x :: rx := hrx
    have hx : Ready x := ht.ready x (hrx ▸ List.mem_cons_self)
    cases x with
    | late => exact hx.elim
    | fail e =>
      apply finish_eval (b := none) (m := w'.mem) rfl (by rw [hd])
      exact finish_pure ⟨ht, .inl ⟨rfl, _, _, hrx, nofun⟩⟩
    | data bs =>
      apply finish_eval (b := none) (m := w'.mem) rfl (by rw [hd])
      exact finish_pure ⟨ht, .inl ⟨rfl, _, _, hrx, nofun⟩⟩
    | poll p =>
      cases p with
      | timeout | hup => exact hx.elim
      | fail e =>
        apply finish_eval (b := some (.fail e)) rfl (by rw [hd])
        have hpop := ht.trans (Took.pop ht.ready hrx)
        have hlt := Took.pop_lt hrx
        apply finish_pure
        obtain he | he := hx
        · rw [if_pos he]
          exact ⟨hpop, hrx ▸ hlt⟩
        · have hne : e.int ≠ EINTR := by
            rw [he]
            decide
          rw [if_neg hne]
          exact ⟨hpop, .inr (.inr ⟨congrArg Neg.neg he, Nat.lt_of_lt_of_le hlt ht.size⟩)⟩

/-- what one read ends with: bytes, a call to be made again, or nothing left -/
inductive ReadEnd (d n : Nat) (w : Solo) : Except Int (List Byte) → Solo → Prop
  | ok {bs : List Byte} {w' : Solo} (h : Took d w bs w') (hbs : bs ≠ []) (hn : bs.length ≤ n)
      (hlt : rxSize (w'.rx d) < rxSize (w.rx d)) : ReadEnd d n w (.ok bs) w'
  | again {w' : Solo} (h : Took d w [] w') (hlt : rxSize (w'.rx d) < rxSize (w.rx d)) :
      ReadEnd d n w (.error (-EAGAIN)) w'
  | empty {w' : Solo} (h : Took d w [] w') (hrx : w'.rx d = []) :
      ReadEnd d n w (.error (-ETIMEDOUT)) w'

/-- `read` with an answer at hand, or after an interrupted `read` -/
theorem readFd_finishes {n : Nat} (hn : n ≠ 0) {w₀ : Solo} (h : Took d w₀ [] w)
    (hat : (∃ x rx, w.rx d = x :: rx ∧ ∀ p, x ≠ .poll p) ∨ rxSize (w.rx d) < rxSize (w₀.rx d)) :
    Finishes (readFd d n) w fun r (w' : Solo) => match r with
      | .error e => Again e ∧ Took d w₀ [] w' ∧ rxSize (w'.rx d) < rxSize (w₀.rx d) ∧
          (e.int = EINTR → rxSize (w'.rx d) < rxSize (w.rx d))
      | .ok bs => bs ≠ [] ∧ ReadEnd d n w₀ (.ok bs) w' := by
  have hstale : rxSize (w.rx d) < rxSize (w₀.rx d) →
      Again eagain ∧ Took d w₀ [] w ∧ rxSize (w.rx d) < rxSize (w₀.rx d) ∧
        (eagain.int = EINTR → rxSize (w.rx d) < rxSize (w.rx d)) :=
    fun hlt => ⟨.inr rfl, h, hlt, fun he => absurd he (by decide)⟩
  cases hrx : w.rx d with
  | nil =>
    have hd : (w.mem.com.desc d).rx = [] := hrx
    apply finish_eval (b := .error eagain) (m := w.mem) rfl (by rw [hd])
    obtain ⟨x, rx, hx, -⟩ | hlt := hat
    · cases hx.symm.trans hrx
    · exact hrx ▸ hstale hlt
  | cons x rx =>
    have hd : (w.mem.com.desc d).rx = x :: rx := hrx
    have hx : Ready x := h.ready x (hrx ▸ List.mem_cons_self)
    have hpop := h.trans (Took.pop h.ready hrx)
    have hlt := Took.pop_lt hrx
    cases x with
    | late => exact hx.elim
    | poll p =>
      apply finish_eval (b := .error eagain) (m := w.mem) rfl (by rw [hd])
      obtain ⟨x', rx', hx', hne⟩ | hlt := hat
      · cases hx'.symm.trans hrx
        exact (hne p rfl).elim
      · exact hrx ▸ hstale hlt
    | fail e =>
      apply finish_eval (b := .error e) rfl (by rw [hd])
      exact ⟨hx, hpop, Nat.lt_of_lt_of_le hlt h.size, fun _ => hrx ▸ hlt⟩
    | data bs =>
      apply finish_eval (b := .ok (bs.take n)) rfl (by rw [hd])
      have htake : bs.take n ≠ [] := by
        rw [ne_eq, List.take_eq_nil_iff]
        exact not_or.mpr ⟨hn, hx⟩
      have hread := h.trans (Took.read h.ready hn hrx)
      have hlt' : rxSize ((w.setRx d (leftOver n bs rx)).rx d) < rxSize (w₀.rx d) := by
        rw [Solo.setRx_rx]
        exact Nat.lt_of_lt_of_le (leftOver_size hn bs rx) (hrx ▸ h.size)
      exact ⟨htake, .ok hread htake (List.length_take_le n bs) hlt'⟩

theorem readSomeFd_finishes {n : Nat} (hn : n ≠ 0) (h : ∀ x ∈ w.rx d, Ready x) :
    Finishes (readSomeFd d n) w (ReadEnd d n w) := by
  unfold readSomeFd
  rw [if_neg hn]
  apply finish_seq (waitFd_finishes h)
  rintro ready (w₁ : Solo) ⟨ht, ⟨rfl, hat⟩ | ⟨rfl, hrx⟩ | ⟨rfl, hlt⟩⟩
  · rw [if_neg (by decide)]
    apply finish_loop (fun _ (w' : Solo) => Took d w [] w' ∧
        ((∃ x rx, w'.rx d = x :: rx ∧ ∀ p, x ≠ .poll p) ∨ rxSize (w'.rx d) < rxSize (w.rx d)))
      (fun _ (w' : Solo) => rxSize (w'.rx d)) ⟨ht, .inl hat⟩
    rintro _ (w₂ : Solo) ⟨ht₂, hat₂⟩
    apply finish_seq (readFd_finishes hn ht₂ hat₂)
    rintro (e | bs) (w₃ : Solo) hr
    · obtain ⟨hagain, ht₃, hlt₃, hintr⟩ := hr
      dsimp only
      by_cases he : e.int = EINTR
      · rw [if_pos he]
        exact finish_pure ⟨⟨ht₃, .inr hlt₃⟩, hintr he⟩
      · rw [if_neg he, if_pos (hagain.resolve_left he)]
        exact finish_pure (.again ht₃ hlt₃)
    · cases bs with
      | nil => exact absurd rfl hr.1
      | cons b bs => exact finish_pure hr.2
  · exact finish_pure (.empty ht hrx)
  · exact finish_pure (.again ht hlt)

theorem rpUsbReceive_finishes {n : Nat} (hn : n ≠ 0) (h : Listening d w) :
    Finishes (rpUsbReceive d n) w (ReadEnd d n w) := by
  apply finish_bind
  apply finish_load
  rw [if_neg (not_not.mpr h.usb), if_neg (Int.not_lt.mpr h.fd)]
  exact readSomeFd_finishes hn h.ready

/-! ## a receive -/

/-- what a receive of `n` bytes ends with: they have arrived, or everything that has is less -/
inductive Receipt (d n : Nat) (w : Solo) : Except Int (List Byte) → Solo → Prop
  | ok {bs : List Byte} {w' : Solo} (h : Took d w bs w') (hlen : bs.length = n) :
      Receipt d n w (.ok bs) w'
  | short {bs : List Byte} {w' : Solo} (h : Took d w bs w') (hlen : bs.length < n)
      (hrx : w'.rx d = []) : Receipt d n w (.error (-ETIMEDOUT)) w'

theorem raspikeComReceiveTimeout_finishes {size : Nat} (hsize : size ≠ 0) (h : Listening d w) :
    Finishes (raspikeComReceiveTimeout (some d) size) w (Receipt d size (w.log (.io d .receive))) := by
  have hlog : Listening d (w.log (.io d .receive)) := ⟨h.usb, h.fd, h.ready⟩
  show Finishes (if size = 0 then _ else _) w _
  rw [if_neg hsize]
  apply finish_bind
  apply finish_tick
  apply finish_loop (fun received (w' : Solo) =>
      Took d (w.log (.io d .receive)) received w' ∧ received.length ≤ size)
    (fun _ (w' : Solo) => rxSize (w'.rx d)) ⟨Took.refl hlog.ready, Nat.zero_le _⟩
  rintro received (w₁ : Solo) ⟨ht, hle⟩
  by_cases hfull : received.length ≥ size
  · rw [if_pos hfull]
    exact finish_pure (.ok ht (Nat.le_antisymm hle hfull))
  rw [if_neg hfull]
  apply finish_bind
  apply clockLate_finishes ht.ready
  rw [if_neg (by decide)]
  apply finish_seq (rpUsbReceive_finishes (by omega) (ht.listening hlog))
  intro r (w₂ : Solo) hr
  cases hr with
  | ok h₂ hbs hn hlt =>
    apply finish_pure
    refine ⟨⟨ht.trans h₂, ?_⟩, hlt⟩
    rw [List.length_append]
    omega
  | again h₂ hlt =>
    dsimp only
    rw [if_pos (.inl rfl)]
    exact finish_pure ⟨⟨List.append_nil received ▸ ht.trans h₂, hle⟩, hlt⟩
  | empty h₂ hrx =>
    dsimp only
    rw [if_neg (by decide)]
    exact finish_pure (.short (List.append_nil received ▸ ht.trans h₂) (by omega) hrx)

/-- a receive for which enough bytes arrive -/
theorem raspikeComReceiveTimeout_gets {bs rest : List Byte} (hbs : bs ≠ []) (h : Listening d w)
    (hrx : arrives (w.rx d) = bs ++ rest) :
    Finishes (raspikeComReceiveTimeout (some d) bs.length) w fun r (w' : Solo) =>
      r = .ok bs ∧ Took d (w.log (.io d .receive)) bs w' := by
  have hlen : bs.length ≠ 0 := by simpa using hbs
  apply finish_mono (raspikeComReceiveTimeout_finishes hlen h)
  intro r w' hr
  cases hr with
  | ok ht heq =>
    have hsplit := ht.bytes.symm.trans hrx
    obtain ⟨rfl, -⟩ := List.append_inj hsplit heq
    exact ⟨rfl, ht⟩
  | short ht hlt hend =>
    have hlen := congrArg List.length (ht.bytes.symm.trans hrx)
    rw [hend, arrives_nil, List.append_nil, List.length_append] at hlen
    omega

end

/-! ## whatever the device does -/

/-- what a `read` takes off the script -/
def RxItem.answers : RxItem → Prop
  | .fail _ | .data _ => True
  | _ => False

section
variable {d : Nat} {w : Solo}

/-- the deadline has passed, or the script begins with something else -/
theorem clockLate_ends : Finishes (clockLate d .rx) w fun late (w' : Solo) =>
    late = false → w' = w ∧ ∀ rx, w.rx d ≠ .late :: rx := by
  by_cases h : ∃ rx, (w.mem.com.desc d).rx = .late :: rx
  · obtain ⟨rx, hrx⟩ := h
    exact finish_eval (b := true) rfl (by rw [hrx]) fun h => absurd h (by decide)
  · apply finish_eval (b := false) (m := w.mem) rfl ?_ fun _ => ⟨rfl, fun rx hrx => h ⟨rx, hrx⟩⟩
    split
    case h_1 rx hrx => exact (h ⟨rx, hrx⟩).elim
    · rfl

/-- the script has got shorter, or nothing is left, or a `read` comes next and finds an answer -/
theorem waitFd_ends (hlate : ∀ rx, w.rx d ≠ .late :: rx) :
    Finishes (waitFd d .rx) w fun r (w' : Solo) => rxSize (w'.rx d) < rxSize (w.rx d) ∨
      r = -ETIMEDOUT ∨ r = 0 ∧ w' = w ∧ ∃ x rx, w.rx d = x :: rx ∧ x.answers := by
  apply finish_loop (fun _ (w' : Solo) => w' = w ∨ rxSize (w'.rx d) < rxSize (w.rx d))
    (fun _ (w' : Solo) => rxSize (w'.rx d)) (.inl rfl)
  intro _ (w' : Solo) hw
  have hle : rxSize (w'.rx d) ≤ rxSize (w.rx d) := by
    obtain rfl | hlt := hw
    · exact Nat.le_refl _
    · exact Nat.le_of_lt hlt
  apply finish_bind
  cases hrx : w'.rx d with
  | nil =>
    have hd : (w'.mem.com.desc d).rx = [] := hrx
    apply finish_eval (b := some .timeout) (m := w'.mem) rfl (by rw [hd])
    exact finish_pure (.inr (.inl rfl))
  | cons x rx =>
    have hd : (w'.mem.com.desc d).rx = x :: rx := hrx
    -- the answer stays for the `read`
    have hready : (w' = w → x.answers) → rxSize (w'.rx d) < rxSize (w.rx d) ∨ (0 : Int) = -ETIMEDOUT ∨
        (0 : Int) = 0 ∧ w' = w ∧ ∃ x rx, w.rx d = x :: rx ∧ x.answers := by
      intro hx
      obtain rfl | hlt := hw
      · exact .inr (.inr ⟨rfl, rfl, x, rx, hrx, hx rfl⟩)
      · exact .inl hlt
    cases x with
    | poll p =>
      apply finish_eval (b := some p) rfl (by rw [hd])
      have hlt : rxSize ((w'.setRx d rx).rx d) < rxSize (w.rx d) :=
        Nat.lt_of_lt_of_le (Took.pop_lt hrx) hle
      have hpop := Took.pop_lt hrx
      rw [hrx] at hpop
      cases p with
      | timeout | hup => exact finish_pure (.inl hlt)
      | fail e =>
        apply finish_pure
        by_cases he : e.int = EINTR
        · rw [if_pos he]
          exact ⟨.inr hlt, hpop⟩
        · rw [if_neg he]
          exact .inl hlt
    | late =>
      apply finish_eval (b := none) (m := w'.mem) rfl (by rw [hd])
      refine finish_pure (hready fun heq => ?_)
      subst heq
      exact (hlate rx hrx).elim
    | fail e =>
      apply finish_eval (b := none) (m := w'.mem) rfl (by rw [hd])
      exact finish_pure (hready fun _ => trivial)
    | data bs =>
      apply finish_eval (b := none) (m := w'.mem) rfl (by rw [hd])
      exact finish_pure (hready fun _ => trivial)

/-- a `read` makes the script shorter, or finds no answer there and asks to come back -/
theorem readFd_ends {n : Nat} (hn : n ≠ 0) : Finishes (readFd d n) w fun r (w' : Solo) =>
    rxSize (w'.rx d) < rxSize (w.rx d) ∨
      r = .error eagain ∧ w' = w ∧ ∀ x rx, w.rx d = x :: rx → ¬ x.answers := by
  have hstale : (w.mem.com.desc d).rx = [] ∨ (∃ x rx, (w.mem.com.desc d).rx = x :: rx ∧ ¬ x.answers) →
      Finishes (readFd d n) w fun r (w' : Solo) => rxSize (w'.rx d) < rxSize (w.rx d) ∨
        r = .error eagain ∧ w' = w ∧ ∀ x rx, w.rx d = x :: rx → ¬ x.answers := by
    intro h
    refine finish_eval (b := .error eagain) (m := w.mem) rfl ?_ (.inr ⟨rfl, rfl, fun x rx hrx hx => ?_⟩)
    · obtain hrx | ⟨x, rx, hrx, hx⟩ := h
      · rw [hrx]
      · cases x with
        | fail | data => exact (hx trivial).elim
        | _ => rw [hrx]
    · have hrx' : (w.mem.com.desc d).rx = x :: rx := hrx
      obtain hnil | ⟨y, rx', hcons, hy⟩ := h
      · cases hnil.symm.trans hrx'
      · cases hcons.symm.trans hrx'
        exact hy hx
  cases hrx : (w.mem.com.desc d).rx with
  | nil => exact hstale (.inl hrx)
  | cons x rx =>
    cases x with
    | late => exact hstale (.inr ⟨_, _, hrx, id⟩)
    | poll p => exact hstale (.inr ⟨_, _, hrx, id⟩)
    | fail e =>
      apply finish_eval (b := .error e) rfl (by rw [hrx])
      exact .inl (Took.pop_lt hrx)
    | data bs =>
      apply finish_eval (b := .ok (bs.take n)) rfl (by rw [hrx])
      left
      show rxSize ((w.setRx d (leftOver n bs rx)).rx d) < rxSize (w.mem.com.desc d).rx
      rw [Solo.setRx_rx, hrx]
      exact leftOver_size hn bs rx

/-- one read makes the script shorter, or ends the receive -/
def Shortens (d : Nat) (w : Solo) (r : Except Int (List Byte)) (w' : Solo) : Prop :=
  rxSize (w'.rx d) < rxSize (w.rx d) ∨ ∃ e, r = .error e ∧ ¬ (e = -EAGAIN ∨ e = -EINTR)

theorem readSomeFd_ends {n : Nat} (hn : n ≠ 0) (hlate : ∀ rx, w.rx d ≠ .late :: rx) :
    Finishes (readSomeFd d n) w (Shortens d w) := by
  unfold readSomeFd
  rw [if_neg hn]
  apply finish_seq (waitFd_ends hlate)
  rintro ready (w₁ : Solo) hready
  by_cases hneg : ready < 0
  · rw [if_pos hneg]
    apply finish_pure
    obtain hlt | rfl | ⟨rfl, -⟩ := hready
    · exact .inl hlt
    · exact .inr ⟨_, rfl, by decide⟩
    · exact absurd hneg (by decide)
  rw [if_neg hneg]
  have hstart : rxSize (w₁.rx d) < rxSize (w.rx d) ∨ w₁ = w ∧ ∃ x rx, w.rx d = x :: rx ∧ x.answers := by
    obtain hlt | rfl | ⟨-, h⟩ := hready
    · exact .inl hlt
    · exact absurd (show -ETIMEDOUT < 0 by decide) hneg
    · exact .inr h
  apply finish_loop (fun _ (w' : Solo) => rxSize (w'.rx d) < rxSize (w.rx d) ∨
    w' = w ∧ ∃ x rx, w.rx d = x :: rx ∧ x.answers) (fun _ (w' : Solo) => rxSize (w'.rx d)) hstart
  rintro _ (w₂ : Solo) h₂
  have hle : rxSize (w₂.rx d) ≤ rxSize (w.rx d) := by
    obtain hlt | ⟨rfl, -⟩ := h₂
    · exact Nat.le_of_lt hlt
    · exact Nat.le_refl _
  apply finish_seq (readFd_ends hn)
  rintro r (w₃ : Solo) h₃
  have hlt : rxSize (w₃.rx d) < rxSize (w.rx d) := by
    obtain hlt | ⟨-, rfl, hno⟩ := h₃
    · exact Nat.lt_of_lt_of_le hlt hle
    · obtain hlt | ⟨rfl, x, rx, hrx, hx⟩ := h₂
      · exact hlt
      · exact (hno x rx hrx hx).elim
  split
  · exact finish_pure (.inl hlt)
  · exact finish_pure (.inl hlt)
  case h_3 e =>
    by_cases he : e.int = EINTR
    · rw [if_pos he]
      apply finish_pure
      refine ⟨.inl hlt, ?_⟩
      obtain hlt | ⟨heq, -⟩ := h₃
      · exact hlt
      · cases heq
        exact absurd he (by decide)
    · rw [if_neg he]
      by_cases he : e.int = EAGAIN
      · rw [if_pos he]
        exact finish_pure (.inl hlt)
      · rw [if_neg he]
        exact finish_pure (.inl hlt)

theorem rpUsbReceive_ends {n : Nat} (hn : n ≠ 0) (hlate : ∀ rx, w.rx d ≠ .late :: rx) :
    Finishes (rpUsbReceive d n) w (Shortens d w) := by
  apply finish_bind
  apply finish_load
  by_cases hfd : (if (w.mem.com.desc d).type ≠ rpComTypeUsb then -1 else (w.mem.com.desc d).desc) < 0
  · rw [if_pos hfd]
    exact finish_pure (.inr ⟨_, rfl, by decide⟩)
  · rw [if_neg hfd]
    exact readSomeFd_ends hn hlate

/-- **A receive ends**, whatever the device does: every turn takes something off its script. -/
theorem raspikeComReceiveTimeout_ends (desc : Option Nat) (size : Nat) :
    Finishes (raspikeComReceiveTimeout desc size) w fun _ _ => True := by
  cases desc with
  | none => exact finish_pure trivial
  | some d =>
    show Finishes (if size = 0 then _ else _) w _
    by_cases hsize : size = 0
    · rw [if_pos hsize]
      exact finish_pure trivial
    rw [if_neg hsize]
    apply finish_bind
    apply finish_tick
    apply finish_loop (fun _ _ => True) (fun _ (w' : Solo) => rxSize (w'.rx d)) trivial
    rintro received (w₁ : Solo) -
    by_cases hfull : received.length ≥ size
    · rw [if_pos hfull]
      exact finish_pure trivial
    rw [if_neg hfull]
    apply finish_seq clockLate_ends
    rintro late (w₂ : Solo) hlate
    cases late with
    | true => exact finish_pure trivial
    | false =>
      obtain ⟨rfl, hlate⟩ := hlate rfl
      apply finish_seq (rpUsbReceive_ends (by omega) hlate)
      rintro (e | bs) (w₃ : Solo) hr
      · by_cases he : e = -EAGAIN ∨ e = -EINTR
        · dsimp only
          rw [if_pos he]
          apply finish_pure
          refine ⟨trivial, hr.resolve_right ?_⟩
          rintro ⟨e', heq, hne⟩
          cases heq
          exact hne he
        · dsimp only
          rw [if_neg he]
          exact finish_pure trivial
      · apply finish_pure
        refine ⟨trivial, hr.resolve_right ?_⟩
        rintro ⟨e', heq, -⟩
        cases heq

end
end RaspikeArt
