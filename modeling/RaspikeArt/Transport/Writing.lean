import RaspikeArt.Threads.Finish
import RaspikeArt.Transport.Slots
import RaspikeArt.Model.Effects

/-!
# Transport, part 17: a device that takes everything

On a device whose answers are all `Willing` a write ends, and all of it has gone out.

* `Gave d w bs w'`   the device has taken `bs`, and nothing else has happened to the memory;
* `Linked d w`       the descriptor is open and its device willing;
* `writeAllFd_gives` the loop of `write_all_fd`; then the functions of the com layer.
-/

namespace RaspikeArt
open Threads

structure Gave (d : Nat) (w : Solo) (bs : List Byte) (w' : Solo) : Prop where
  mem : w'.mem = w.mem.setDesc d fun s => { s with tx := w'.tx d, wire := s.wire ++ bs }
  own : w'.own = w.own
  willing : ∀ x ∈ w'.tx d, Willing x

/-- the descriptor is open, and its device takes what it is given -/
structure Linked (d : Nat) (w : Solo) : Prop where
  usb : (w.mem.com.desc d).type = rpComTypeUsb
  fd : 0 ≤ (w.mem.com.desc d).desc
  willing : ∀ x ∈ w.tx d, Willing x

section
variable {d : Nat} {w w₁ w' : Solo} {bs cs : List Byte}

theorem Gave.refl (h : ∀ x ∈ w.tx d, Willing x) : Gave d w [] w := by
  refine ⟨?_, rfl, h⟩
  simp [Solo.tx, Mem.setDesc]

theorem Gave.trans (h : Gave d w bs w₁) (h' : Gave d w₁ cs w') : Gave d w (bs ++ cs) w' := by
  refine ⟨?_, h'.own.trans h.own, h'.willing⟩
  rw [h'.mem, h.mem]
  simp [Mem.setDesc, Solo.tx, Function.update_idem]

theorem Gave.linked (h : Gave d w bs w') (hl : Linked d w) : Linked d w' := by
  refine ⟨?_, ?_, h.willing⟩
  · rw [h.mem]
    simpa [Mem.setDesc] using hl.usb
  · rw [h.mem]
    simpa [Mem.setDesc] using hl.fd

theorem Gave.wire (h : Gave d w bs w') : w'.mem.wire d = w.mem.wire d ++ bs := by
  rw [h.mem]
  simp [Mem.wire, Mem.setDesc]

/-- the device gives an answer that is no write -/
theorem Gave.pop {x : TxItem} {tx : List TxItem} (h : ∀ x ∈ w.tx d, Willing x) (htx : w.tx d = x :: tx) :
    Gave d w [] (w.setTx d tx) := by
  refine ⟨?_, rfl, ?_⟩
  · rw [Solo.setTx_tx]
    simp [Solo.setTx]
  · intro y hy
    rw [Solo.setTx_tx] at hy
    exact h y (htx ▸ List.mem_cons_of_mem _ hy)

theorem Gave.write {tx : List TxItem} (h : ∀ x ∈ tx, Willing x) : Gave d w bs (w.wrote d tx bs) := by
  refine ⟨?_, rfl, ?_⟩
  · rw [Solo.wrote_tx]
    rfl
  · rwa [Solo.wrote_tx]

/-! ## the loop -/

theorem clockLate_gives {Q : Bool → Solo → Prop} (h : ∀ x ∈ w.tx d, Willing x) (hQ : Q false w) :
    Finishes (clockLate d .tx) w Q := by
  apply finish_eval (b := false) (m := w.mem) rfl ?_ hQ
  split
  case h_1 tx htx =>
    exact (h .late (show _ ∈ (w.mem.com.desc d).tx from htx ▸ List.mem_cons_self)).elim
  case h_2 => rfl

theorem waitFd_gives (h : ∀ x ∈ w.tx d, Willing x) :
    Finishes (waitFd d .tx) w fun r w' => r = 0 ∧ Gave d w [] w' ∧
      (Solo.tx w' d).length ≤ (w.tx d).length ∧ ∀ p tx, Solo.tx w' d ≠ .poll p :: tx := by
  apply finish_loop (fun _ w' => Gave d w [] w' ∧ (Solo.tx w' d).length ≤ (w.tx d).length)
    (fun _ w' => (Solo.tx w' d).length) ⟨Gave.refl h, Nat.le_refl _⟩
  rintro _ w₁ ⟨hg, hle⟩
  apply finish_bind
  by_cases hpoll : ∃ p tx, Solo.tx w₁ d = .poll p :: tx
  · obtain ⟨p, tx, htx⟩ := hpoll
    have hd : (w₁.mem.com.desc d).tx = .poll p :: tx := htx
    have hp : Willing (.poll p) := hg.willing _ (htx ▸ List.mem_cons_self)
    apply finish_eval (b := some p) rfl (by rw [hd])
    cases p with
    | timeout | hup => exact hp.elim
    | fail e =>
      apply finish_pure
      have hnext := hg.trans (Gave.pop hg.willing htx)
      have hlt : (Solo.tx (Solo.setTx w₁ d tx) d).length < (Solo.tx w₁ d).length := by
        rw [Solo.setTx_tx, htx, List.length_cons]
        omega
      have he : e.int = EINTR := hp
      rw [if_pos he]
      exact ⟨⟨hnext, Nat.le_of_lt (Nat.lt_of_lt_of_le hlt hle)⟩, hlt⟩
  · have hne : ∀ p tx, (w₁.mem.com.desc d).tx ≠ .poll p :: tx := fun p tx htx => hpoll ⟨p, tx, htx⟩
    apply finish_eval (b := none) (m := w₁.mem) rfl
    · split
      case h_1 p tx htx => exact (hne p tx htx).elim
      case h_2 => rfl
    · exact finish_pure ⟨rfl, hg, hle, hne⟩

/-- `write` on a ready descriptor: the call is to be made again, or some of `buf` has gone out -/
theorem writeFd_gives (h : ∀ x ∈ w.tx d, Willing x) (hpoll : ∀ p tx, w.tx d ≠ .poll p :: tx)
    {buf : List Byte} (hbuf : buf ≠ []) :
    Finishes (writeFd d buf) w fun r w' => match r with
      | .error e => (e.int = EINTR ∨ e.int = EAGAIN) ∧ Gave d w [] w' ∧
          (Solo.tx w' d).length < (w.tx d).length
      | .ok n => n ≠ 0 ∧ Gave d w (buf.take n) w' ∧ (Solo.tx w' d).length ≤ (w.tx d).length := by
  have hlen : buf.length ≠ 0 := by simpa using hbuf
  cases htx : w.tx d with
  | nil =>
    have hd : (w.mem.com.desc d).tx = [] := htx
    apply finish_eval (x := some (.wrote d buf)) (b := .ok buf.length) (by rw [hd]) (by rw [hd])
    have hwrote : Gave d w buf (w.wrote d (w.tx d) buf) := Gave.write h
    refine ⟨hlen, ?_, ?_⟩
    · rw [List.take_length]
      exact hwrote
    · exact htx ▸ (Solo.wrote_tx w d (w.tx d) buf).symm ▸ Nat.le_refl _
  | cons item tx =>
    have hd : (w.mem.com.desc d).tx = item :: tx := htx
    have hitem : Willing item := h item (htx ▸ List.mem_cons_self)
    have htail : ∀ x ∈ tx, Willing x := fun x hx => h x (htx ▸ List.mem_cons_of_mem _ hx)
    cases item with
    | late => exact hitem.elim
    | poll p => exact (hpoll p tx htx).elim
    | fail e =>
      apply finish_eval (x := none) (b := .error e) (by rw [hd]) (by rw [hd])
      refine ⟨hitem, Gave.pop h htx, ?_⟩
      show (Solo.tx (w.setTx d tx) d).length < _
      rw [Solo.setTx_tx, List.length_cons]
      omega
    | accept k =>
      apply finish_eval (x := some (.wrote d (buf.take k))) (b := .ok (min k buf.length))
        (by rw [hd]) (by rw [hd])
      have hk : k ≠ 0 := hitem
      refine ⟨by omega, ?_, ?_⟩
      · rw [List.take_eq_take_min.symm]
        exact Gave.write htail
      · show (Solo.tx (w.wrote d tx (buf.take k)) d).length ≤ _
        rw [Solo.wrote_tx, List.length_cons]
        omega

theorem writeAllFd_gives (h : ∀ x ∈ w.tx d, Willing x) (buf : List Byte) :
    Finishes (writeAllFd d buf) w fun r w' => r = buf.length ∧ Gave d w buf w' := by
  apply finish_loop (fun rest w' => ∃ out, buf = out ++ rest ∧ Gave d w out w')
    (fun rest w' => rest.length + (Solo.tx w' d).length) ⟨[], rfl, Gave.refl h⟩
  rintro rest w₁ ⟨out, hout, hg⟩
  by_cases hrest : rest = []
  · rw [if_pos hrest]
    rw [hrest, List.append_nil] at hout
    exact finish_pure ⟨rfl, hout ▸ hg⟩
  rw [if_neg hrest]
  apply finish_bind
  apply clockLate_gives hg.willing
  rw [if_neg (by decide)]
  apply finish_seq (waitFd_gives hg.willing)
  rintro _ w₂ ⟨rfl, hg₂, hle₂, hpoll⟩
  rw [if_neg (by decide)]
  have hall := hg.trans hg₂
  rw [List.append_nil] at hall
  apply finish_seq (writeFd_gives hall.willing hpoll hrest)
  rintro (e | n) w₃ hr
  · obtain ⟨he, hg₃, hlt⟩ := hr
    have hall' := hall.trans hg₃
    rw [List.append_nil] at hall'
    dsimp only
    rw [if_pos he]
    exact finish_pure ⟨⟨out, hout, hall'⟩, by omega⟩
  · obtain ⟨hn, hg₃, hle₃⟩ := hr
    have hpos : 0 < rest.length := List.length_pos_of_ne_nil hrest
    cases n with
    | zero => exact (hn rfl).elim
    | succ n =>
      refine finish_pure ⟨⟨out ++ rest.take (n + 1), ?_, hall.trans hg₃⟩, ?_⟩
      · rw [List.append_assoc, List.take_append_drop]
        exact hout
      · rw [List.length_drop]
        omega

end

/-! ## the send buffer -/

/-- the device has taken `out`, and the send buffer is `B`; what a send looks at is as before -/
structure Moved (d : Nat) (w : Solo) (out B : List Byte) (w' : Solo) : Prop where
  com : w'.mem.com = { w.mem.com with
    fgSendBuffer := B
    desc := (w.mem.setDesc d fun s => { s with tx := w'.tx d, wire := s.wire ++ out }).com.desc }
  desc : w'.mem.fgDesc = w.mem.fgDesc
  stop : w'.mem.fgStopCommunication = w.mem.fgStopCommunication
  v2 : w'.mem.fgUseProtocolV2 = w.mem.fgUseProtocolV2
  session : w'.mem.fgSessionId = w.mem.fgSessionId
  own : w'.own = w.own
  willing : ∀ x ∈ w'.tx d, Willing x

section
variable {d : Nat} {w w₁ w' : Solo} {out out' B B' buf : List Byte}

theorem Gave.moved (h : Gave d w out w') : Moved d w out w.mem.com.fgSendBuffer w' := by
  have hmem := h.mem
  refine ⟨?_, ?_, ?_, ?_, ?_, h.own, h.willing⟩
  all_goals
    rw [hmem]
    rfl

theorem Moved.refl (h : ∀ x ∈ w.tx d, Willing x) : Moved d w [] w.mem.com.fgSendBuffer w :=
  (Gave.refl h).moved

theorem Moved.trans (h : Moved d w out B w₁) (h' : Moved d w₁ out' B' w') :
    Moved d w (out ++ out') B' w' := by
  refine ⟨?_, h'.desc.trans h.desc, h'.stop.trans h.stop, h'.v2.trans h.v2,
    h'.session.trans h.session, h'.own.trans h.own, h'.willing⟩
  rw [h'.com]
  simp only [Mem.setDesc]
  rw [h.com]
  simp [Mem.setDesc, Function.update_idem]

theorem Moved.linked (h : Moved d w out B w') (hl : Linked d w) : Linked d w' := by
  refine ⟨?_, ?_, h.willing⟩
  · rw [h.com]
    simpa [Mem.setDesc] using hl.usb
  · rw [h.com]
    simpa [Mem.setDesc] using hl.fd

theorem Moved.buffer (h : Moved d w out B w') : w'.mem.com.fgSendBuffer = B := by
  rw [h.com]

theorem Moved.mode (h : Moved d w out B w') : w'.mem.com.fgSendMode = w.mem.com.fgSendMode := by
  rw [h.com]

theorem Moved.wire (h : Moved d w out B w') : w'.mem.wire d = w.mem.wire d ++ out := by
  rw [Mem.wire, h.com]
  simp [Mem.wire, Mem.setDesc]

/-- the world may differ in what a send does not look at -/
theorem Moved.of_com (h : Moved d w out B w₁) (hcom : w'.mem.com = w₁.mem.com)
    (hdesc : w'.mem.fgDesc = w₁.mem.fgDesc)
    (hstop : w'.mem.fgStopCommunication = w₁.mem.fgStopCommunication)
    (hv2 : w'.mem.fgUseProtocolV2 = w₁.mem.fgUseProtocolV2)
    (hsession : w'.mem.fgSessionId = w₁.mem.fgSessionId) (hown : w'.own = w.own) :
    Moved d w out B w' := by
  have htx : w'.tx d = w₁.tx d := by rw [Solo.tx, hcom, Solo.tx]
  refine ⟨?_, hdesc.trans h.desc, hstop.trans h.stop, hv2.trans h.v2, hsession.trans h.session, hown, ?_⟩
  · rw [hcom, htx]
    exact h.com
  · rw [htx]
    exact h.willing

/-- only the send buffer changes -/
theorem Moved.setBuffer (h : Moved d w out B w₁) (B' : List Byte) (x : Option Event) :
    Moved d w out B' { w₁ with
      mem := { w₁.mem with com := { w₁.mem.com with fgSendBuffer := B' } }
      trace := World.push () x w₁.trace } :=
  ⟨congrArg (fun c => { c with fgSendBuffer := B' }) h.com, h.desc, h.stop, h.v2, h.session, h.own,
    h.willing⟩

/-- a section under the mutex of the buffer -/
theorem Moved.released {l : Mutex} (hl : w.own l = none) (h : Moved d (w.acquire () l) out B w₁) :
    Moved d w out B (w₁.release l) :=
  ⟨h.com, h.desc, h.stop, h.v2, h.session, release_acquired hl h.own, h.willing⟩

theorem Moved.unlog {e : Event} (h : Moved d (w.log e) out B w₁) : Moved d w out B w₁ :=
  ⟨h.com, h.desc, h.stop, h.v2, h.session, h.own, h.willing⟩

theorem flushBufferLocked_moves (h : Linked d w) :
    Finishes (flushBufferLocked d) w fun r w' => 0 ≤ r ∧ Moved d w w.mem.com.fgSendBuffer [] w' := by
  apply finish_bind
  apply finish_load
  by_cases hempty : w.mem.com.fgSendBuffer = []
  · rw [if_pos hempty]
    apply finish_pure
    have hstay := Moved.refl h.willing
    rw [hempty] at hstay ⊢
    exact ⟨Int.le_refl 0, hstay⟩
  rw [if_neg hempty]
  apply finish_bind
  apply finish_load
  rw [if_neg (not_not.mpr h.usb), if_neg (Int.not_lt.mpr h.fd)]
  apply finish_seq (writeAllFd_gives h.willing _)
  rintro _ w₁ ⟨rfl, hg⟩
  rw [if_neg (by omega)]
  apply finish_bind
  apply finish_act
  exact finish_pure ⟨by omega, hg.moved.setBuffer [] _⟩

theorem raspikeComFlush_moves (h : Linked d w) (hl : w.own .comSend = none) :
    Finishes (raspikeComFlush (some d)) w fun r w' =>
      0 ≤ r ∧ Moved d w w.mem.com.fgSendBuffer [] w' := by
  apply finish_bind
  apply finish_tick
  apply finish_bind
  apply finish_lock
  case hl => exact hl
  apply finish_seq (flushBufferLocked_moves (w := (w.log _).acquire () .comSend) ⟨h.usb, h.fd, h.willing⟩)
  rintro r w₁ ⟨hr, hm⟩
  apply finish_bind
  apply finish_unlock
  rw [if_neg (Int.not_lt.mpr hr)]
  have hend := Moved.released (w := w.log _) hl hm
  exact finish_pure ⟨Int.le_refl 0, hend.unlog⟩

theorem bufferedWrite_moves (h : ∀ x ∈ w.tx d, Willing x) (hl : w.own .comSend = none)
    (hroom : w.mem.com.fgSendBuffer.length + buf.length ≤ rpSendBufferSize) :
    Finishes (bufferedWrite d buf) w fun r w' =>
      r = buf.length ∧ Moved d w [] (w.mem.com.fgSendBuffer ++ buf) w' := by
  unfold bufferedWrite
  rw [if_neg (by omega)]
  apply finish_bind
  apply finish_lock hl
  apply finish_bind
  apply finish_load
  split
  case isTrue hbig => exact absurd hroom (Nat.not_le.mpr hbig)
  apply finish_bind
  apply finish_act
  apply finish_bind
  apply finish_unlock
  have hstay : Moved d (w.acquire () .comSend) [] w.mem.com.fgSendBuffer (w.acquire () .comSend) :=
    Moved.refl h
  exact finish_pure ⟨rfl, (hstay.setBuffer _ _).released hl⟩

theorem bufferedWrite_full (h : ∀ x ∈ w.tx d, Willing x) (hl : w.own .comSend = none)
    (hroom : ¬ w.mem.com.fgSendBuffer.length + buf.length ≤ rpSendBufferSize) :
    Finishes (bufferedWrite d buf) w fun r w' => r < 0 ∧ Moved d w [] w.mem.com.fgSendBuffer w' := by
  unfold bufferedWrite
  by_cases hbuf : buf.length > rpSendBufferSize
  · rw [if_pos hbuf]
    exact finish_pure ⟨by decide, Moved.refl h⟩
  rw [if_neg hbuf]
  apply finish_bind
  apply finish_lock hl
  apply finish_bind
  apply finish_load
  split
  case isFalse hsmall => exact absurd (Nat.le_of_not_lt hsmall) hroom
  apply finish_bind
  apply finish_unlock
  have hstay : Moved d (w.acquire () .comSend) [] w.mem.com.fgSendBuffer (w.acquire () .comSend) :=
    Moved.refl h
  exact finish_pure ⟨by decide, hstay.released hl⟩

/-- what a send leaves: the device has taken the bytes, the buffer has, or nothing has -/
structure SendOut (d : Nat) (buf : List Byte) (w : Solo) (r : Int) (w' : Solo) : Prop where
  normal : w.mem.com.fgSendMode = .normal → r = buf.length ∧ Moved d w buf w.mem.com.fgSendBuffer w'
  room : w.mem.com.fgSendMode = .buffered →
    w.mem.com.fgSendBuffer.length + buf.length ≤ rpSendBufferSize →
    r = buf.length ∧ Moved d w [] (w.mem.com.fgSendBuffer ++ buf) w'
  full : w.mem.com.fgSendMode = .buffered →
    ¬ w.mem.com.fgSendBuffer.length + buf.length ≤ rpSendBufferSize →
    r < 0 ∧ Moved d w [] w.mem.com.fgSendBuffer w'

theorem raspikeComSend_moves (h : Linked d w) (hl : w.own .comSend = none) :
    Finishes (raspikeComSend (some d) buf) w (SendOut d buf w) := by
  apply finish_bind
  apply finish_tick
  apply finish_bind
  apply finish_lock
  case hl => exact hl
  apply finish_bind
  apply finish_load
  apply finish_bind
  apply finish_unlock
  have hlog : Moved d w [] w.mem.com.fgSendBuffer
      (((w.log (.io d (.send buf))).acquire () .comSend).release .comSend) :=
    ⟨(Moved.refl h.willing).com, rfl, rfl, rfl, rfl, release_acquired hl rfl, h.willing⟩
  let w₁ : Solo := ((w.log (.io d (.send buf))).acquire () .comSend).release .comSend
  have hl₁ : w₁.own .comSend = none := (congrFun hlog.own .comSend).trans hl
  have hbuf : w₁.mem.com.fgSendBuffer = w.mem.com.fgSendBuffer := rfl
  show Finishes (if w.mem.com.fgSendMode = .buffered then _ else _) w₁ _
  split
  case isTrue hmode =>
    have hnormal : w.mem.com.fgSendMode ≠ .normal := fun h => by cases hmode.symm.trans h
    by_cases hroom : w.mem.com.fgSendBuffer.length + buf.length ≤ rpSendBufferSize
    · apply finish_mono (bufferedWrite_moves hlog.willing hl₁ hroom)
      rintro r w₂ ⟨rfl, hm⟩
      exact ⟨fun h => (hnormal h).elim, fun _ _ => ⟨rfl, hlog.trans hm⟩, fun _ h => (h hroom).elim⟩
    · apply finish_mono (bufferedWrite_full hlog.willing hl₁ hroom)
      rintro r w₂ ⟨hr, hm⟩
      exact ⟨fun h => (hnormal h).elim, fun _ h => (hroom h).elim, fun _ _ => ⟨hr, hlog.trans hm⟩⟩
  case isFalse hmode =>
    have hlinked : Linked d w₁ := hlog.linked h
    apply finish_bind
    apply finish_load
    have hfd : (if (w₁.mem.com.desc d).type ≠ rpComTypeUsb then -1 else (w₁.mem.com.desc d).desc) =
        (w₁.mem.com.desc d).desc := if_neg (not_not.mpr hlinked.usb)
    rw [hfd, if_neg (Int.not_lt.mpr hlinked.fd)]
    apply finish_mono (writeAllFd_gives hlinked.willing buf)
    rintro _ w₂ ⟨rfl, hg⟩
    exact ⟨fun _ => ⟨rfl, hlog.trans hg.moved⟩, fun h => (hmode h).elim, fun h => (hmode h).elim⟩

theorem SendOut.unlog {e : Event} {r : Int} (h : SendOut d buf (w.log e) r w₁) : SendOut d buf w r w₁ :=
  ⟨fun hm => ⟨(h.normal hm).1, (h.normal hm).2.unlog⟩,
    fun hm hroom => ⟨(h.room hm hroom).1, (h.room hm hroom).2.unlog⟩,
    fun hm hfull => ⟨(h.full hm hfull).1, (h.full hm hfull).2.unlog⟩⟩

/-- what a caller of `send_frame` has to give -/
structure Sendable (port : Byte) (payload : Buf) (size : Int) : Prop where
  port : raspikeIsValidPort port = true
  nonneg : 0 ≤ size
  max : size ≤ rpV2MaxPayload
  given : 0 < size → payload.isSome

theorem sendV2Frame_moves {port : Byte} {payload : Buf} {size : Int} (cmd flags : Byte) (sequence : U32)
    (h : Linked d w) (hdesc : w.mem.fgDesc = some d) (hl : w.own .comSend = none)
    (hs : Sendable port payload size) :
    Finishes (sendV2Frame port cmd payload size sequence flags) w
      (SendOut d (v2Frame port cmd flags sequence w.mem.fgSessionId (payload.take size)) w) := by
  have hok : ¬ (!raspikeIsValidPort port || size < 0 || size > rpV2MaxPayload
      || (size > 0 && payload.isNone)) = true := by
    have hneg : ¬ size < 0 := Int.not_lt.mpr hs.nonneg
    have hmax : ¬ size > rpV2MaxPayload := Int.not_lt.mpr hs.max
    have hgiven : 0 < size → ¬ payload = none := fun hpos => Option.isSome_iff_ne_none.mp (hs.given hpos)
    simpa [hs.port, hneg, hmax] using hgiven
  unfold sendV2Frame
  rw [if_neg hok]
  apply finish_bind
  apply finish_act
  apply finish_bind
  apply finish_load
  show Finishes (raspikeComSend w.mem.fgDesc _) (w.log _) _
  rw [hdesc]
  apply finish_mono (raspikeComSend_moves (w := w.log _) ⟨h.usb, h.fd, h.willing⟩ hl)
  intro r w₁ hout
  exact hout.unlog

end

end RaspikeArt
