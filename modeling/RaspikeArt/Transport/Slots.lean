import RaspikeArt.Transport.Reading
import RaspikeArt.Model.Connected

/-!
# Transport, part 11: one v2 slot

`Heard d w bs w'`: between `w` and `w'` the library has only consumed the bytes `bs` of the device
and counted.  `receive_v2_frame` consumes exactly its slot (header, payload, checksum):

* `receiveV2Frame_version`, `_oversize`, `_crc`  the three rejections;
* `receiveV2Frame_intact`                        the slot that reaches `process_command`.
-/

namespace RaspikeArt
open Threads

/-- nothing has happened but that `bs` was received, and counters -/
structure Heard (d : Nat) (w : Solo) (bs : List Byte) (w' : Solo) : Prop where
  mem : w'.mem = { w.mem.setDesc d (fun s => { s with rx := w'.rx d }) with
    fgLinkStats := w'.mem.fgLinkStats }
  own : w'.own = w.own
  trace : ∃ es, w'.trace = es ++ w.trace ∧ ∀ e ∈ es, e.2 = .io d .receive
  ready : ∀ x ∈ w'.rx d, Ready x
  bytes : arrives (w.rx d) = bs ++ arrives (w'.rx d)

section
variable {d : Nat} {w w' : Solo} {bs cs : List Byte}

theorem Heard.refl (h : ∀ x ∈ w.rx d, Ready x) : Heard d w [] w := by
  refine ⟨?_, rfl, ⟨[], rfl, fun _ h => absurd h List.not_mem_nil⟩, h, rfl⟩
  simp [Solo.rx, Mem.setDesc]

theorem Heard.trans {w₁ w₂ : Solo} (h : Heard d w bs w₁) (h' : Heard d w₁ cs w₂) :
    Heard d w (bs ++ cs) w₂ := by
  obtain ⟨es, htr, hes⟩ := h.trace
  obtain ⟨es', htr', hes'⟩ := h'.trace
  constructor
  · rw [h'.mem, h.mem]
    simp [Mem.setDesc, Solo.rx, Function.update_idem]
  · rw [h'.own, h.own]
  · refine ⟨es' ++ es, by rw [htr', htr, List.append_assoc], fun e he => ?_⟩
    obtain he | he := List.mem_append.mp he
    · exact hes' e he
    · exact hes e he
  · exact h'.ready
  · rw [h.bytes, h'.bytes, List.append_assoc]

theorem Took.heard (h : Took d (w.log (.io d .receive)) bs w') : Heard d w bs w' := by
  have hsame := h.same
  refine ⟨?_, ?_, ⟨[((), .io d .receive)], ?_, ?_⟩, h.ready, h.bytes⟩
  · rw [hsame]
    simp [Solo.setRx, Solo.log, Solo.rx, Mem.setDesc]
  · rw [hsame]
    rfl
  · rw [hsame]
    rfl
  · intro e he
    rw [List.mem_singleton.mp he]

/-- a counter is raised -/
def Solo.bump (w : Solo) (s : Stat) : Solo := { w with mem := w.mem.bump s }

theorem Heard.bump (h : Heard d w bs w') (s : Stat) : Heard d w bs (w'.bump s) := by
  refine ⟨?_, h.own, h.trace, h.ready, h.bytes⟩
  show w'.mem.bump s = _
  rw [Mem.bump, h.mem]
  rfl

theorem Heard.desc (h : Heard d w bs w') : w'.mem.fgDesc = w.mem.fgDesc := by
  rw [h.mem]
  rfl

theorem Heard.listening (h : Heard d w bs w') (hl : Listening d w) : Listening d w' := by
  refine ⟨?_, ?_, h.ready⟩
  · rw [h.mem]
    simpa [Mem.setDesc] using hl.usb
  · rw [h.mem]
    simpa [Mem.setDesc] using hl.fd

theorem statsIncrement_finishes {s : Stat} {Q : Unit → Solo → Prop}
    (hl : w.own .fgLinkStats = none) (hQ : Q () (w.bump s)) : Finishes (statsIncrement s) w Q := by
  apply finish_bind
  apply finish_lock hl
  apply finish_bind
  apply finish_modify
  apply finish_unlock
  have hworld : ({ w.acquire () Mutex.fgLinkStats with mem := w.mem.bump s } : Solo).release
      Mutex.fgLinkStats = w.bump s := by
    show ({ w with mem := _, own := _ } : Solo) = { w with mem := _ }
    rw [World.acquire]
    simp only [Function.update_idem]
    rw [← hl, Function.update_eq_self]
  exact hworld ▸ hQ

/-- the receiver reads from `d`, and no mutex is held -/
structure Attached (d : Nat) (w : Solo) : Prop where
  listening : Listening d w
  desc : w.mem.fgDesc = some d
  free : ∀ l, w.own l = none

theorem Heard.attached (h : Heard d w bs w') (ha : Attached d w) : Attached d w' :=
  ⟨h.listening ha.listening, h.desc.trans ha.desc, fun l => h.own ▸ ha.free l⟩

/-- a receive on the current descriptor for which enough bytes arrive -/
theorem receive_finishes {α : Type} {k : Except Int (List Byte) → P α} {Q : α → Solo → Prop} {n : Nat}
    {rest : List Byte} (ha : Attached d w) (hrx : arrives (w.rx d) = bs ++ rest) (hn : bs.length = n)
    (hpos : 0 < n) (hk : ∀ w', Heard d w bs w' → Finishes (k (.ok bs)) w' Q) :
    Finishes (do
      let desc ← load fun m => m.fgDesc
      k (← raspikeComReceiveTimeout desc n)) w Q := by
  subst hn
  apply finish_bind
  apply finish_load
  rw [ha.desc]
  apply finish_seq (raspikeComReceiveTimeout_gets (List.ne_nil_of_length_pos hpos) ha.listening hrx)
  rintro r (w' : Solo) ⟨rfl, ht⟩
  exact hk w' ht.heard

theorem discardReceiveBytes_finishes {rest : List Byte} (ha : Attached d w)
    (hrx : arrives (w.rx d) = bs ++ rest) :
    Finishes (discardReceiveBytes bs.length) w fun _ w' => Heard d w bs w' := by
  apply finish_loop (fun size (w' : Solo) => ∃ taken left, bs = taken ++ left ∧ left.length = size ∧
      Heard d w taken w') (fun size _ => size) ⟨[], bs, rfl, rfl, Heard.refl ha.listening.ready⟩
  rintro size (w₁ : Solo) ⟨taken, left, rfl, rfl, hh⟩
  by_cases hsize : left.length = 0
  · rw [if_pos hsize]
    rw [List.length_eq_zero_iff.mp hsize, List.append_nil]
    exact finish_pure hh
  rw [if_neg hsize]
  have hleft : arrives (w₁.rx d) = left.take 64 ++ (left.drop 64 ++ rest) := by
    rw [← List.append_assoc, List.take_append_drop]
    have hall := hh.bytes.symm.trans hrx
    rw [List.append_assoc] at hall
    exact List.append_cancel_left hall
  apply receive_finishes (hh.attached ha) hleft (by rw [List.length_take, Nat.min_comm]) (by omega)
  intro w₂ hh₂
  apply finish_pure
  refine ⟨⟨taken ++ left.take 64, left.drop 64, ?_, ?_, hh.trans hh₂⟩, ?_⟩
  · rw [List.append_assoc, List.take_append_drop]
  · rw [List.length_drop, List.length_take]
    omega
  · rw [List.length_take]
    omega

/-! ## the slot -/

section
variable {header rest more : List Byte}

/-- `receive_v2_frame` with its header at hand -/
theorem receiveV2Frame_header {Q : Int → Solo → Prop} (ha : Attached d w) (hlen : header.length = 13)
    (hrx : arrives (w.rx d) = header ++ more)
    (hk : ∀ w', Heard d w header w' → Finishes (receiveV2Body header) w' Q) :
    Finishes receiveV2Frame w Q :=
  receive_finishes ha hrx hlen (by decide) hk

/-- a slot of which only the header is looked at -/
theorem discardSlot_finishes {r : Int} (ha : Attached d w)
    (hrest : rest.length = (header.getD 4 0).toNat + 2) (hrx : arrives (w.rx d) = rest ++ more) :
    Finishes (do
      let _ ← discardReceiveBytes ((header.getD 4 0).toNat + rpV2CrcSize)
      statsIncrement .framingErrors
      return r) w fun r' w' => r' = r ∧ Heard d w rest w' := by
  apply finish_bind
  rw [show rpV2CrcSize = 2 from rfl, ← hrest]
  apply finish_mono (discardReceiveBytes_finishes ha hrx)
  intro _ (w₂ : Solo) hh₂
  apply finish_bind
  apply statsIncrement_finishes ((hh₂.attached ha).free _)
  exact finish_pure ⟨rfl, hh₂.bump _⟩

theorem receiveV2Frame_version (ha : Attached d w) (hlen : header.length = 13)
    (hrest : rest.length = (header.getD 4 0).toNat + 2)
    (hrx : arrives (w.rx d) = header ++ (rest ++ more)) (hv : header.getD 0 0 ≠ rpV2Version) :
    Finishes receiveV2Frame w fun r w' => r = -EPROTONOSUPPORT ∧ Heard d w (header ++ rest) w' := by
  apply receiveV2Frame_header ha hlen hrx
  intro w₁ hh
  have hrx₁ := List.append_cancel_left (hh.bytes.symm.trans hrx)
  unfold receiveV2Body
  dsimp only
  rw [if_pos hv]
  apply finish_mono (discardSlot_finishes (hh.attached ha) hrest hrx₁)
  rintro r w₂ ⟨rfl, hh₂⟩
  exact ⟨rfl, hh.trans hh₂⟩

theorem receiveV2Frame_oversize (ha : Attached d w) (hlen : header.length = 13)
    (hrest : rest.length = (header.getD 4 0).toNat + 2)
    (hrx : arrives (w.rx d) = header ++ (rest ++ more)) (hv : header.getD 0 0 = rpV2Version)
    (hsize : (header.getD 4 0).toNat > rpV2MaxPayload) :
    Finishes receiveV2Frame w fun r w' => r = -EMSGSIZE ∧ Heard d w (header ++ rest) w' := by
  apply receiveV2Frame_header ha hlen hrx
  intro w₁ hh
  have hrx₁ := List.append_cancel_left (hh.bytes.symm.trans hrx)
  unfold receiveV2Body
  dsimp only
  rw [if_neg (not_not.mpr hv), if_pos hsize]
  apply finish_mono (discardSlot_finishes (hh.attached ha) hrest hrx₁)
  rintro r w₂ ⟨rfl, hh₂⟩
  exact ⟨rfl, hh.trans hh₂⟩

/-- the whole slot is read and compared with its checksum -/
theorem receiveV2Frame_whole {Q : Int → Solo → Prop} (ha : Attached d w) (hlen : header.length = 13)
    (hrest : rest.length = (header.getD 4 0).toNat + 2)
    (hrx : arrives (w.rx d) = header ++ (rest ++ more)) (hv : header.getD 0 0 = rpV2Version)
    (hsize : (header.getD 4 0).toNat ≤ rpV2MaxPayload)
    (hk : ∀ w', Heard d w (header ++ rest) w' → Finishes (receiveV2Checked header rest) w' Q) :
    Finishes receiveV2Frame w Q := by
  apply receiveV2Frame_header ha hlen hrx
  intro w₁ hh
  have hrx₁ := List.append_cancel_left (hh.bytes.symm.trans hrx)
  unfold receiveV2Body
  dsimp only
  rw [if_neg (not_not.mpr hv), if_neg (Nat.not_lt.mpr hsize)]
  apply receive_finishes (hh.attached ha) hrx₁ hrest (Nat.succ_pos _)
  intro w₂ hh₂
  exact hk w₂ (hh.trans hh₂)

theorem receiveV2Frame_crc (ha : Attached d w) (hlen : header.length = 13)
    (hrest : rest.length = (header.getD 4 0).toNat + 2)
    (hrx : arrives (w.rx d) = header ++ (rest ++ more)) (hv : header.getD 0 0 = rpV2Version)
    (hsize : (header.getD 4 0).toNat ≤ rpV2MaxPayload)
    (hcrc : rpV2GetU16 (rest.drop (header.getD 4 0).toNat) ≠
      rpV2Crc16 (header ++ rest.take (header.getD 4 0).toNat)) :
    Finishes receiveV2Frame w fun r w' => r = -EBADMSG ∧ Heard d w (header ++ rest) w' := by
  apply receiveV2Frame_whole ha hlen hrest hrx hv hsize
  intro w₁ hh
  unfold receiveV2Checked
  dsimp only
  rw [if_pos hcrc]
  apply finish_bind
  apply statsIncrement_finishes ((hh.attached ha).free _)
  exact finish_pure ⟨rfl, hh.bump _⟩

theorem receiveV2Frame_intact {Q : Int → Solo → Prop} (ha : Attached d w) (hlen : header.length = 13)
    (hrest : rest.length = (header.getD 4 0).toNat + 2)
    (hrx : arrives (w.rx d) = header ++ (rest ++ more)) (hv : header.getD 0 0 = rpV2Version)
    (hsize : (header.getD 4 0).toNat ≤ rpV2MaxPayload)
    (hcrc : rpV2GetU16 (rest.drop (header.getD 4 0).toNat) =
      rpV2Crc16 (header ++ rest.take (header.getD 4 0).toNat))
    (hk : ∀ w', Heard d w (header ++ rest) w' →
      Finishes (processCommand (header.getD 3 0) (header.getD 2 0) (header.getD 1 0)
        (rpV2GetU32 (header.drop 5)) (rpV2GetU32 (header.drop 9))
        (rest.take (header.getD 4 0).toNat)) (w'.log (.v2Frame (rpV2Start :: header ++ rest))) Q) :
    Finishes receiveV2Frame w Q := by
  apply receiveV2Frame_whole ha hlen hrest hrx hv hsize
  intro w₁ hh
  unfold receiveV2Checked
  dsimp only
  rw [if_neg (not_not.mpr hcrc)]
  apply finish_bind
  apply finish_tick
  exact hk w₁ hh

end

end

end RaspikeArt
