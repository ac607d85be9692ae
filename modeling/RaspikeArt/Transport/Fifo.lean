import RaspikeArt.Transport.Device

/-!
# Transport, part 2: the send buffer as a queue

What one call of the com layer does to the bytes on the wire and in the send buffer.

* `Mid`                 a world in the middle of a write;
* `Flushed`, `Sent`     the ends of a flush and of a send;
* `accepted`            the bytes of the sends that have succeeded, in their order;
* `Delivered`           the end of a call: the wire and the buffer have grown by what it accepts;
* `flushBufferLocked_alone` .. `comCall_alone`  one spec for each function.
-/

set_option linter.unusedSectionVars false

namespace RaspikeArt
open Threads

namespace Solo

def buffer (w : Solo) : List Byte := w.mem.com.fgSendBuffer
def mode (w : Solo) : UsbMode := w.mem.com.fgSendMode
def wire (w : Solo) (d : Nat) : List Byte := (w.mem.com.desc d).wire

/-- the send buffer takes `bs` -/
def queued (w : Solo) (d : Nat) (bs : List Byte) : Solo :=
  { w with
    mem := { w.mem with com := { w.mem.com with fgSendBuffer := w.mem.com.fgSendBuffer ++ bs } }
    trace := ((), .queued d bs) :: w.trace }

/-- the send buffer is emptied -/
def emptied (w : Solo) (d : Nat) : Solo :=
  { w with
    mem := { w.mem with com := { w.mem.com with fgSendBuffer := [] } }
    trace := ((), .emptied d) :: w.trace }

end Solo

/-- the return of a call of the com layer -/
def Event.isReturn : Event → Bool
  | .comReturned .. => true
  | _ => false

/-- `w'` comes after `w` in the same call; of `out`, `rest` is still to be written to `d` -/
structure Mid (d : Nat) (out : List Byte) (w : Solo) (rest : List Byte) (w' : Solo) : Prop where
  trace : ∃ es, w'.trace = es ++ w.trace ∧ ∀ x ∈ es, x.2.isReturn = false
  wire : Solo.wire w' d ++ rest = Solo.wire w d ++ out
  buffer : Solo.buffer w' = Solo.buffer w
  mode : Solo.mode w' = Solo.mode w
  tx : Solo.tx w' d <:+ Solo.tx w d

namespace Mid

variable {d : Nat} {out rest : List Byte} {w w' : Solo}

theorem refl (d : Nat) (out : List Byte) (w : Solo) : Mid d out w out w :=
  ⟨⟨[], rfl, nofun⟩, rfl, rfl, rfl, List.suffix_refl _⟩

theorem own (h : Mid d out w rest w') (own : Mutex → Option Unit) :
    Mid d out w rest { w' with own := own } :=
  ⟨h.trace, h.wire, h.buffer, h.mode, h.tx⟩

/-- the mutexes of the first world do not matter either -/
theorem base {own : Mutex → Option Unit} (h : Mid d out { w with own := own } rest w') :
    Mid d out w rest w' :=
  ⟨h.trace, h.wire, h.buffer, h.mode, h.tx⟩

theorem label (h : Mid d out w rest w') {e : Event} (he : e.isReturn = false) :
    Mid d out w rest { w' with trace := ((), e) :: w'.trace } := by
  obtain ⟨es, hes, hret⟩ := h.trace
  refine ⟨⟨((), e) :: es, by rw [hes]; rfl, ?_⟩, h.wire, h.buffer, h.mode, h.tx⟩
  intro x hx
  rcases List.mem_cons.mp hx with rfl | hx
  · exact he
  · exact hret x hx

/-- nor does a label before it -/
theorem unlabel {e : Event} (he : e.isReturn = false)
    (h : Mid d out { w with trace := ((), e) :: w.trace } rest w') : Mid d out w rest w' := by
  obtain ⟨es, hes, hret⟩ := h.trace
  refine ⟨⟨es ++ [((), e)], by rw [hes, List.append_assoc]; rfl, ?_⟩, h.wire, h.buffer, h.mode, h.tx⟩
  intro x hx
  rcases List.mem_append.mp hx with hx | hx
  · exact hret x hx
  · cases List.mem_singleton.mp hx
    exact he

theorem setTx (h : Mid d out w rest w') {item : TxItem} {tx : List TxItem}
    (htx : Solo.tx w' d = item :: tx) : Mid d out w rest (w'.setTx d tx) := by
  refine ⟨h.trace, ?_, h.buffer, h.mode, ?_⟩
  · rw [← h.wire]
    simp [Solo.wire, Solo.setTx, Mem.setDesc]
  · rw [Solo.setTx_tx]
    exact (htx ▸ List.suffix_cons item tx).trans h.tx

theorem wrote (h : Mid d out w rest w') {tx : List TxItem} {n : Nat}
    (htx : tx <:+ Solo.tx w' d) : Mid d out w (rest.drop n) (w'.wrote d tx (rest.take n)) := by
  obtain ⟨es, hes, hret⟩ := h.trace
  refine ⟨⟨((), .wrote d (rest.take n)) :: es, ?_, ?_⟩, ?_, h.buffer, h.mode, ?_⟩
  · show _ :: w'.trace = _
    rw [hes]
    rfl
  · intro x hx
    rcases List.mem_cons.mp hx with rfl | hx
    · rfl
    · exact hret x hx
  · have hwire : Solo.wire (w'.wrote d tx (rest.take n)) d = Solo.wire w' d ++ rest.take n := by
      simp [Solo.wire, Solo.wrote, Mem.setDesc]
    rw [hwire, List.append_assoc, List.take_append_drop, h.wire]
  · rw [Solo.wrote_tx]
    exact htx.trans h.tx

/-- what is on the wire is a prefix of what is to be -/
theorem isPrefix (h : Mid d out w rest w') : Solo.wire w' d <+: Solo.wire w d ++ out :=
  ⟨rest, h.wire⟩

end Mid

section
variable {K P : Solo → Prop} {d : Nat}

/-- `P` holds in the middle of every write of `out` that begins in `w` -/
def Through (P : Solo → Prop) (d : Nat) (out : List Byte) (w : Solo) : Prop :=
  ∀ rest w', Mid d out w rest w' → P w'

theorem Through.writeInv {out : List Byte} {w : Solo} (h : Through P d out w) :
    WriteInv K P d (Mid d out w) where
  safe rest w' hmid := h rest w' hmid
  setTx _ _ _ _ hmid htx := hmid.setTx htx
  wrote _ _ _ _ hmid htx _ _ := hmid.wrote htx

/-- the end of a flush: all of the buffer is written, or the buffer is left as it is -/
inductive Flushed (d : Nat) (w : Solo) (r : Int) : Solo → Prop where
  | done {w' : Solo} (hr : 0 ≤ r) (hmid : Mid d (Solo.buffer w) w [] w') : Flushed d w r (w'.emptied d)
  | empty {w' : Solo} (hr : 0 ≤ r) (hb : Solo.buffer w = []) (hmid : Mid d [] w [] w') :
      Flushed d w r w'
  | failed {w' : Solo} (hr : r < 0) (n : Nat)
      (hmid : Mid d (Solo.buffer w) w ((Solo.buffer w).drop n) w')
      (hn : n = 0 ∨ deviceTakes true (Solo.tx w d) (Solo.buffer w).length = (n, false)) :
      Flushed d w r w'

/-- the end of a send -/
inductive Sent (d : Nat) (buf : List Byte) (w : Solo) (r : Int) : Solo → Prop where
  | queued {w' : Solo} (hm : Solo.mode w = .buffered) (hr : 0 ≤ r) (hmid : Mid d buf w buf w') :
      Sent d buf w r (w'.queued d buf)
  | refused {w' : Solo} (hr : r < 0) (hmid : Mid d buf w buf w') : Sent d buf w r w'
  | written {w' : Solo} (hm : Solo.mode w = .normal) (n : Nat)
      (hmid : Mid d buf w (buf.drop n) w')
      (hn : deviceTakes true (Solo.tx w d) buf.length = (n, decide (0 ≤ r))) : Sent d buf w r w'

theorem Flushed.own {w w' : Solo} {r : Int} (h : Flushed d w r w') (own : Mutex → Option Unit) :
    Flushed d w r { w' with own := own } := by
  cases h with
  | done hr hmid => exact .done hr (hmid.own own)
  | empty hr hb hmid => exact .empty hr hb (hmid.own own)
  | failed hr n hmid hn => exact .failed hr n (hmid.own own) hn

theorem getUsbFd_alone {w : Solo} {Q : Int → Solo → Prop} (hQ : ∀ fd, Q fd w) :
    Alone K P (getUsbFd d) Q w :=
  alone_load fun _ _ => hQ _

theorem flushBufferLocked_alone {w : Solo} (hP : Through P d (Solo.buffer w) w)
    (hE : ∀ w', Mid d (Solo.buffer w) w [] w' → P (w'.emptied d)) :
    Alone K P (flushBufferLocked d) (Flushed d w) w := by
  refine alone_bind (alone_load fun _ _ => ?_)
  show Alone K P (if Solo.buffer w = [] then _ else _) _ w
  split
  case isTrue hb => exact alone_pure (.empty (Int.le_refl 0) hb (.refl d [] w))
  refine alone_bind (getUsbFd_alone fun fd => ?_)
  split
  · exact alone_pure (.failed (by decide) 0 (.refl d _ w) (.inl rfl))
  refine alone_seq _ (writeAllFd_alone hP.writeInv (.refl d _ w)) fun ret w' hret => ?_
  cases htakes : deviceTakes true (Solo.tx w d) (Solo.buffer w).length with
  | mk n ok =>
  change WriteEnd (Mid d (Solo.buffer w) w) _ (deviceTakes true (Solo.tx w d) (Solo.buffer w).length)
    ret w' at hret
  rw [htakes] at hret
  cases ok with
  | false =>
    have hneg := hret.failed rfl
    rw [if_pos hneg]
    exact alone_pure (.failed hneg n hret.inv (.inr htakes))
  | true =>
    have hn : n = (Solo.buffer w).length := by
      have := deviceTakes_all (congrArg Prod.snd htakes)
      rwa [htakes] at this
    have hpos : 0 ≤ ret := by
      rw [hret.ok rfl]
      exact Int.natCast_nonneg _
    have hmid : Mid d (Solo.buffer w) w ((Solo.buffer w).drop n) w' := hret.inv
    rw [hn, List.drop_length] at hmid
    rw [if_neg (by omega)]
    exact alone_bind (alone_eval rfl rfl fun _ _ => ⟨hE w' hmid, alone_pure (.done hpos hmid)⟩)

theorem Flushed.base {w w' : Solo} {r : Int} {own : Mutex → Option Unit}
    (h : Flushed d { w with own := own } r w') : Flushed d w r w' := by
  cases h with
  | done hr hmid => exact .done hr hmid.base
  | empty hr hb hmid => exact .empty hr hb hmid.base
  | failed hr n hmid hn => exact .failed hr n hmid.base hn

/-- what `P` has to hold of during a flush -/
structure FlushSafe (P : Solo → Prop) (d : Nat) (w : Solo) : Prop where
  through : Through P d (Solo.buffer w) w
  emptied : ∀ w', Mid d (Solo.buffer w) w [] w' → P (w'.emptied d)

theorem FlushSafe.own {w : Solo} (h : FlushSafe P d w) (own : Mutex → Option Unit) :
    FlushSafe P d { w with own := own } :=
  ⟨fun rest w' hmid => h.through rest w' hmid.base, fun w' hmid => h.emptied w' hmid.base⟩

/-- `P` holds after a flush -/
theorem FlushSafe.flushed {w w' : Solo} {r : Int} (h : FlushSafe P d w) (hf : Flushed d w r w') :
    P w' := by
  cases hf with
  | done hr hmid => exact h.emptied _ hmid
  | empty hr hb hmid => exact h.through _ _ (hb ▸ hmid)
  | failed hr n hmid hn => exact h.through _ _ hmid

/-- a flush within its mutex -/
theorem flushLocked_alone {β : Type} {w : Solo} {q : Int → Prog Mutex CondVar Event Mem β} {Q : β → Solo → Prop} (h : FlushSafe P d w)
    (hQ : ∀ r w', Flushed d w r w' → Alone K P (q r) Q w') :
    Alone K P (do
      lock .comSend
      let ret ← flushBufferLocked d
      unlock .comSend
      q ret) Q w := by
  refine alone_bind (alone_lock fun _ _ => ⟨h.through _ _ ((Mid.refl d _ w).own _), ?_⟩)
  refine alone_seq _ (flushBufferLocked_alone (h.own _).through (h.own _).emptied) fun r w' hf => ?_
  have hf' := hf.base
  refine alone_bind (alone_unlock fun _ => ?_)
  exact ⟨h.flushed (hf'.own _), hQ r _ (hf'.own _)⟩

theorem rpUsbFlush_alone {w : Solo} (h : FlushSafe P d w) :
    Alone K P (rpUsbFlush d) (Flushed d w) w := by
  refine flushLocked_alone h fun r w' hf => alone_pure ?_
  split
  · exact hf
  case isFalse hr =>
    cases hf with
    | done _ hmid => exact .done (Int.le_refl 0) hmid
    | empty _ hb hmid => exact .empty (Int.le_refl 0) hb hmid
    | failed hneg => exact (hr hneg).elim

theorem FlushSafe.label {w : Solo} {e : Event} (h : FlushSafe P d w) (he : e.isReturn = false) :
    FlushSafe P d { w with trace := ((), e) :: w.trace } :=
  ⟨fun rest w' hmid => h.through rest w' (hmid.unlabel he), fun w' hmid => h.emptied w' (hmid.unlabel he)⟩

theorem Flushed.unlabel {w w' : Solo} {e : Event} {r : Int} (he : e.isReturn = false)
    (h : Flushed d { w with trace := ((), e) :: w.trace } r w') : Flushed d w r w' := by
  cases h with
  | done hr hmid => exact .done hr (hmid.unlabel he)
  | empty hr hb hmid => exact .empty hr hb (hmid.unlabel he)
  | failed hr n hmid hn => exact .failed hr n (hmid.unlabel he) hn

theorem raspikeComFlush_alone {w : Solo} (h : FlushSafe P d w) :
    Alone K P (raspikeComFlush (some d)) (Flushed d w) w := by
  refine alone_bind (alone_tick fun _ _ => ⟨h.through _ _ ((Mid.refl d _ w).label rfl), ?_⟩)
  exact alone_mono (fun _ _ hf => hf.unlabel rfl) (rpUsbFlush_alone (h.label rfl))

theorem raspikeUsbBufferFlush_alone {w : Solo} (h : FlushSafe P d w) :
    Alone K P (raspikeUsbBufferFlush d) (fun _ w' => ∃ r, Flushed d w r w') w := by
  refine alone_bind (alone_tick fun _ _ => ⟨h.through _ _ ((Mid.refl d _ w).label rfl), ?_⟩)
  refine flushLocked_alone (h.label rfl) (q := fun _ => pure ()) fun r w' hf => ?_
  exact alone_pure ⟨r, hf.unlabel rfl⟩

/-! ## sends -/

/-- what `P` has to hold of during a send of `buf` -/
structure SendSafe (P : Solo → Prop) (d : Nat) (buf : List Byte) (w : Solo) : Prop where
  still : ∀ w', Mid d buf w buf w' → P w'
  written : Solo.mode w = .normal → Through P d buf w
  queued : Solo.mode w = .buffered → ∀ w', Mid d buf w buf w' → P (w'.queued d buf)

theorem bufferedWrite_alone {buf : List Byte} {w₀ w : Solo} (h : SendSafe P d buf w₀)
    (hm : Solo.mode w₀ = .buffered) (hw : Mid d buf w₀ buf w) :
    Alone K P (bufferedWrite d buf) (Sent d buf w₀) w := by
  unfold bufferedWrite
  split
  · exact alone_pure (.refused (by decide) hw)
  refine alone_bind (alone_lock fun _ _ => ⟨h.still _ (hw.own _), ?_⟩)
  have hlocked := hw.own (Function.update w.own .comSend (some ()))
  refine alone_bind (alone_load fun _ _ => ?_)
  split
  · refine alone_bind (alone_unlock fun _ => ⟨h.still _ (hlocked.own _), ?_⟩)
    exact alone_pure (.refused (by decide) (hlocked.own _))
  refine alone_bind (alone_eval rfl rfl fun _ _ => ⟨h.queued hm _ hlocked, ?_⟩)
  have hfree := hlocked.own (Function.update (Function.update w.own .comSend (some ())) .comSend none)
  refine alone_bind (alone_unlock fun _ => ⟨h.queued hm _ hfree, ?_⟩)
  exact alone_pure (.queued hm (Int.natCast_nonneg _) hfree)

theorem rpUsbSend_alone {buf : List Byte} {w : Solo} (h : SendSafe P d buf w) :
    Alone K P (rpUsbSend d buf) (Sent d buf w) w := by
  have hw := Mid.refl d buf w
  refine alone_bind (alone_lock fun _ _ => ⟨h.still _ (hw.own _), ?_⟩)
  refine alone_bind (alone_load fun _ _ => ?_)
  refine alone_bind (alone_unlock fun _ => ⟨h.still _ ((hw.own _).own _), ?_⟩)
  have hfree := (hw.own (Function.update w.own .comSend (some ()))).own
    (Function.update (Function.update w.own .comSend (some ())) .comSend none)
  show Alone K P (if Solo.mode w = .buffered then _ else _) _ _
  split
  case isTrue hm => exact bufferedWrite_alone h hm hfree
  case isFalse hm =>
    have hnormal : Solo.mode w = .normal := by
      cases hmode : Solo.mode w with
      | normal => rfl
      | buffered => exact (hm hmode).elim
    refine alone_bind (getUsbFd_alone fun fd => ?_)
    split
    · exact alone_pure (.refused (by decide) hfree)
    refine alone_mono ?_ (writeAllFd_alone (h.written hnormal).writeInv hfree)
    intro r w' hr
    cases htakes : deviceTakes true (Solo.tx w d) buf.length with
    | mk n ok =>
    change WriteEnd (Mid d buf w) buf (deviceTakes true (Solo.tx w d) buf.length) r w' at hr
    rw [htakes] at hr
    refine .written hnormal n hr.inv ?_
    rw [htakes]
    cases ok with
    | true =>
      have := hr.ok rfl
      rw [decide_eq_true (by omega)]
    | false =>
      have := hr.failed rfl
      rw [decide_eq_false (by omega)]

theorem raspikeComSend_alone {buf : List Byte} {w : Solo} (h : SendSafe P d buf w) :
    Alone K P (raspikeComSend (some d) buf) (Sent d buf w) w := by
  refine alone_bind (alone_tick fun _ _ => ⟨h.still _ ((Mid.refl d _ w).label rfl), ?_⟩)
  have hlabel : SendSafe P d buf { w with trace := ((), .io d (.send buf)) :: w.trace } :=
    ⟨fun w' hmid => h.still w' (hmid.unlabel rfl), fun hm rest w' hmid =>
      h.written hm rest w' (hmid.unlabel rfl), fun hm w' hmid => h.queued hm w' (hmid.unlabel rfl)⟩
  refine alone_mono ?_ (rpUsbSend_alone hlabel)
  intro r w' hs
  cases hs with
  | queued hm hr hmid => exact .queued hm hr (hmid.unlabel rfl)
  | refused hr hmid => exact .refused hr (hmid.unlabel rfl)
  | written hm n hmid hn => exact .written hm n (hmid.unlabel rfl) hn

end

/-! ## calls on one descriptor -/

/-- every descriptor of the call is `d` -/
def ComCall.On (d : Nat) : ComCall → Prop
  | .send desc _ | .flush desc => ∀ d' ∈ desc, d' = d
  | .usbBufferFlush d' => d' = d
  | .usbSetMode _ => True

/-- what a call adds to the bytes that are accepted -/
def ComCall.accepts : ComCall → Int → List Byte
  | .send _ buf, r => if 0 ≤ r then buf else []
  | _, _ => []

def accepted : Trace Unit → List Byte
  | [] => []
  | (_, e) :: tr =>
    match e with
    | .comReturned c r => accepted tr ++ c.accepts r
    | _ => accepted tr

theorem accepted_append {es tr : Trace Unit} (h : ∀ x ∈ es, x.2.isReturn = false) :
    accepted (es ++ tr) = accepted tr := by
  induction es with
  | nil => rfl
  | cons x es ih =>
    obtain ⟨u, e⟩ := x
    have hrest := ih fun y hy => h y (List.mem_cons_of_mem _ hy)
    cases e with
    | comReturned => exact absurd (h _ List.mem_cons_self) nofun
    | _ => exact hrest

/-! ## one call -/

/-- the bytes on the wire and in the send buffer -/
def Solo.pipe (w : Solo) (d : Nat) : List Byte := Solo.wire w d ++ Solo.buffer w

/-- what a call leaves behind -/
structure Delivered (d : Nat) (c : ComCall) (w : Solo) (r : Int) (w' : Solo) : Prop where
  trace : ∃ es, w'.trace = es ++ w.trace ∧ ∀ x ∈ es, x.2.isReturn = false
  pipe : Solo.pipe w' d = Solo.pipe w d ++ c.accepts r
  tx : Solo.tx w' d <:+ Solo.tx w d
  mode : (∀ mode, c ≠ .usbSetMode mode) → Solo.mode w' = Solo.mode w

section
variable {d : Nat} {out rest : List Byte} {w w' : Solo}

/-- a write that is done -/
theorem Mid.delivered_all (h : Mid d out w [] w') :
    Solo.wire w' d = Solo.wire w d ++ out := by
  rw [← h.wire, List.append_nil]

/-- a write that has not begun -/
theorem Mid.delivered_none (h : Mid d out w out w') : Solo.wire w' d = Solo.wire w d :=
  List.append_cancel_right h.wire

/-- the device takes `n` bytes, or none of them -/
def AllOrNothing (w : Solo) (d n : Nat) : Prop := ∀ k, deviceTakes true (Solo.tx w d) n = (k, false) → k = 0

theorem AllOrNothing.of_willing (h : ∀ x ∈ Solo.tx w d, Willing x) (n : Nat) :
    AllOrNothing w d n := by
  intro k hk
  rw [deviceTakes_willing h] at hk
  cases congrArg Prod.snd hk

theorem Flushed.pipe {r : Int} (h : Flushed d w r w')
    (hw : AllOrNothing w d (Solo.buffer w).length) : Solo.pipe w' d = Solo.pipe w d := by
  cases h with
  | done hr hmid =>
    show _ ++ [] = _
    rw [List.append_nil]
    exact hmid.delivered_all
  | empty hr hb hmid =>
    show _ ++ _ = _ ++ _
    rw [hmid.delivered_none, hmid.buffer]
  | failed hr n hmid hn =>
    have hn0 : n = 0 := by
      rcases hn with hn | hn
      · exact hn
      · exact hw n hn
    subst hn0
    show _ ++ _ = _ ++ _
    rw [hmid.delivered_none, hmid.buffer]

theorem Flushed.trace {r : Int} (h : Flushed d w r w') :
    ∃ es, w'.trace = es ++ w.trace ∧ ∀ x ∈ es, x.2.isReturn = false := by
  cases h with
  | done hr hmid => exact (hmid.label (e := .emptied d) rfl).trace
  | empty hr hb hmid => exact hmid.trace
  | failed hr n hmid hn => exact hmid.trace

theorem Flushed.tx {r : Int} (h : Flushed d w r w') : Solo.tx w' d <:+ Solo.tx w d := by
  cases h with
  | done hr hmid => exact hmid.tx
  | empty hr hb hmid => exact hmid.tx
  | failed hr n hmid hn => exact hmid.tx

theorem Flushed.mode {r : Int} (h : Flushed d w r w') : Solo.mode w' = Solo.mode w := by
  cases h with
  | done hr hmid => exact hmid.mode
  | empty hr hb hmid => exact hmid.mode
  | failed hr n hmid hn => exact hmid.mode

theorem Flushed.delivered {c : ComCall} {r r' : Int} (h : Flushed d w r w')
    (hw : AllOrNothing w d (Solo.buffer w).length) (hc : c.accepts r' = []) :
    Delivered d c w r' w' :=
  ⟨h.trace, by rw [hc, List.append_nil]; exact h.pipe hw, h.tx, fun _ => h.mode⟩

theorem Sent.delivered {buf : List Byte} {r : Int} (h : Sent d buf w r w')
    (hnormal : Solo.mode w = .normal →
      AllOrNothing w d buf.length ∧ (buf = [] ∨ Solo.buffer w = [])) (desc : Option Nat) :
    Delivered d (.send desc buf) w r w' := by
  cases h with
  | queued hm hr hmid =>
    refine ⟨(hmid.label (e := .queued d buf) rfl).trace, ?_, hmid.tx, fun _ => hmid.mode⟩
    show _ ++ (_ ++ buf) = (_ ++ _) ++ (if 0 ≤ r then buf else [])
    rw [if_pos hr, ← List.append_assoc]
    congr 2
    · exact hmid.delivered_none
    · exact hmid.buffer
  | refused hr hmid =>
    refine ⟨hmid.trace, ?_, hmid.tx, fun _ => hmid.mode⟩
    show _ ++ _ = (_ ++ _) ++ (if 0 ≤ r then buf else [])
    rw [if_neg (by omega), List.append_nil, hmid.delivered_none, hmid.buffer]
  | written hm n hmid hn =>
    obtain ⟨hall, hover⟩ := hnormal hm
    refine ⟨hmid.trace, ?_, hmid.tx, fun _ => hmid.mode⟩
    show _ ++ _ = (_ ++ _) ++ (if 0 ≤ r then buf else [])
    by_cases hr : 0 ≤ r
    · rw [decide_eq_true hr] at hn
      have hlen : n = buf.length := by
        have := deviceTakes_all (congrArg Prod.snd hn)
        rwa [hn] at this
      rw [hlen, List.drop_length] at hmid
      rw [if_pos hr, hmid.delivered_all, hmid.buffer]
      rcases hover with hnil | hnil
      · rw [hnil, List.append_nil, List.append_nil]
      · rw [hnil, List.append_nil, List.append_nil]
    · rw [decide_eq_false hr] at hn
      have hn0 := hall n hn
      subst hn0
      rw [if_neg hr, List.append_nil, hmid.delivered_none, hmid.buffer]

/-- what is asked of `P`, and of the device, for a call that begins in `w` -/
def CallSafe (P : Solo → Prop) (d : Nat) (w : Solo) : ComCall → Prop
  | .send _ buf => SendSafe P d buf w ∧ (Solo.mode w = .normal →
      AllOrNothing w d buf.length ∧ (buf = [] ∨ Solo.buffer w = []))
  | .flush desc => FlushSafe P d w ∧ (desc ≠ none → AllOrNothing w d (Solo.buffer w).length)
  | .usbBufferFlush _ => FlushSafe P d w ∧ AllOrNothing w d (Solo.buffer w).length
  | .usbSetMode _ => ∀ own m, P { w with own := own, mem := m }

theorem raspikeUsbSetMode_alone {K P : Solo → Prop} {mode : UsbMode}
    (h : ∀ own m, P { w with own := own, mem := m }) :
    Alone K P (raspikeUsbSetMode mode) (fun _ w' => ∃ own, w' = { w with
      own := own, mem := { w.mem with com := { w.mem.com with fgSendMode := mode } } }) w := by
  refine alone_bind (alone_lock fun _ _ => ⟨h _ _, ?_⟩)
  refine alone_bind (alone_eval rfl rfl fun _ _ => ⟨h _ _, ?_⟩)
  exact alone_unlock fun _ => ⟨h _ _, _, rfl⟩

/-- one call on the descriptor -/
theorem comCall_alone {K P : Solo → Prop} {c : ComCall} (hd : c.On d) (h : CallSafe P d w c) :
    Alone K P c.body (Delivered d c w) w := by
  have hself : ∀ r, c.accepts r = [] → Delivered d c w r w := fun r hc =>
    ⟨⟨[], rfl, nofun⟩, by rw [hc, List.append_nil], List.suffix_refl _, fun _ => rfl⟩
  cases c with
  | send desc buf =>
    cases desc with
    | none => exact alone_pure (hself _ (show (if (0 : Int) ≤ -EINVAL then buf else []) = [] from rfl))
    | some d' =>
      obtain rfl : d' = d := hd d' rfl
      exact alone_mono (fun r w' hs => hs.delivered h.2 _) (raspikeComSend_alone h.1)
  | flush desc =>
    cases desc with
    | none => exact alone_pure (hself _ rfl)
    | some d' =>
      obtain rfl : d' = d := hd d' rfl
      exact alone_mono (fun r w' hf => hf.delivered (h.2 nofun) rfl) (raspikeComFlush_alone h.1)
  | usbBufferFlush d' =>
    obtain rfl : d' = d := hd
    refine alone_seq _ (raspikeUsbBufferFlush_alone h.1) ?_
    rintro _ w' ⟨r, hf⟩
    exact alone_pure (hf.delivered h.2 rfl)
  | usbSetMode mode =>
    refine alone_seq _ (raspikeUsbSetMode_alone h) ?_
    rintro _ w' ⟨own, rfl⟩
    refine alone_pure ⟨⟨[], rfl, nofun⟩, ?_, List.suffix_refl _, fun hne => (hne mode rfl).elim⟩
    exact (List.append_nil _).symm

end

end RaspikeArt
