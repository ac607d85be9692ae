import RaspikeArt.Transport.Fifo
import RaspikeArt.Model.Connected

/-!
# Transport, part 3: the wire keeps the order of the sends

* `overtakes`   a send that is written directly while the send buffer holds bytes;
* `wire_order`  without such a send, the wire and the send buffer are what has been accepted.
-/

set_option linter.unusedSectionVars false

namespace RaspikeArt
open Threads

/-! ## the condition -/

/-- no call is in progress -/
def Between : Trace Unit → Prop
  | [] => True
  | (_, e) :: _ => e.isReturn = true

instance : (tr : Trace Unit) → Decidable (Between tr)
  | [] => isTrue trivial
  | (_, e) :: _ => inferInstanceAs (Decidable (e.isReturn = true))

/-- the condition of `wire_order`, broken: bytes are written directly while others wait -/
def overtakes (w : Solo) : Bool :=
  match w.trace with
  | (_, .comCall (.send _ buf)) :: _ =>
    Solo.mode w == .normal && !buf.isEmpty && !(Solo.buffer w).isEmpty
  | _ => false

theorem not_between {es tr : Trace Unit} (h : ∀ x ∈ es, x.2.isReturn = false) (hb : ¬ Between tr) :
    ¬ Between (es ++ tr) := by
  cases es with
  | nil => exact hb
  | cons x es =>
    intro hx
    have hret : x.2.isReturn = true := hx
    rw [h x List.mem_cons_self] at hret
    cases hret

/-! ## one call -/

section
variable {d : Nat} {base : List Byte}

/-- what holds between two calls -/
structure InOrder (d : Nat) (base : List Byte) (w : Solo) : Prop where
  willing : ∀ x ∈ Solo.tx w d, Willing x
  pipe : Solo.pipe w d = base ++ accepted w.trace

/-- the property, in the form the logic keeps it -/
def OrderKept (d : Nat) (base : List Byte) (w : Solo) : Prop := Between w.trace → InOrder d base w

variable {out rest : List Byte} {w w' : Solo}

theorem OrderKept.busy {es : Trace Unit} (hb : ¬ Between w.trace) (htr : w'.trace = es ++ w.trace)
    (h : ∀ x ∈ es, x.2.isReturn = false) : OrderKept d base w' := by
  intro hw'
  rw [htr] at hw'
  exact (not_between h hb hw').elim

theorem orderKept_mid (hb : ¬ Between w.trace) (hmid : Mid d out w rest w') :
    OrderKept d base w' := by
  obtain ⟨es, htr, h⟩ := hmid.trace
  exact .busy hb htr h

theorem orderKept_send (hb : ¬ Between w.trace) (buf : List Byte) :
    SendSafe (OrderKept d base) d buf w where
  still _ hmid := orderKept_mid hb hmid
  written _ _ _ hmid := orderKept_mid hb hmid
  queued _ w' hmid := by
    intro hw'
    cases (hw' : false = true)

theorem orderKept_flush (hb : ¬ Between w.trace) : FlushSafe (OrderKept d base) d w where
  through _ _ hmid := orderKept_mid hb hmid
  emptied w' hmid := by
    intro hw'
    cases (hw' : false = true)

/-- a call that has just begun -/
theorem callSafe_ordered {c : ComCall} (hb : ¬ Between w.trace)
    (hw : ∀ x ∈ Solo.tx w d, Willing x) (hover : ∀ desc buf, c = .send desc buf →
      Solo.mode w = .normal → buf = [] ∨ Solo.buffer w = []) :
    CallSafe (OrderKept d base) d w c := by
  cases c with
  | send desc buf =>
    exact ⟨orderKept_send hb buf, fun hm => ⟨.of_willing hw _, hover desc buf rfl hm⟩⟩
  | flush desc => exact ⟨orderKept_flush hb, fun _ => .of_willing hw _⟩
  | usbBufferFlush d' => exact ⟨orderKept_flush hb, .of_willing hw _⟩
  | usbSetMode mode => exact fun _ _ h => (hb h).elim

theorem runComCall_ordered {c : ComCall} (hd : c.On d) (h : InOrder d base w) :
    Alone (fun w => overtakes w = false) (OrderKept d base) (runComCall c)
      (fun _ => InOrder d base) w := by
  refine alone_bind (alone_tick fun _ hK => ⟨fun hb => (nomatch hb), ?_⟩)
  have hsafe : CallSafe (OrderKept d base) d { w with trace := ((), .comCall c) :: w.trace } c := by
    refine callSafe_ordered (fun hb => nomatch hb) h.willing ?_
    rintro desc buf rfl hm
    by_contra hc
    rw [not_or] at hc
    have hover : overtakes { w with trace := ((), .comCall (.send desc buf)) :: w.trace } = true := by
      simp only [overtakes, Bool.and_eq_true, beq_iff_eq, Bool.not_eq_true',
        List.isEmpty_eq_false_iff]
      exact ⟨⟨hm, hc.1⟩, hc.2⟩
    rw [hK] at hover
    cases hover
  refine alone_seq _ (comCall_alone hd hsafe) fun r w' hdel => ?_
  obtain ⟨es, htr, hret⟩ := hdel.trace
  have hend : InOrder d base { w' with trace := ((), .comReturned c r) :: w'.trace } := by
    refine ⟨fun x hx => h.willing x (hdel.tx.subset hx), ?_⟩
    have hacc : accepted w'.trace = accepted w.trace := by
      rw [htr, accepted_append hret]
      rfl
    show Solo.pipe w' d = base ++ (accepted w'.trace ++ c.accepts r)
    rw [hdel.pipe, hacc, ← List.append_assoc, ← h.pipe]
    rfl
  exact alone_tick fun _ _ => ⟨fun _ => hend, hend⟩

end

/-- **Wire order.**  On a descriptor whose device never fails, in a run in which no bytes are
written directly while others wait in the send buffer: between two calls, what the device has
received and the send buffer are the buffers of the sends that have succeeded, in their order. -/
theorem wire_order {d : Nat} {m : Mem} (hdev : ∀ x ∈ (m.com.desc d).tx, Willing x)
    {calls : List ComCall} (hd : ∀ c ∈ calls, c.On d) {c : Sys Unit}
    (hr : Via (fun w => overtakes w = false) (solo m (calls.map .com)) c)
    (hb : Between c.trace) :
    (c.mem.com.desc d).wire ++ c.mem.com.fgSendBuffer
      = ((m.com.desc d).wire ++ m.com.fgSendBuffer) ++ accepted c.trace := by
  have hstart : InOrder d ((m.com.desc d).wire ++ m.com.fgSendBuffer)
      (solo m (calls.map .com)).toWorld := ⟨hdev, (List.append_nil _).symm⟩
  refine (alone_via (P := OrderKept d _) (fun _ => hstart) ?_ hr hb).pipe
  refine alone_forEach (InOrder d _) hstart (fun op hop w hw => ?_) fun _ _ => trivial
  obtain ⟨c, hc, rfl⟩ := List.mem_map.mp hop
  exact runComCall_ordered (hd c hc) hw

/-- a byte is buffered and flushed before the mode changes -/
def flushedFirst : List ComCall :=
  [.usbSetMode .buffered, .send (some 0) [65], .flush (some 0), .usbSetMode .normal,
    .send (some 0) [66]]

theorem wire_order_run : ∃ c : Sys Unit, Between c.trace ∧
    (c.mem.com.desc 0).wire ++ c.mem.com.fgSendBuffer = accepted c.trace := by
  obtain ⟨c, hrun⟩ := Option.isSome_iff_exists.mp (show (execIf (fun w => !overtakes w)
    (solo (freshMem [] [.accept 1]) (flushedFirst.map .com)) (steps 47 ())).isSome by
      decide +kernel)
  have hb : ∀ c ∈ execIf (fun w => !overtakes w)
      (solo (freshMem [] [.accept 1]) (flushedFirst.map .com)) (steps 47 ()), Between c.trace := by
    decide +kernel
  have hv : Via (fun w => overtakes w = false) _ c :=
    Via.refl.execIf (fun _ h => by simpa using h) _ hrun
  have hd : ∀ c ∈ flushedFirst, c.On 0 := by
    intro c hc
    simp only [flushedFirst, List.mem_cons, List.not_mem_nil, or_false] at hc
    rcases hc with rfl | rfl | rfl | rfl | rfl
    · trivial
    · exact fun _ h => (Option.some.inj h).symm
    · exact fun _ h => (Option.some.inj h).symm
    · trivial
    · exact fun _ h => (Option.some.inj h).symm
  refine ⟨c, hb c hrun, wire_order ?_ hd hv (hb c hrun)⟩
  intro x hx
  cases List.mem_singleton.mp hx
  exact Nat.one_ne_zero

/-- a byte is buffered, and the next one is sent in the normal mode -/
def overtaking : List ComCall :=
  [.usbSetMode .buffered, .send (some 0) [65], .usbSetMode .normal, .send (some 0) [66]]

/-- a send in the normal mode overtakes the bytes that wait in the send buffer -/
theorem wire_order_breaks : ¬ ∀ (d : Nat) (m : Mem), (∀ x ∈ (m.com.desc d).tx, Willing x) →
    ∀ calls : List ComCall, (∀ c ∈ calls, c.On d) → ∀ c : Sys Unit,
    Reach (solo m (calls.map .com)) c → Between c.trace →
    (c.mem.com.desc d).wire ++ c.mem.com.fgSendBuffer
      = ((m.com.desc d).wire ++ m.com.fgSendBuffer) ++ accepted c.trace := by
  intro h
  obtain ⟨c, hrun⟩ := Option.isSome_iff_exists.mp (show (exec
    (solo (freshMem [] []) (overtaking.map .com)) (steps 33 ())).isSome by decide +kernel)
  have hb : ∀ c ∈ exec (solo (freshMem [] []) (overtaking.map .com)) (steps 33 ()),
      Between c.trace := by
    decide +kernel
  have hne : ∀ c ∈ exec (solo (freshMem [] []) (overtaking.map .com)) (steps 33 ()),
      (c.mem.com.desc 0).wire ++ c.mem.com.fgSendBuffer ≠ accepted c.trace := by
    decide +kernel
  refine hne c hrun (h 0 _ (fun _ hx => by cases hx) overtaking ?_ c (exec_reach hrun) (hb c hrun))
  intro c hc
  simp only [overtaking, List.mem_cons, List.not_mem_nil, or_false] at hc
  rcases hc with rfl | rfl | rfl | rfl
  · trivial
  · exact fun _ h => (Option.some.inj h).symm
  · trivial
  · exact fun _ h => (Option.some.inj h).symm

end RaspikeArt
