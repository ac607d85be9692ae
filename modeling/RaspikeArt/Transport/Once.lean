import RaspikeArt.Transport.Fifo
import RaspikeArt.Model.Connected

/-!
# Transport, part 4: a flush that fails

* `breaksOff`     a flush that the device breaks off after it has taken a part of the buffer;
* `flush_prefix`  in the buffered mode and without such a flush, no byte is delivered twice.
-/

set_option linter.unusedSectionVars false

namespace RaspikeArt
open Threads

/-- the condition of `flush_prefix`, broken: the device takes some of the buffer and then fails -/
def breaksOff (d : Nat) (w : Solo) : Bool :=
  match w.trace with
  | (_, .comCall (.flush (some _))) :: _ | (_, .comCall (.usbBufferFlush _)) :: _ =>
    !(deviceTakes true (Solo.tx w d) (Solo.buffer w).length).2 &&
      (deviceTakes true (Solo.tx w d) (Solo.buffer w).length).1 != 0
  | _ => false

section
variable {d : Nat} {base : List Byte} {out rest : List Byte} {w w' : Solo}

/-- the property, in every world -/
def PrefixSent (d : Nat) (base : List Byte) (w : Solo) : Prop :=
  Solo.wire w d <+: base ++ accepted w.trace

/-- what holds between two calls -/
structure Whole (d : Nat) (base : List Byte) (w : Solo) : Prop where
  mode : Solo.mode w = .buffered
  pipe : Solo.pipe w d = base ++ accepted w.trace

theorem Whole.prefixSent (h : Whole d base w) : PrefixSent d base w :=
  ⟨Solo.buffer w, h.pipe⟩

theorem Mid.accepted (h : Mid d out w rest w') : accepted w'.trace = accepted w.trace := by
  obtain ⟨es, htr, hret⟩ := h.trace
  rw [htr, accepted_append hret]

/-- in the middle of a flush -/
theorem Whole.flush (h : Whole d base w) : FlushSafe (PrefixSent d base) d w := by
  have hmid : Through (PrefixSent d base) d (Solo.buffer w) w := by
    intro rest w' hm
    show _ <+: _
    rw [hm.accepted, ← h.pipe]
    exact hm.isPrefix
  exact ⟨hmid, fun w' hm => hmid [] w' hm⟩

/-- a send only adds to the buffer -/
theorem Whole.send (h : Whole d base w) (buf : List Byte) :
    SendSafe (PrefixSent d base) d buf w := by
  have hstill : ∀ w', Mid d buf w buf w' → PrefixSent d base w' := by
    intro w' hm
    show _ <+: _
    rw [hm.accepted, hm.delivered_none]
    exact h.prefixSent
  refine ⟨hstill, fun hm => ?_, fun _ w' hm => hstill w' hm⟩
  rw [h.mode] at hm
  cases hm

theorem allOrNothing_of {w : Solo} {n : Nat} (h : (!(deviceTakes true (Solo.tx w d) n).2 &&
    (deviceTakes true (Solo.tx w d) n).1 != 0) = false) : AllOrNothing w d n := by
  intro k hk
  rw [hk] at h
  simpa using h

theorem runComCall_whole {c : ComCall} (hd : c.On d) (hmode : ∀ mode, c ≠ .usbSetMode mode)
    (h : Whole d base w) :
    Alone (fun w => breaksOff d w = false) (PrefixSent d base) (runComCall c)
      (fun _ => Whole d base) w := by
  have hbegun : Whole d base { w with trace := ((), .comCall c) :: w.trace } := ⟨h.mode, h.pipe⟩
  refine alone_bind (alone_tick fun _ hK => ⟨hbegun.prefixSent, ?_⟩)
  have hsafe : CallSafe (PrefixSent d base) d { w with trace := ((), .comCall c) :: w.trace } c := by
    cases c with
    | send desc buf =>
      refine ⟨hbegun.send buf, fun hm => ?_⟩
      rw [hbegun.mode] at hm
      cases hm
    | flush desc =>
      refine ⟨hbegun.flush, fun hne => ?_⟩
      cases desc with
      | none => exact (hne rfl).elim
      | some d' => exact allOrNothing_of hK
    | usbBufferFlush d' => exact ⟨hbegun.flush, allOrNothing_of hK⟩
    | usbSetMode mode => exact (hmode mode rfl).elim
  refine alone_seq _ (comCall_alone hd hsafe) fun r w' hdel => ?_
  obtain ⟨es, htr, hret⟩ := hdel.trace
  have hacc : accepted w'.trace = accepted w.trace := by
    rw [htr, accepted_append hret]
    rfl
  have hend : Whole d base { w' with trace := ((), .comReturned c r) :: w'.trace } := by
    refine ⟨(hdel.mode hmode).trans h.mode, ?_⟩
    show Solo.pipe w' d = base ++ (accepted w'.trace ++ c.accepts r)
    rw [hdel.pipe, hacc, ← List.append_assoc, ← h.pipe]
    rfl
  exact alone_tick fun _ _ => ⟨hend.prefixSent, hend⟩

end

/-- **No byte is delivered twice.**  In the buffered mode, in a run of sends and flushes on one
descriptor in which the device breaks off no flush that it has taken a part of: at all times, what
the device has taken is a prefix of the buffers of the sends that have succeeded. -/
theorem flush_prefix {d : Nat} {m : Mem} (hm : m.com.fgSendMode = .buffered) {calls : List ComCall}
    (hd : ∀ c ∈ calls, c.On d) (hmode : ∀ c ∈ calls, ∀ mode, c ≠ .usbSetMode mode) {c : Sys Unit}
    (hr : Via (fun w => breaksOff d w = false) (solo m (calls.map .com)) c) :
    (c.mem.com.desc d).wire <+:
      ((m.com.desc d).wire ++ m.com.fgSendBuffer) ++ accepted c.trace := by
  have hstart : Whole d ((m.com.desc d).wire ++ m.com.fgSendBuffer)
      (solo m (calls.map .com)).toWorld := ⟨hm, (List.append_nil _).symm⟩
  refine alone_via (P := PrefixSent d _) hstart.prefixSent ?_ hr
  refine alone_forEach (Whole d _) hstart (fun op hop w hw => ?_) fun _ _ => trivial
  obtain ⟨c, hc, rfl⟩ := List.mem_map.mp hop
  exact runComCall_whole (hd c hc) (hmode c hc) hw

/-- two bytes are buffered and flushed, twice -/
def flushTwice : List ComCall := [.send (some 0) [65, 66], .flush (some 0), .flush (some 0)]

/-- a connected memory in the buffered mode -/
def bufferedMem (tx : List TxItem) : Mem :=
  { freshMem [] tx with com := { (freshMem [] tx).com with fgSendMode := .buffered } }

theorem flushTwice_on : ∀ c ∈ flushTwice, c.On 0 := by
  intro c hc
  simp only [flushTwice, List.mem_cons, List.not_mem_nil, or_false] at hc
  rcases hc with rfl | rfl | rfl <;> exact fun _ h => (Option.some.inj h).symm

theorem flushTwice_mode : ∀ c ∈ flushTwice, ∀ mode, c ≠ .usbSetMode mode := by
  intro c hc
  simp only [flushTwice, List.mem_cons, List.not_mem_nil, or_false] at hc
  rcases hc with rfl | rfl | rfl <;> exact fun _ h => (nomatch h)

/-- the first flush fails before the device has taken anything -/
theorem flush_prefix_run : ∃ c : Sys Unit, (c.mem.com.desc 0).wire = [65, 66] ∧
    (c.mem.com.desc 0).wire <+: accepted c.trace := by
  obtain ⟨c, hrun⟩ := Option.isSome_iff_exists.mp (show (execIf (fun w => !breaksOff 0 w)
    (solo (bufferedMem [.late, .accept 1]) (flushTwice.map .com)) (steps 38 ())).isSome by
      decide +kernel)
  have hwire : ∀ c ∈ execIf (fun w => !breaksOff 0 w)
      (solo (bufferedMem [.late, .accept 1]) (flushTwice.map .com)) (steps 38 ()),
      (c.mem.com.desc 0).wire = [65, 66] := by
    decide +kernel
  have hv : Via (fun w => breaksOff 0 w = false) _ c :=
    Via.refl.execIf (fun _ h => by simpa using h) _ hrun
  exact ⟨c, hwire c hrun, flush_prefix rfl flushTwice_on flushTwice_mode hv⟩

/-- the first flush fails after the device has taken a byte, which the second one writes again -/
theorem flush_prefix_breaks : ¬ ∀ (d : Nat) (m : Mem), m.com.fgSendMode = .buffered →
    ∀ calls : List ComCall, (∀ c ∈ calls, c.On d) → (∀ c ∈ calls, ∀ mode, c ≠ .usbSetMode mode) →
    ∀ c : Sys Unit, Reach (solo m (calls.map .com)) c → (c.mem.com.desc d).wire <+:
      ((m.com.desc d).wire ++ m.com.fgSendBuffer) ++ accepted c.trace := by
  intro h
  obtain ⟨c, hrun⟩ := Option.isSome_iff_exists.mp (show (exec
    (solo (bufferedMem [.accept 1, .late]) (flushTwice.map .com)) (steps 38 ())).isSome by
      decide +kernel)
  have hne : ∀ c ∈ exec (solo (bufferedMem [.accept 1, .late]) (flushTwice.map .com)) (steps 38 ()),
      ¬ (c.mem.com.desc 0).wire <+: accepted c.trace := by
    decide +kernel
  exact hne c hrun (h 0 _ rfl flushTwice flushTwice_on flushTwice_mode c (exec_reach hrun))

end RaspikeArt
