import RaspikeArt.Transport.LedgerCalls
import RaspikeArt.Model.Connected

/-!
# Transport, part 9: a failed send stays unsent

`failed_unsent`: a byte that a device takes belongs to no frame whose `send_frame` has failed, in a
run in which no flush of a `send_frame` is broken off while its frame waits in the send buffer
(`strands`).
-/

namespace RaspikeArt
open Threads

/-- **A failed send stays unsent.**  In a run in which no flush within a `send_frame` meets a closed
descriptor or a device that does not take all of the buffer while the frame waits there: no byte of
a frame is written after its `send_frame` has failed. -/
theorem failed_unsent {m : Mem} {ops : List Op} {c : Sys Unit}
    (hr : Via (fun w => strands m.com.fgSendBuffer w = false) (solo m ops) c) {as tr : Trace Unit}
    {d : Nat} {bs : List Byte} (hc : c.trace = as ++ ((), .wrote d bs) :: tr) :
    ((ledger m.com.fgSendBuffer tr).origin bs).map Prod.snd = bs ∧
      ∀ x ∈ (ledger m.com.fgSendBuffer tr).origin bs, ∀ k ∈ x.1.frame,
        k ∉ (ledger m.com.fgSendBuffer tr).failed := by
  have hr' : Via (Promise.unfailed.Cond m.com.fgSendBuffer) (solo m ops) c := hr
  have hstart : Promise.unfailed = .sameDesc → m.com.fgSendBuffer = [] := nofun
  have hlegal := (ledger_kept hstart hr').legal
  rw [hc] at hlegal
  have hok := hlegal.guard
  rw [ledger_eq] at hok
  exact hok

/-- the same frame is sent twice -/
def sentTwice : List Op :=
  [.api (.sendPriority 0 96 none 0), .api (.sendPriority 0 96 none 0)]

/-- in the normal mode a send that fails leaves nothing behind -/
theorem failed_unsent_run : ∃ (c : Sys Unit) (tr : Trace Unit) (bs : List Byte),
    c.trace = ((), .wrote 0 bs) :: tr ∧ bs ≠ [] ∧ (ledger [] tr).failed = [0] ∧
      ∀ x ∈ (ledger [] tr).origin bs, ∀ k ∈ x.1.frame, k ∉ (ledger [] tr).failed := by
  obtain ⟨c, hrun⟩ := Option.isSome_iff_exists.mp (show (execIf (fun w => !strands [] w)
    (solo (freshMem [] [.late]) sentTwice) (steps 46 ())).isSome by decide +kernel)
  have htr : ∀ c ∈ execIf (fun w => !strands [] w) (solo (freshMem [] [.late]) sentTwice)
      (steps 46 ()), c.trace.head? = some ((), .wrote 0 (v2Frame 0 96 4 2 freshSession [])) ∧
        (ledger [] c.trace.tail).failed = [0] := by
    decide +kernel
  obtain ⟨hhead, hfailed⟩ := htr c hrun
  obtain ⟨tr, hc⟩ := List.head?_eq_some_iff.mp hhead
  rw [hc, List.tail_cons] at hfailed
  have hv : Via (fun w => strands [] w = false) _ c :=
    Via.refl.execIf (fun _ h => by simpa using h) _ hrun
  exact ⟨c, tr, _, hc, nofun, hfailed, (failed_unsent (m := freshMem [] [.late]) hv (show c.trace = [] ++ _ from hc)).2⟩

/-- a frame is sent in the buffered mode, and the buffer is flushed again -/
def flushedLater : List Op :=
  [.com (.usbSetMode .buffered), .api (.sendPriority 0 96 none 0), .com (.flush (some 0))]

/-- the flush of the send fails, and the next one writes the frame -/
theorem failed_unsent_breaks : ¬ ∀ (m : Mem) ops (c : Sys Unit), Reach (solo m ops) c →
    ∀ (as tr : Trace Unit) d bs, c.trace = as ++ ((), .wrote d bs) :: tr →
    ((ledger m.com.fgSendBuffer tr).origin bs).map Prod.snd = bs ∧
      ∀ x ∈ (ledger m.com.fgSendBuffer tr).origin bs, ∀ k ∈ x.1.frame,
        k ∉ (ledger m.com.fgSendBuffer tr).failed := by
  intro h
  obtain ⟨c, hrun⟩ := Option.isSome_iff_exists.mp (show (exec
    (solo (freshMem [] [.late]) flushedLater) (steps 47 ())).isSome by decide +kernel)
  have htr : ∀ c ∈ exec (solo (freshMem [] [.late]) flushedLater) (steps 47 ()),
      c.trace.head? = some ((), .wrote 0 (v2Frame 0 96 4 1 freshSession [])) ∧
        (ledger [] c.trace.tail).failed = [0] := by
    decide +kernel
  have hframe : ∀ c ∈ exec (solo (freshMem [] [.late]) flushedLater) (steps 47 ()),
      ((ledger [] c.trace.tail).origin (v2Frame 0 96 4 1 freshSession [])).any
        (fun x => x.1.frame == some 0) = true := by
    decide +kernel
  obtain ⟨hhead, hfailed⟩ := htr c hrun
  obtain ⟨tr, hc⟩ := List.head?_eq_some_iff.mp hhead
  obtain ⟨x, hx, hzero⟩ := List.any_eq_true.mp (hframe c hrun)
  rw [hc, List.tail_cons] at hfailed hx
  refine (h _ flushedLater c (exec_reach hrun) [] tr 0 _ hc).2 x hx 0 (beq_iff_eq.mp hzero) ?_
  rw [show (freshMem [] [.late]).com.fgSendBuffer = [] from rfl, hfailed]
  exact List.mem_singleton_self 0

end RaspikeArt
