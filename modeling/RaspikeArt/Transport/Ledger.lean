import RaspikeArt.Transport.Fifo
import RaspikeArt.Threads.History

/-!
# Transport, part 5: where the bytes on a wire come from

The send buffer holds bare bytes.  A `Ledger`, told of the history alone, says of each of them with
which descriptor it was handed to `raspike_com_send` and in which `send_frame`.  It knows what every
`raspike_com_send` was handed, and takes a byte from there once only: into the buffer or to the device.

* `Ledger.hand`    what the operation in progress has still to write, with its origins;
* `Ledger.origin`  the origins of the bytes that the device is taking;
* `Promise`        the two things that are promised of these origins: they are bytes of this very
                   descriptor; they are not bytes of a frame whose `send_frame` has failed;
* `mixes`, `strands`  what breaks each of the promises;
* `Kept`           the invariant: the promise has been kept, and the send buffer is as the ledger says.
-/

set_option linter.unusedSectionVars false

namespace RaspikeArt
open Threads

/-- the descriptor that `raspike_com_send` got the byte with, and the number of the `send_frame` -/
structure Origin where
  desc : Nat
  frame : Option Nat

structure Ledger where
  /-- what the operation in progress has still to write: a send its own bytes, a flush the buffer -/
  hand : List (Origin × Byte)
  /-- the number of calls of `send_frame`, the one in progress, and those that have failed -/
  frames : Nat
  frame : Option Nat
  failed : List Nat
  /-- the send buffer, and the descriptor for which bytes were last added to it -/
  queue : List (Origin × Byte)
  last : Option Nat

namespace Ledger

/-- at first the send buffer holds `b₀` -/
def start (b₀ : List Byte) : Ledger :=
  ⟨[], 0, none, [], b₀.map (⟨0, none⟩, ·), none⟩

def next (a : Ledger) : Event → Ledger
  | .io d (.send buf) => { a with hand := buf.map (⟨d, a.frame⟩, ·) }
  | .io _ .flush => { a with hand := a.queue }
  | .wrote _ bs => { a with hand := a.hand.drop bs.length }
  | .queued d _ => { a with hand := [], queue := a.queue ++ a.hand, last := some d }
  | .emptied _ => { a with queue := [] }
  | .sendBegin => { a with frame := some a.frames, frames := a.frames + 1 }
  | .sendEnd r =>
    { a with frame := none, failed := if r < 0 then a.frame.toList ++ a.failed else a.failed }
  | _ => a

/-- where the next bytes that the device takes come from, if they are as many as `bs` -/
def origin (a : Ledger) (bs : List Byte) : List (Origin × Byte) := a.hand.take bs.length

/-- the frame in progress waits in the send buffer -/
def waiting (a : Ledger) : Bool := a.queue.any fun x => x.1.frame == a.frame && a.frame.isSome

end Ledger

/-! ## the promises -/

inductive Promise where
  /-- a byte goes to the descriptor it was sent with -/
  | sameDesc
  /-- no byte of a failed frame goes out -/
  | unfailed

/-- the promise about a byte that is written to `d` -/
def Promise.Right : Promise → Ledger → Nat → Origin → Prop
  | .sameDesc, _, d, o => o.desc = d
  | .unfailed, a, _, o => ∀ k ∈ o.frame, k ∉ a.failed

def Promise.Ok (pr : Promise) (a : Ledger) : Event → Prop
  | .wrote d bs => (a.origin bs).map Prod.snd = bs ∧ ∀ x ∈ a.origin bs, pr.Right a d x.1
  | _ => True

def bookkeeping (pr : Promise) : Machine Unit Event Ledger where
  next a _ := a.next
  ok a _ := pr.Ok a

def ledger (b₀ : List Byte) (tr : Trace Unit) : Ledger :=
  (bookkeeping .sameDesc).replay (.start b₀) tr

theorem ledger_eq {b₀ : List Byte} (pr : Promise) (tr : Trace Unit) :
    (bookkeeping pr).replay (.start b₀) tr = ledger b₀ tr := by
  induction tr with
  | nil => rfl
  | cons x tr ih => exact congrArg (fun a => Ledger.next a x.2) ih

/-- bytes for another descriptor wait in the send buffer when bytes are added to it or it is
flushed -/
def mixes (b₀ : List Byte) (w : Solo) : Bool :=
  match w.trace with
  | (_, .io d .flush) :: tr => !(Solo.buffer w).isEmpty && (ledger b₀ tr).last != some d
  | (_, .queued d bs) :: tr =>
    decide (bs.length < (Solo.buffer w).length) && (ledger b₀ tr).last != some d
  | _ => false

/-- no write to the descriptor is tried: it is closed, or not a USB descriptor -/
def Solo.closed (w : Solo) (d : Nat) : Bool :=
  decide ((w.mem.com.desc d).type ≠ rpComTypeUsb) || decide ((w.mem.com.desc d).desc < 0)

/-- the frame in progress waits in the send buffer when that is flushed, and the descriptor is closed
or the device does not take all of it -/
def strands (b₀ : List Byte) (w : Solo) : Bool :=
  match w.trace with
  | (_, .io d .flush) :: tr => (ledger b₀ tr).waiting &&
    (Solo.closed w d || !(deviceTakes true (Solo.tx w d) (Solo.buffer w).length).2)
  | _ => false

/-- the condition under which the promise is kept -/
def Promise.Cond (b₀ : List Byte) : Promise → Solo → Prop
  | .sameDesc => fun w => mixes b₀ w = false
  | .unfailed => fun w => strands b₀ w = false

/-! ## the invariant -/

/-- what the ledger says of a byte in the send buffer -/
def Promise.Mine : Promise → Ledger → Origin → Prop
  | .sameDesc, a, o => a.last = some o.desc
  | .unfailed, a, o => ∀ k ∈ o.frame, k ∉ a.failed ∧ k < a.frames

/-- the frame numbers are in order, and the buffer is `buf` -/
structure Ledger.Sound (pr : Promise) (buf : List Byte) (a : Ledger) : Prop where
  buffer : buf = a.queue.map Prod.snd
  mine : ∀ x ∈ a.queue, pr.Mine a x.1
  failed : ∀ k ∈ a.failed, k < a.frames
  frame : ∀ k ∈ a.frame, k ∉ a.failed ∧ k < a.frames

structure Kept (pr : Promise) (b₀ : List Byte) (w : Solo) : Prop where
  legal : (bookkeeping pr).Legal (.start b₀) w.trace
  sound : (ledger b₀ w.trace).Sound pr (Solo.buffer w)

/-- a failure of the frame in progress leaves nothing of it in the send buffer -/
def Ledger.Clear (pr : Promise) (a : Ledger) : Prop :=
  match pr with
  | .sameDesc => True
  | .unfailed => a.waiting = false

theorem Ledger.waiting_false {a : Ledger} :
    a.waiting = false ↔ ∀ x ∈ a.queue, ∀ k ∈ a.frame, x.1.frame ≠ some k := by
  unfold waiting
  rw [List.any_eq_false]
  refine forall₂_congr fun x _ => ?_
  cases a.frame with
  | none => simp
  | some k => simp

namespace Ledger

variable {pr : Promise} {a : Ledger} {buf bs : List Byte}

theorem Sound.start (h : pr = .sameDesc → buf = []) : (Ledger.start buf).Sound pr buf := by
  refine ⟨?_, fun x hx => ?_, fun _ hk => (nomatch hk), fun _ hk => (nomatch hk)⟩
  · show buf = (buf.map _).map Prod.snd
    rw [List.map_map]
    exact (List.map_id buf).symm
  · obtain ⟨b, hb, rfl⟩ := List.mem_map.mp hx
    cases pr with
    | sameDesc =>
      rw [h rfl] at hb
      cases hb
    | unfailed => exact fun _ hk => (nomatch hk)

/-! ### one label -/

/-- only what is in hand has changed -/
theorem Sound.inHand (h : a.Sound pr buf) (hand : List (Origin × Byte)) :
    ({ a with hand := hand } : Ledger).Sound pr buf := by
  cases pr with
  | sameDesc | unfailed => exact ⟨h.buffer, h.mine, h.failed, h.frame⟩

/-- a send or a flush begins -/
theorem Sound.io (h : a.Sound pr buf) (d : Nat) (k : Io) : (a.next (.io d k)).Sound pr buf := by
  cases k with
  | receive => exact h
  | send | flush => exact h.inHand _

/-- the bytes of a send are added to a buffer that holds none, or that was last added to for the same
descriptor -/
theorem Sound.queued (h : a.Sound pr buf) {d : Nat} {bs : List Byte}
    (hhand : a.hand = bs.map (⟨d, a.frame⟩, ·))
    (hd : pr = .sameDesc → a.queue = [] ∨ a.last = some d) :
    (a.next (.queued d bs)).Sound pr (buf ++ bs) := by
  refine ⟨?_, ?_, h.failed, h.frame⟩
  · show _ = (a.queue ++ a.hand).map Prod.snd
    rw [hhand, List.map_append, List.map_map, ← h.buffer]
    exact congrArg (buf ++ ·) (List.map_id bs).symm
  · intro x hx
    change x ∈ a.queue ++ a.hand at hx
    rw [hhand] at hx
    rcases List.mem_append.mp hx with hx | hx
    · cases pr with
      | unfailed => exact h.mine x hx
      | sameDesc =>
        have hlast : a.last = some x.1.desc := h.mine x hx
        rcases hd rfl with hq | hq
        · rw [hq] at hx
          cases hx
        · exact hq.symm.trans hlast
    · obtain ⟨b, -, rfl⟩ := List.mem_map.mp hx
      cases pr with
      | sameDesc => rfl
      | unfailed => exact h.frame

theorem Sound.emptied (h : a.Sound pr buf) (d : Nat) : (a.next (.emptied d)).Sound pr [] :=
  ⟨rfl, fun _ hx => (nomatch hx), h.failed, h.frame⟩

theorem Sound.sendBegin (h : a.Sound pr buf) : (a.next .sendBegin).Sound pr buf := by
  refine ⟨h.buffer, ?_, ?_, ?_⟩
  · intro x hx
    cases pr with
    | sameDesc => exact h.mine x hx
    | unfailed =>
      intro k hk
      obtain ⟨hf, hlt⟩ := h.mine x hx k hk
      exact ⟨hf, Nat.lt_succ_of_lt hlt⟩
  · exact fun k hk => Nat.lt_succ_of_lt (h.failed k hk)
  · intro k hk
    cases hk
    exact ⟨fun hf => Nat.lt_irrefl _ (h.failed _ hf), Nat.lt_succ_self _⟩

/-- the new frame is not in the buffer -/
theorem Sound.clear_sendBegin (h : a.Sound pr buf) : (a.next .sendBegin).Clear pr := by
  cases pr with
  | sameDesc => trivial
  | unfailed =>
    refine waiting_false.mpr fun x hx k hk hkx => ?_
    cases hk
    exact Nat.lt_irrefl _ (h.mine x hx _ hkx).2

theorem Sound.sendEnd (h : a.Sound pr buf) {r : Int} (hclear : r < 0 → a.Clear pr) :
    (a.next (.sendEnd r)).Sound pr buf := by
  have hmem : ∀ k ∈ (a.next (.sendEnd r)).failed, r < 0 ∧ k ∈ a.frame ∨ k ∈ a.failed := by
    intro k hk
    change k ∈ (if r < 0 then a.frame.toList ++ a.failed else a.failed) at hk
    split at hk
    case isTrue hr =>
      rcases List.mem_append.mp hk with hk | hk
      · exact .inl ⟨hr, Option.mem_toList.mp hk⟩
      · exact .inr hk
    case isFalse => exact .inr hk
  refine ⟨h.buffer, ?_, ?_, fun k hk => (nomatch hk)⟩
  · intro x hx
    cases pr with
    | sameDesc => exact h.mine x hx
    | unfailed =>
      intro k hk
      obtain ⟨hf, hlt⟩ := h.mine x hx k hk
      refine ⟨fun hfail => ?_, hlt⟩
      rcases hmem k hfail with ⟨hr, hframe⟩ | hfail
      · exact waiting_false.mp (hclear hr) x hx k hframe hk
      · exact hf hfail
  · intro k hk
    rcases hmem k hk with ⟨-, hframe⟩ | hk
    · exact (h.frame k hframe).2
    · exact h.failed k hk

/-! ### what the device takes -/

/-- the promise is kept of what a send is handed -/
theorem Sound.right_send (h : a.Sound pr buf) (d : Nat) :
    ∀ x ∈ (a.next (.io d (.send bs))).hand, pr.Right a d x.1 := by
  intro x hx
  obtain ⟨b, -, rfl⟩ := List.mem_map.mp hx
  cases pr with
  | sameDesc => rfl
  | unfailed => exact fun k hk => (h.frame k hk).1

/-- and of the buffer -/
theorem Sound.right_flush (h : a.Sound pr buf) {d : Nat}
    (hlast : pr = .sameDesc → buf ≠ [] → a.last = some d) : ∀ x ∈ a.queue, pr.Right a d x.1 := by
  intro x hx
  cases pr with
  | unfailed => exact fun k hk => (h.mine x hx k hk).1
  | sameDesc =>
    have hown : a.last = some x.1.desc := h.mine x hx
    have hbuf : buf ≠ [] := by
      rw [h.buffer]
      exact List.ne_nil_of_mem (List.mem_map_of_mem hx)
    rw [hlast rfl hbuf] at hown
    exact (Option.some.inj hown).symm

/-- the device takes some of what is in hand -/
theorem ok_wrote {d : Nat} {rest : List Byte} (hrest : a.hand.map Prod.snd = rest)
    (hright : ∀ x ∈ a.hand, pr.Right a d x.1) (n : Nat) : pr.Ok a (.wrote d (rest.take n)) := by
  refine ⟨?_, fun x hx => hright x (List.mem_of_mem_take hx)⟩
  show (a.hand.take (rest.take n).length).map Prod.snd = _
  rw [List.map_take, hrest, List.length_take, List.take_eq_take_iff]
  omega

end Ledger

end RaspikeArt
