import RaspikeArt.Protocol.InFlight
import RaspikeArt.Devices.Answers
import RaspikeArt.Devices.Section

/-!
# Device types, part 5: what the hub has been told

* `toldOf i`     what the history says of a port: the open request, and the commands that were
                 acknowledged with the value 1 since its device was last cleared;
* `Acknowledged` such an ACK, as a place in the history;
* `Asker`        where a thread is that configures the port;
* `Tells`        the recorded type has been acknowledged, and so has what the port shows as an answer;
* `Untold`        an access that does not belong to a request or a configuration of the thread.
-/

set_option linter.unusedSectionVars false

namespace RaspikeArt
open Threads

variable {T : Type} [DecidableEq T] {i : Port} {t : T}

/-! ## the history of a port -/

structure Told where
  /-- the command of the open request, and its sequence number -/
  asked : Option (Byte × U32)
  told : List Byte

def Told.next (i : Port) (a : Told) : Event → Told
  | .pend j cmd s => if j = i then { a with asked := some (cmd, s) } else a
  | .finish j _ _ _ _ _ => if j = i then { a with asked := none } else a
  | .ack j _ _ ackCmd ackData =>
    if j = i ∧ ackData = 1 then
      { a with told := (a.asked.toList.map Prod.fst).filter (fun cmd => ackCmd = cmd.toNat) ++ a.told }
    else a
  | .devReset j => if j = i then { a with told := [] } else a
  | _ => a

def toldOf (i : Port) : Trace T → Told
  | [] => ⟨none, []⟩
  | (_, e) :: tr => (toldOf i tr).next i e

/-- the open request of the port has this command and this sequence number -/
def AskedFor (i : Port) (cmd : Byte) (s : U32) (tr : Trace T) : Prop :=
  ∃ us u vs, tr = us ++ (u, .pend i cmd s) :: vs ∧ ∀ x ∈ us, ¬ x.2.opens i

/-- an ACK to a request with this command was accepted with the value 1, and the device has not been
cleared since -/
def Acknowledged (i : Port) (cmd : Byte) (tr : Trace T) : Prop :=
  ∃ xs v s session ys, tr = xs ++ (v, .ack i s session cmd.toNat 1) :: ys ∧ (∀ x ∈ xs, x.2 ≠ .devReset i) ∧
    ∃ q, AskedFor i cmd q ys

/-- a label that opens no request and closes none -/
theorem Told.next_asked {a : Told} {e : Event} (h : ¬ e.opens i) : (a.next i e).asked = a.asked := by
  cases e with
  | pend j | finish j =>
    have hj : ¬ j = i := h
    simp only [Told.next, if_neg hj]
  | ack | devReset =>
    simp only [Told.next]
    split <;> rfl
  | _ => rfl

theorem asked_iff {cmd : Byte} {s : U32} {tr : Trace T} :
    (toldOf i tr).asked = some (cmd, s) ↔ AskedFor i cmd s tr := by
  constructor
  · intro h
    induction tr with
    | nil => cases h
    | cons x tr ih =>
      obtain ⟨u, e⟩ := x
      have hcons : ((toldOf i tr).next i e).asked = some (cmd, s) := h
      by_cases he : e.opens i
      case neg =>
        rw [Told.next_asked he] at hcons
        obtain ⟨us, v, vs, rfl, hus⟩ := ih hcons
        exact ⟨(u, e) :: us, v, vs, rfl, List.forall_mem_cons.mpr ⟨he, hus⟩⟩
      cases e with
      | pend j cmd' s' =>
        obtain rfl : j = i := he
        simp only [Told.next, if_true, Option.some.injEq, Prod.mk.injEq] at hcons
        obtain ⟨rfl, rfl⟩ := hcons
        exact ⟨[], u, tr, rfl, by simp⟩
      | finish j =>
        obtain rfl : j = i := he
        simp [Told.next] at hcons
      | _ => exact he.elim
  · rintro ⟨us, u, vs, rfl, hus⟩
    induction us with
    | nil => exact congrArg Told.asked (if_pos rfl)
    | cons x us ih =>
      obtain ⟨v, e⟩ := x
      obtain ⟨he, hus⟩ := List.forall_mem_cons.mp hus
      show ((toldOf i _).next i e).asked = _
      rw [Told.next_asked he]
      exact ih hus

theorem acknowledged_of_told {cmd : Byte} {tr : Trace T} (h : cmd ∈ (toldOf i tr).told) : Acknowledged i cmd tr := by
  induction tr with
  | nil => cases h
  | cons x tr ih =>
    obtain ⟨u, e⟩ := x
    have hkeep : cmd ∈ (toldOf i tr).told → e ≠ .devReset i → Acknowledged i cmd ((u, e) :: tr) := by
      intro hold he
      obtain ⟨xs, v, s, session, ys, rfl, hxs, hys⟩ := ih hold
      exact ⟨(u, e) :: xs, v, s, session, ys, rfl, List.forall_mem_cons.mpr ⟨he, hxs⟩, hys⟩
    have hcons : cmd ∈ ((toldOf i tr).next i e).told := h
    cases e with
    | ack j s session ackCmd ackData =>
      by_cases hj : j = i ∧ ackData = 1
      case neg =>
        simp only [Told.next, if_neg hj] at hcons
        exact hkeep hcons (by simp)
      obtain ⟨rfl, rfl⟩ := hj
      simp only [Told.next, and_self, if_true, List.mem_append, List.mem_filter, List.mem_map, Option.mem_toList,
        decide_eq_true_eq] at hcons
      rcases hcons with ⟨⟨⟨cmd', q⟩, hasked, rfl⟩, rfl⟩ | hold
      · exact ⟨[], u, s, session, tr, rfl, by simp, q, asked_iff.mp hasked⟩
      · exact hkeep hold (by simp)
    | devReset j =>
      by_cases hj : j = i
      · simp [Told.next, hj] at hcons
      · simp only [Told.next, if_neg hj] at hcons
        exact hkeep hcons fun heq => hj (Event.devReset.inj heq)
    | pend j | finish j =>
      refine hkeep ?_ (by simp)
      simp only [Told.next] at hcons
      split at hcons <;> exact hcons
    | _ => exact hkeep hcons (by simp)

/-! ## where a thread is -/

inductive Asker where
  | out
  /-- it holds the request mutex of the port -/
  | slot
  /-- it holds the device mutex -/
  | held
  /-- it holds both -/
  | begun
  /-- and has marked the port pending -/
  | asked (cmd : Byte)
  /-- it has seen that the port is no longer pending -/
  | done (cmd : Byte)
  /-- its request has been acknowledged with the value 1 -/
  | told (cmd : Byte)
  /-- so it has, and the request is closed -/
  | answered (cmd : Byte)
  /-- so it has, and only the device mutex is left -/
  | ready (cmd : Byte)
  deriving DecidableEq

namespace Asker

def device : Asker → Bool
  | out | slot => false
  | _ => true

def request : Asker → Bool
  | out | held | ready _ => false
  | _ => true

/-- the command of its open request -/
def asking : Asker → Option Byte
  | asked cmd | done cmd | told cmd => some cmd
  | _ => none

/-- the command that it knows to be acknowledged -/
def knows : Asker → Option Byte
  | told cmd | answered cmd | ready cmd => some cmd
  | _ => none

theorem of_asking {g : Asker} {cmd : Byte} (h : g.asking = some cmd) : g.device ∧ g.request := by
  cases g with
  | asked | done | told => exact ⟨rfl, rfl⟩
  | _ => cases h

theorem of_knows {g : Asker} {cmd : Byte} (h : g.knows = some cmd) : g.device := by
  cases g with
  | told | answered | ready => rfl
  | _ => cases h

end Asker

/-- what the port shows makes a configuration with this command return 1 -/
def RPPortDevice.Grants (d : RPPortDevice) (cmd : Byte) : Prop :=
  d.ackData = 1 ∧ (d.ackCmd = -1 ∨ d.ackCmd = cmd.toNat)

instance (d : RPPortDevice) (cmd : Byte) : Decidable (d.Grants cmd) := inferInstanceAs (Decidable (_ ∧ _))

structure Tells (i : Port) (w : World T Mutex Event Mem) (gs : T → Asker) : Prop where
  device : ∀ t, (gs t).device → w.own (.device i) = some t
  request : ∀ t, (gs t).request → w.own (.request i) = some t
  asked : ∀ t cmd, (gs t).asking = some cmd → ∃ s, (toldOf i w.trace).asked = some (cmd, s)
  done : ∀ t cmd, gs t = .done cmd → (w.mem.gPortDevices i).pending = false
  answer : ∀ t cmd, (gs t).asking = some cmd → (w.mem.gPortDevices i).pending = false →
    (w.mem.gPortDevices i).Grants cmd → cmd ∈ (toldOf i w.trace).told
  knows : ∀ t cmd, (gs t).knows = some cmd → cmd ∈ (toldOf i w.trace).told
  type : w.mem.typeOf i ≠ 0 → makeCmd (w.mem.typeOf i) 0 ∈ (toldOf i w.trace).told

/-- it is taken for granted that a request which is not answered returns no positive number -/
def tellLogic (T : Type) [DecidableEq T] (i : Port) : Logic T Mutex CondVar Event Mem where
  G := Asker
  K := fun w => ∀ x ∈ w.trace, x.2.answers
  I := Tells i
  A := fun _ _ _ => True

/-! ## what others do -/

/-- a label that changes nothing of what the history says of the port -/
def Plain (i : Port) (x : Option Event) : Prop := ∀ e, x = some e → ∀ a : Told, a.next i e = a

inductive Untold (i : Port) (m : Mem) (x : Option Event) (m' : Mem) : Prop where
  | kept (hx : Plain i x) (hpending : (m'.gPortDevices i).pending = (m.gPortDevices i).pending)
      (hdata : (m'.gPortDevices i).ackData = (m.gPortDevices i).ackData)
      (hcmd : (m'.gPortDevices i).ackCmd = (m.gPortDevices i).ackCmd) (htype : m'.typeOf i = m.typeOf i)
  | acked (s session : U32)
      (hx : x = some (.ack i s session (m'.gPortDevices i).ackCmd (m'.gPortDevices i).ackData))
      (hcmd : (m'.gPortDevices i).ackCmd ≠ -1) (hpending : (m'.gPortDevices i).pending = false) (htype : m'.typeOf i = m.typeOf i)
  | reset (hx : Plain i x)
      (hpending : (m.gPortDevices i).pending = false → (m'.gPortDevices i).pending = false)
      (hdata : (m'.gPortDevices i).ackData ≠ 1) (htype : m'.typeOf i = m.typeOf i ∨ m'.typeOf i = 0)

theorem toldOf_plain {x : Option Event} (h : Plain i x) (t : T) (tr : Trace T) :
    toldOf i (World.push t x tr) = toldOf i tr := by
  cases x with
  | none => rfl
  | some e => exact h e rfl _

namespace Tells

variable {w : World T Mutex Event Mem} {gs : T → Asker}

theorem aside (h : Tells i w gs) {x : Option Event} {m' : Mem} (ha : Untold i w.mem x m') :
    Tells i { w with mem := m', trace := World.push t x w.trace } gs := by
  cases ha with
  | kept hx hpending hdata hcmd htype =>
    have htold := toldOf_plain hx t w.trace
    refine ⟨h.device, h.request, ?_, ?_, ?_, ?_, ?_⟩
    · exact fun u cmd hu => (h.asked u cmd hu).imp fun _ hs => (congrArg Told.asked htold).trans hs
    · exact fun u cmd hu => hpending.trans (h.done u cmd hu)
    · intro u cmd hu hp hd
      show cmd ∈ (toldOf i _).told
      rw [htold]
      refine h.answer u cmd hu (hpending.symm.trans hp) ⟨hdata.symm.trans hd.1, ?_⟩
      rw [← hcmd]
      exact hd.2
    · intro u cmd hu
      show cmd ∈ (toldOf i _).told
      rw [htold]
      exact h.knows u cmd hu
    · intro hne
      show makeCmd (m'.typeOf i) 0 ∈ (toldOf i _).told
      rw [htold, htype]
      exact h.type (htype ▸ hne)
  | acked s session hx hcmd hpending htype =>
    subst hx
    have hasked : (toldOf i (World.push t (some (.ack i s session (m'.gPortDevices i).ackCmd
        (m'.gPortDevices i).ackData)) w.trace)).asked = (toldOf i w.trace).asked := Told.next_asked id
    have hgrows : ∀ cmd ∈ (toldOf i w.trace).told, cmd ∈ (toldOf i (World.push t (some (.ack i s session
        (m'.gPortDevices i).ackCmd (m'.gPortDevices i).ackData)) w.trace)).told := by
      intro cmd hcmd
      show cmd ∈ ((toldOf i w.trace).next i _).told
      simp only [Told.next]
      split
      · exact List.mem_append_right _ hcmd
      · exact hcmd
    refine ⟨h.device, h.request, ?_, fun _ _ _ => hpending, ?_, ?_, ?_⟩
    · exact fun u cmd hu => (h.asked u cmd hu).imp fun _ hs => hasked.trans hs
    · rintro u cmd hu - hd
      obtain ⟨q, hq⟩ := h.asked u cmd hu
      show cmd ∈ ((toldOf i w.trace).next i _).told
      rw [Told.next, if_pos ⟨rfl, hd.1⟩, hq]
      refine List.mem_append_left _ (List.mem_filter.mpr ⟨List.mem_singleton_self _, ?_⟩)
      exact decide_eq_true (hd.2.resolve_left hcmd)
    · exact fun u cmd hu => hgrows cmd (h.knows u cmd hu)
    · intro hne
      show makeCmd (m'.typeOf i) 0 ∈ _
      rw [htype]
      exact hgrows _ (h.type (htype ▸ hne))
  | reset hx hpending hdata htype =>
    have htold := toldOf_plain hx t w.trace
    refine ⟨h.device, h.request, ?_, ?_, fun _ _ _ _ hd => (hdata hd.1).elim, ?_, ?_⟩
    · exact fun u cmd hu => (h.asked u cmd hu).imp fun _ hs => (congrArg Told.asked htold).trans hs
    · exact fun u cmd hu => hpending (h.done u cmd hu)
    · intro u cmd hu
      show cmd ∈ (toldOf i _).told
      rw [htold]
      exact h.knows u cmd hu
    · intro hne
      rcases htype with htype | htype
      · show makeCmd (m'.typeOf i) 0 ∈ (toldOf i _).told
        rw [htold, htype]
        exact h.type (htype ▸ hne)
      · exact (hne htype).elim

/-- a mutex of another port, or of no port -/
theorem mutex (h : Tells i w gs) {own : Mutex → Option T} (hdevice : own (.device i) = w.own (.device i))
    (hrequest : own (.request i) = w.own (.request i)) : Tells i { w with own := own } gs :=
  { h with
    device := fun t ht => hdevice.trans (h.device t ht)
    request := fun t ht => hrequest.trans (h.request t ht) }

/-- each mutex has one holder -/
theorem alone (h : Tells i w gs) {g : Asker} (hg : gs t = g) {u : T} (hu : u ≠ t) :
    (g.device → (gs u).device = false) ∧ (g.request → (gs u).request = false) := by
  subst hg
  have hne : ∀ l, w.own l = some t → w.own l ≠ some u := by
    intro l ht hlu
    rw [ht] at hlu
    exact hu (Option.some.inj hlu).symm
  constructor
  · intro ht
    by_contra hout
    exact hne _ (h.device t ht) (h.device u (Bool.not_eq_false _ ▸ hout))
  · intro ht
    by_contra hout
    exact hne _ (h.request t ht) (h.request u (Bool.not_eq_false _ ▸ hout))

/-- what a step of the thread has to show when it is the only one that asks -/
theorem of_alone (h : Tells i w gs) {w' : World T Mutex Event Mem} {g : Asker}
    (hothers : ∀ u ≠ t, (gs u).asking = none)
    (hdevice : ∀ u ≠ t, (gs u).device → w'.own (.device i) = w.own (.device i))
    (hrequest : ∀ u ≠ t, (gs u).request → w'.own (.request i) = w.own (.request i))
    (hdevice' : g.device → w'.own (.device i) = some t) (hrequest' : g.request → w'.own (.request i) = some t)
    (hasked : ∀ cmd, g.asking = some cmd → ∃ s, (toldOf i w'.trace).asked = some (cmd, s))
    (hdone : ∀ cmd, g = .done cmd → (w'.mem.gPortDevices i).pending = false)
    (hanswer : ∀ cmd, g.asking = some cmd → (w'.mem.gPortDevices i).pending = false →
      (w'.mem.gPortDevices i).Grants cmd → cmd ∈ (toldOf i w'.trace).told)
    (hknows : ∀ cmd, g.knows = some cmd → cmd ∈ (toldOf i w'.trace).told)
    (hknows' : ∀ u ≠ t, ∀ cmd, (gs u).knows = some cmd → cmd ∈ (toldOf i w'.trace).told)
    (htype : w'.mem.typeOf i ≠ 0 → makeCmd (w'.mem.typeOf i) 0 ∈ (toldOf i w'.trace).told) :
    Tells i w' (Function.update gs t g) := by
  have hat : ∀ {P : T → Asker → Prop}, P t g → (∀ u ≠ t, P u (gs u)) → ∀ u, P u (Function.update gs t g u) := by
    intro P ht hu u
    by_cases hut : u = t
    · subst hut
      rwa [Function.update_self]
    · rw [Function.update_of_ne hut]
      exact hu u hut
  refine ⟨?_, ?_, ?_, ?_, ?_, ?_, htype⟩
  · exact hat (P := fun u g => g.device → w'.own (.device i) = some u) hdevice' fun u hu hg =>
      (hdevice u hu hg).trans (h.device u hg)
  · exact hat (P := fun u g => g.request → w'.own (.request i) = some u) hrequest' fun u hu hg =>
      (hrequest u hu hg).trans (h.request u hg)
  · refine hat (P := fun _ g => ∀ cmd, g.asking = some cmd → ∃ s, (toldOf i w'.trace).asked = some (cmd, s)) hasked
      fun u hu cmd hg => ?_
    rw [hothers u hu] at hg
    cases hg
  · refine hat (P := fun _ g => ∀ cmd, g = .done cmd → (w'.mem.gPortDevices i).pending = false) hdone
      fun u hu cmd hg => ?_
    have hnone := hothers u hu
    rw [hg] at hnone
    cases hnone
  · refine hat (P := fun _ g => ∀ cmd, g.asking = some cmd → (w'.mem.gPortDevices i).pending = false →
      (w'.mem.gPortDevices i).Grants cmd → cmd ∈ (toldOf i w'.trace).told) hanswer fun u hu cmd hg => ?_
    rw [hothers u hu] at hg
    cases hg
  · exact hat (P := fun _ g => ∀ cmd, g.knows = some cmd → cmd ∈ (toldOf i w'.trace).told) hknows hknows'

/-- who holds one of the two mutexes is the only one that asks -/
theorem silent (h : Tells i w gs) {g : Asker} (hg : gs t = g) (hheld : g.device ∨ g.request) :
    ∀ u ≠ t, (gs u).asking = none := by
  intro u hu
  cases hasking : (gs u).asking with
  | none => rfl
  | some cmd =>
    obtain ⟨hdevice, hrequest⟩ := Asker.of_asking hasking
    have halone := h.alone hg hu
    rcases hheld with hd | hr
    · rw [halone.1 hd] at hdevice
      cases hdevice
    · rw [halone.2 hr] at hrequest
      cases hrequest

/-- a mutex is taken or given back by a thread without an open request -/
theorem relock (h : Tells i w gs) {own : Mutex → Option T} {g : Asker} (hothers : ∀ u ≠ t, (gs u).asking = none)
    (hdevice : ∀ u ≠ t, (gs u).device → own (.device i) = w.own (.device i))
    (hrequest : ∀ u ≠ t, (gs u).request → own (.request i) = w.own (.request i))
    (hdevice' : g.device → own (.device i) = some t) (hrequest' : g.request → own (.request i) = some t)
    (hasking : g.asking = none) (hknows : ∀ cmd, g.knows = some cmd → (gs t).knows = some cmd) :
    Tells i { w with own := own } (Function.update gs t g) := by
  have hnever : ∀ cmd, g.asking ≠ some cmd := by
    rintro cmd heq
    rw [hasking] at heq
    cases heq
  apply of_alone (h := h) hothers hdevice hrequest hdevice' hrequest'
  · exact fun cmd heq => (hnever cmd heq).elim
  · rintro cmd rfl
    cases hasking
  · exact fun cmd heq => (hnever cmd heq).elim
  · exact fun cmd heq => h.knows t cmd (hknows cmd heq)
  · exact fun u _ => h.knows u
  · exact h.type

/-- an access of a thread that holds one of the mutexes, and clears nothing -/
theorem own_access (h : Tells i w gs) {g g' : Asker} (hg : gs t = g) (hheld : g.device ∨ g.request)
    {x : Option Event} {m' : Mem} (hdevice : g'.device → g.device) (hrequest : g'.request → g.request)
    (htold : ∀ cmd ∈ (toldOf i w.trace).told, cmd ∈ (toldOf i (World.push t x w.trace)).told)
    (hasked : ∀ cmd, g'.asking = some cmd → ∃ s, (toldOf i (World.push t x w.trace)).asked = some (cmd, s))
    (hdone : ∀ cmd, g' = .done cmd → (m'.gPortDevices i).pending = false)
    (hanswer : ∀ cmd, g'.asking = some cmd → (m'.gPortDevices i).pending = false →
      (m'.gPortDevices i).Grants cmd → cmd ∈ (toldOf i w.trace).told)
    (hknows : ∀ cmd, g'.knows = some cmd → cmd ∈ (toldOf i w.trace).told)
    (htype : m'.typeOf i ≠ 0 → makeCmd (m'.typeOf i) 0 ∈ (toldOf i w.trace).told) :
    Tells i { w with mem := m', trace := World.push t x w.trace } (Function.update gs t g') := by
  refine h.of_alone (h.silent hg hheld) (fun _ _ _ => rfl) (fun _ _ _ => rfl) ?_ ?_ ?_ ?_ ?_ ?_ ?_ ?_
  · exact fun hg' => h.device t (hg ▸ hdevice hg')
  · exact fun hg' => h.request t (hg ▸ hrequest hg')
  · exact hasked
  · exact hdone
  · exact fun cmd hc hp hd => htold cmd (hanswer cmd hc hp hd)
  · exact fun cmd hc => htold cmd (hknows cmd hc)
  · exact fun u _ cmd hc => htold cmd (h.knows u cmd hc)
  · exact fun hne => htold _ (htype hne)

end Tells

/-! ## accesses that are aside -/

theorem plain_of {x : Option Event} (h : ∀ e, x = some e → e.kind ≠ .pend ∧ e.kind ≠ .finish ∧
    e.kind ≠ .ack ∧ e.kind ≠ .dev) : Plain i x := by
  intro e he a
  obtain ⟨hpend, hfinish, hack, hdev⟩ := h e he
  cases e with
  | pend => exact (hpend rfl).elim
  | finish => exact (hfinish rfl).elim
  | ack => exact (hack rfl).elim
  | devReset => exact (hdev rfl).elim
  | _ => rfl

theorem plain_none : Plain i none := fun _ h => nomatch h

/-- the kinds that leave the ports alone -/
def calmKinds : Set Kind := {k | k ≠ .pend ∧ k ≠ .finish ∧ k ≠ .ack ∧ k ≠ .reset ∧ k ≠ .dev ∧ k ≠ .setup}

theorem Kind.Touches.ports {k : Kind} {m m' : Mem} (h : k.Touches m m') (hk : k ∈ calmKinds) :
    m'.gPortDevices = m.gPortDevices := by
  obtain ⟨hpend, hfinish, hack, hreset, hdev, hsetup⟩ := hk
  cases k with
  | pend => exact (hpend rfl).elim
  | finish => exact (hfinish rfl).elim
  | ack => exact (hack rfl).elim
  | reset => exact (hreset rfl).elim
  | dev => exact (hdev rfl).elim
  | setup => exact (hsetup rfl).elim
  | quiet =>
    obtain ⟨c, s, x, y, z, -, rfl⟩ := h
    rfl
  | io | v2 | seq | receivers | sess | status | statusPtr =>
    obtain ⟨x, rfl⟩ := h
    rfl
  | prot =>
    obtain ⟨x, y, rfl⟩ := h
    rfl
  | life =>
    obtain ⟨x, y, z, rfl⟩ := h
    rfl
  | input | call | send | recv | hello | config | frame | gaveUp =>
    cases h
    rfl

theorem Untold.of_ports {m m' : Mem} {x : Option Event} (hx : Plain i x)
    (h : m'.gPortDevices i = m.gPortDevices i) : Untold i m x m' := by
  refine .kept hx ?_ ?_ ?_ ?_
  · rw [h]
  · rw [h]
  · rw [h]
  · rw [Mem.typeOf, h]
    rfl

def AsideAcc (i : Port) (e : Mem → Option Event) (f : Mem → Mem) : Prop := ∀ m, Untold i m (e m) (f m)

theorem Acc.calm {e : Mem → Option Event} {f : Mem → Mem} (h : Acc calmKinds e f) : AsideAcc i e f := by
  intro m
  obtain ⟨k, hk, hstep⟩ := h m
  apply Untold.of_ports
  · apply plain_of
    intro x hx
    rw [hstep.label x hx]
    exact ⟨hk.1, hk.2.1, hk.2.2.1, hk.2.2.2.2.1⟩
  · rw [hstep.touches.ports hk]

/-- the mutexes other than the two of the port -/
def otherMutexes (i : Port) : Set Mutex := {l | l ≠ .device i ∧ l ≠ .request i}

theorem tells_neutral {g : Asker} : (tellLogic T i).Neutral (AsideAcc i) (· ∈ otherMutexes i) t g where
  act := by
    rintro e f hacc w gs (hI : Tells i w gs) - -
    exact hI.aside (hacc w.mem)
  acquire := by
    rintro l hl w gs (hI : Tells i w gs) - -
    exact hI.mutex (Function.update_of_ne (Ne.symm hl.1) ..) (Function.update_of_ne (Ne.symm hl.2) ..)
  release := by
    rintro l hl w gs (hI : Tells i w gs) -
    exact hI.mutex (Function.update_of_ne (Ne.symm hl.1) ..) (Function.update_of_ne (Ne.symm hl.2) ..)
  places _ := ⟨trivial, trivial, fun _ => trivial, trivial⟩

/-- a program all of whose accesses are aside -/
def Besides (i : Port) {α : Type} (p : P α) : Prop := p.All (AsideAcc i) (· ∈ otherMutexes i)

theorem Besides.of_does {α : Type} {p : P α} (hp : Does calmKinds (otherMutexes i) p) : Besides i p :=
  Prog.All.mono (fun _ _ h => h.calm) (fun _ h => h) hp

theorem besides_passes : Passes (fun _ p => Besides i p) calmKinds (otherMutexes i) where
  pure _ := trivial
  bind hp hq := Prog.All.bind hp hq
  does hp := .of_does hp

theorem calm_mem {k : Kind} (h : k ≠ .pend) (h' : k ≠ .finish) (h₁ : k ≠ .ack) (h₂ : k ≠ .reset) (h₃ : k ≠ .dev)
    (h₄ : k ≠ .setup) : k ∈ calmKinds := ⟨h, h', h₁, h₂, h₃, h₄⟩

end RaspikeArt
