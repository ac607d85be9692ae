import RaspikeArt.Status.Modes
import RaspikeArt.Model.Calls
import RaspikeArt.Threads.Local

/-!
# The saved status, part 5: the record and the history

Any threads receive, ask for devices, send, read sensors and reset counts; nobody connects or
disconnects.  Then the saved status is what the history says.

* `doing t tr`      the call that a thread is in, and the frame that it is handling;
* `Doing.writes`    what its next use of the saved status makes of it;
* `recordOf s tr`   the record that a history makes of `s`;
* `record_history`  it is the saved status, in every run.
-/

namespace RaspikeArt
open Threads

variable {T : Type} [DecidableEq T]

/-- the record that `fgStatus` points to -/
def Mem.record (m : Mem) : SpikeStatus := (m.fgStatus.bind m.heap).getD zeroStatus

/-- the port that a handle of `i` has -/
def Held (i : Port) (m : Mem) : Prop := (m.gPortDevices i).device.portId.toNat = i.val

theorem getDevice_toNat {port : Byte} {j : Port} (h : getDevice port = some j) (hj : j.val < 6) :
    port.toNat = j.val := by
  unfold getDevice at h
  split at h
  · cases h
    exact absurd hj (by decide)
  · split at h
    · cases h
      rfl
    · cases h

/-- what a received frame makes of the saved status; a new session clears it -/
def frameStore (cmd : Byte) (payload : List Byte) : SpikeStatus → SpikeStatus :=
  if cmd = rpCmdIdLinkHello then fun _ => zeroStatus
  else if cmd = rpCmdIdAllStatus then fun _ => .ofBytes payload
  else if cmd = rpCmdIdDriveTelemetry ∧ payload.length = driveTelemetrySize then driveMerge payload
  else id

/-- `pup_motor_reset_count` clears the count of the port -/
def clearCount (i : Port) (s : SpikeStatus) : SpikeStatus :=
  s.write (portOffset i.val + dataOffset) [0, 0, 0, 0]

/-- what a thread is at, by its own labels: its call, and the frame that it is handling -/
structure Doing where
  call : Option Call
  frame : Option (Byte × List Byte)

namespace Doing

def idle : Doing := ⟨none, none⟩

def next (a : Doing) : Event → Doing
  | .call c => ⟨some c, none⟩
  | .returned _ _ => idle
  | .command _ cmd _ _ _ payload => { a with frame := some (cmd, payload) }
  | _ => a

/-- what its use of the saved status makes of it; most threads only read it -/
def writes (a : Doing) : SpikeStatus → SpikeStatus :=
  match a.call, a.frame with
  | some .receive, some (cmd, payload) => frameStore cmd payload
  | some (.motorResetCount (some i)), _ => clearCount i
  | _, _ => id

end Doing

def doing (t : T) (tr : Trace T) : Doing := ownFold Doing.next .idle t tr

def Event.isUse : Event → Bool
  | .statusUse _ => true
  | _ => false

/-- the record after a history that starts with `s` -/
def recordOf (s : SpikeStatus) : Trace T → SpikeStatus
  | [] => s
  | (t, e) :: tr => if e.isUse then (doing t tr).writes (recordOf s tr) else recordOf s tr

/-! ## what a thread promises -/

/-- the saved status is at `p`, and the handles `hs` are of their ports -/
structure Live (p : Nat) (hs : Set Port) (m : Mem) : Prop where
  pointer : m.fgStatus = some p
  record : ∃ s, m.heap p = some s
  held : ∀ i ∈ hs, Held i m

/-- the record after an access with label `x` of a thread that is at `a` -/
def Doing.after (a : Doing) (x : Option Event) (s : SpikeStatus) : SpikeStatus :=
  match x with
  | some e => if e.isUse then a.writes s else s
  | none => s

structure Saves (p : Nat) (hs : Set Port) (a : Doing) (m : Mem) (x : Option Event) (m' : Mem) : Prop where
  live : Live p hs m'
  record : m'.record = a.after x m.record
  returns : ∀ c r, x = some (.returned c r) → a.call = some c

def saving (p : Nat) (hs : Set Port) : Local CondVar Event Mem := labelled Doing.next (Live p hs) (Saves p hs)

/-- an access that leaves the saved status and the handles alone -/
structure SameSaved (hs : Set Port) (m m' : Mem) : Prop where
  pointer : m'.fgStatus = m.fgStatus
  heap : m'.heap = m.heap
  held : ∀ i ∈ hs, Held i m → Held i m'

namespace SameSaved
variable {p : Nat} {hs : Set Port} {m m' : Mem}

theorem refl (hs : Set Port) (m : Mem) : SameSaved hs m m := ⟨rfl, rfl, fun _ _ h => h⟩

theorem live (h : SameSaved hs m m') (hm : Live p hs m) : Live p hs m' where
  pointer := h.pointer.trans hm.pointer
  record := by
    obtain ⟨s, hs⟩ := hm.record
    exact ⟨s, (congrFun h.heap p).trans hs⟩
  held i hi := h.held i hi (hm.held i hi)

theorem record (h : SameSaved hs m m') : m'.record = m.record := by
  rw [Mem.record, Mem.record, h.pointer, h.heap]

theorem of_device (hp : m'.fgStatus = m.fgStatus) (hheap : m'.heap = m.heap)
    (hd : ∀ i, (m'.gPortDevices i).device = (m.gPortDevices i).device) : SameSaved hs m m' :=
  ⟨hp, hheap, fun i _ h => by rwa [Held, hd i]⟩

theorem saves (h : SameSaved hs m m') (hm : Live p hs m) {a : Doing} {x : Option Event}
    (hx : ∀ e, x = some e → e.isUse = true → a.writes = id) (hret : ∀ c r, x ≠ some (.returned c r)) :
    Saves p hs a m x m' := by
  refine ⟨h.live hm, h.record.trans ?_, fun c r h => (hret c r h).elim⟩
  cases x with
  | none => rfl
  | some e =>
    show m.record = if e.isUse then _ else _
    by_cases he : e.isUse = true
    · rw [if_pos he, hx e rfl he]
      rfl
    · rw [if_neg he]

end SameSaved

/-- the kinds of the accesses inside a call that leave the saved status and the handles alone -/
def apartKinds : Set Kind := {k | k ≠ .status ∧ k ≠ .statusPtr ∧ k ≠ .setup ∧ k ≠ .dev ∧ k ≠ .call}

theorem Kind.Touches.sameSaved {k : Kind} {m m' : Mem} (h : k.Touches m m') (hk : k ∈ apartKinds)
    (hs : Set Port) : SameSaved hs m m' := by
  obtain ⟨hstatus, hptr, hsetup, hdev, -⟩ := hk
  cases k with
  | status => exact (hstatus rfl).elim
  | statusPtr => exact (hptr rfl).elim
  | setup => exact (hsetup rfl).elim
  | dev => exact (hdev rfl).elim
  | pend | finish | ack | reset =>
    obtain ⟨q, rfl⟩ := h
    exact SameSaved.of_device rfl rfl q.property
  | quiet =>
    obtain ⟨c, s, x, y, z, -, rfl⟩ := h
    exact SameSaved.of_device rfl rfl fun _ => rfl
  | prot =>
    obtain ⟨c, t, rfl⟩ := h
    exact SameSaved.of_device rfl rfl fun _ => rfl
  | life =>
    obtain ⟨d, s, h, rfl⟩ := h
    exact SameSaved.of_device rfl rfl fun _ => rfl
  | io | seq | sess | v2 | receivers =>
    obtain ⟨x, rfl⟩ := h
    exact SameSaved.of_device rfl rfl fun _ => rfl
  | input | call | send | recv | hello | config | frame | gaveUp =>
    cases h
    exact SameSaved.refl hs m

theorem Kind.Step.not_use {k : Kind} {m m' : Mem} {x : Option Event} (h : k.Step m x m') (hk : k ≠ .status)
    {e : Event} (he : x = some e) : e.isUse = false := by
  have hkind := h.label e he
  cases e with
  | statusUse p => exact (hk hkind.symm).elim
  | _ => rfl

section
variable {p : Nat} {hs : Set Port} {α : Type}

/-- a program that leaves the saved status, the handles and the thread's own state alone -/
theorem aside_saving {ks : Set Kind} (hks : ks ⊆ apartKinds) {q : P α} (hq : Does ks Set.univ q)
    (inv : Doing → Prop) (hinv : ∀ a e, e.kind ∈ ks → inv a → inv (a.next e)) {a : Doing} (ha : inv a) :
    along (saving p hs) q (fun _ a' => inv a') a := by
  apply along_all (𝓛 := saving p hs) (P := inv) ?_ ?_ hq Prog.Wakes.trivial Prog.Yields.trivial ha
    fun _ _ _ h => h
  · intro e f b m hacc hb hR
    obtain ⟨k, hk, hstep⟩ := hacc m
    refine ⟨(hstep.touches.sameSaved (hks hk) hs).saves hR (fun x hx huse => ?_) fun c r hx => ?_, ?_⟩
    · rw [hstep.not_use (hks hk).1 hx] at huse
      cases huse
    · have hkind := hstep.label _ hx
      subst hkind
      exact (hks hk).2.2.2.2 rfl
    · cases hx : e m with
      | none => exact hb
      | some x => exact hinv b x ((hstep.label x hx).symm ▸ hk) hb
  · exact fun _ _ _ hb => ⟨trivial, hb⟩

/-- a program during which the thread stays where it is -/
def Stays (p : Nat) (hs : Set Port) (q : P α) : Prop :=
  ∀ a : Doing, along (saving p hs) q (fun _ a' => a' = a) a

/-- the kinds of the accesses that say nothing of the call and the frame -/
def stillKinds : Set Kind := {k | k ∈ apartKinds ∧ k ≠ .recv}

theorem Doing.next_still {e : Event} (hc : e.kind ≠ .call) (hr : e.kind ≠ .recv) (a : Doing) : a.next e = a := by
  cases e with
  | call | returned => exact (hc rfl).elim
  | command => exact (hr rfl).elim
  | _ => rfl

theorem stays_passes (p : Nat) (hs : Set Port) : Passes (fun _ q => Stays p hs q) stillKinds Set.univ where
  pure _ := fun _ => rfl
  bind hp hq := fun a => along_seq (hp a) fun b a' h => by
    cases h
    exact hq b a
  does hq := fun a => aside_saving (fun _ h => h.1) hq (· = a)
    (fun b e hk hb => (Doing.next_still hk.1.2.2.2.2 hk.2 b).trans hb) rfl

theorem stays_request (port cmd : Byte) (data : Buf) (size : Int) :
    Stays p hs (raspikeRequest port cmd data size) := by
  apply (stays_passes p hs).does (raspikeRequest_all _ (Set.subset_univ _) _ _ _ _)
  intro k hk
  cases k <;> first
    | exact hk.elim
    | exact ⟨⟨nofun, nofun, nofun, nofun, nofun⟩, nofun⟩

theorem stays_send (port cmdid : Byte) (buf : Buf) (size : Int) :
    Stays p hs (raspikeProtSend port cmdid buf size) := by
  apply (stays_passes p hs).does (raspikeProtSend_all _ (Set.subset_univ _) _ _ _ _)
  intro k hk
  cases k <;> first
    | exact hk.elim
    | exact ⟨⟨nofun, nofun, nofun, nofun, nofun⟩, nofun⟩

theorem stays_sendPriority (port cmdid : Byte) (buf : Buf) (size : Int) :
    Stays p hs (raspikeProtSendPriority port cmdid buf size) := by
  apply (stays_passes p hs).does (raspikeProtSendPriority_all _ (Set.subset_univ _) _ _ _ _)
  intro k hk
  cases k <;> first
    | exact hk.elim
    | exact ⟨⟨nofun, nofun, nofun, nofun, nofun⟩, nofun⟩

/-- the handle that `pup_*_get_device` gives is of its port -/
theorem stays_getDevice (hhs : ∀ i ∈ hs, i.val < 6) (fgDeviceType port : Byte) :
    Stays p hs (getDeviceCommon fgDeviceType port) := by
  have hset : ∀ j (dv : PupDevice → PupDevice),
      (j ∈ hs → ∀ v : PupDevice, v.portId.toNat = j.val → (dv v).portId.toNat = j.val) →
      Stays p hs (modify fun m => m.setPort j fun d => { d with device := dv d.device }) := by
    intro j dv hdv a
    apply along_act
    intro m hm
    have hsame : SameSaved hs m (m.setPort j fun d => { d with device := dv d.device }) := by
      refine ⟨rfl, rfl, fun i hi h => ?_⟩
      by_cases hij : i = j
      · subst hij
        rw [Held, setPort_self]
        exact hdv hi _ h
      · rwa [Held, setPort_of_ne _ _ hij]
    exact ⟨hsame.saves hm (fun _ he => nomatch he) nofun, rfl⟩
  apply getDeviceCommon_around (F := fun _ q => Stays p hs q) ((stays_passes p hs).mono _ (Set.subset_univ _))
    (fun port cmd => stays_request port cmd none 0)
  · exact fun j => hset j (fun v => { v with deviceType := fgDeviceType }) fun _ _ h => h
  · exact fun j hget => hset j (fun v => { v with portId := port - 65 }) fun hj _ _ =>
      getDevice_toNat hget (hhs j hj)
  · rintro k (rfl | rfl) <;> exact ⟨⟨nofun, nofun, nofun, nofun, nofun⟩, nofun⟩

/-! ## looking at the saved status -/

/-- a program that a thread runs which does not write -/
def Peeks (p : Nat) (hs : Set Port) (q : P α) : Prop :=
  ∀ a : Doing, a.writes = id → along (saving p hs) q (fun _ a' => a' = a) a

theorem Stays.peeks {q : P α} (h : Stays p hs q) : Peeks p hs q := fun a _ => h a

theorem peeks_passes (p : Nat) (hs : Set Port) : Passes (fun _ q => Peeks p hs q) stillKinds Set.univ where
  pure _ := fun _ _ => rfl
  bind hq hr := fun a ha => along_seq (hq a ha) fun b a' h => by
    cases h
    exact hr b a ha
  does hq := ((stays_passes p hs).does hq).peeks

theorem fetch_saving (a : Doing) : along (saving p hs) raspikeProtGetSavedStatus (fun r a' => r = some p ∧ a' = a) a := by
  apply along_act
  intro m hm
  refine ⟨(SameSaved.refl hs m).saves hm (fun _ he huse => ?_) nofun, hm.pointer, rfl⟩
  cases he
  cases huse

theorem peeks_read (q : Option Nat) (f : SpikeStatus → α) : Peeks p hs (readStatus q f) := by
  intro a ha
  apply along_act
  intro m hm
  exact ⟨(SameSaved.refl hs m).saves hm (fun _ _ _ => ha) nofun, rfl⟩

theorem peeks_wait (port waitCmd : Byte) : Peeks p hs (raspikeWaitPortCmdChange port waitCmd) := by
  intro a ha
  have hF := peeks_passes p hs
  have hload : ∀ {β : Type} (f : Mem → β), Peeks p hs (load f) := fun f =>
    hF.does (Does.load ⟨⟨nofun, nofun, nofun, nofun, nofun⟩, nofun⟩)
  have hunlock : ∀ {β : Type} (b : β), Peeks p hs (do
      unlock Mutex.fgStatus
      return b) := fun b => hF.bind (hF.does (Does.unlock (Set.mem_univ _))) fun _ => hF.pure b
  unfold raspikeWaitPortCmdChange
  split
  · exact rfl
  apply along_seq (fetch_saving a)
  rintro status a ⟨rfl, rfl⟩
  split
  · exact rfl
  apply along_seq (hF.does (Does.lock (Set.mem_univ _)) _ ha)
  rintro _ a rfl
  apply along_loop (fun _ a' => a' = a) rfl
  rintro _ a rfl
  apply along_seq (hload _ a ha)
  rintro status a rfl
  apply along_seq (peeks_read status _ a ha)
  rintro cmd a rfl
  split
  · exact hunlock (.inr 0 : Unit ⊕ Int) a ha
  apply along_seq (along_condWait (Q := fun _ a' => a' = a) fun _ => rfl)
  rintro ret a rfl
  apply along_seq (B := fun _ a' => a' = a)
  · apply along_act
    intro m hm
    refine ⟨(SameSaved.refl hs m).saves hm (fun _ he huse => ?_) nofun, rfl⟩
    cases he
    cases huse
  rintro _ a rfl
  split
  · exact hunlock (.inr (-ETIMEDOUT) : Unit ⊕ Int) a ha
  split
  · exact hunlock (.inr (-ret) : Unit ⊕ Int) a ha
  · exact rfl

theorem peeks_looks : Looks fun _ q => Peeks p hs q where
  passes := by
    apply (peeks_passes p hs).mono _ (Set.subset_univ _)
    rintro k rfl
    exact ⟨⟨nofun, nofun, nofun, nofun, nofun⟩, nofun⟩
  fetch := fun a _ => along_mono (fun _ _ h => h.2) (fetch_saving a)
  read := peeks_read
  wait := peeks_wait

/-! ## writing to it -/

/-- a write through the pointer -/
theorem store_saving {a : Doing} {f : Mem → SpikeStatus → SpikeStatus}
    (hf : ∀ m, Live p hs m → a.writes m.record = f m m.record) :
    along (saving p hs) (.act (fun _ => some (.statusUse (some p))) (fun m => ((), match some p with
      | none => m
      | some q => { m with heap := Function.update m.heap q ((m.heap q).map (f m)) })) .ret : P Unit)
      (fun _ a' => a' = a) a := by
  apply along_act
  intro m hm
  obtain ⟨s, hheap⟩ := hm.record
  have hrecord : m.record = s := by rw [Mem.record, hm.pointer, Option.bind_some, hheap, Option.getD_some]
  have hstored : (Function.update m.heap p ((m.heap p).map (f m))) p = some (f m s) := by
    rw [Function.update_self, hheap, Option.map_some]
  refine ⟨⟨⟨hm.pointer, ⟨f m s, hstored⟩, hm.held⟩, ?_, nofun⟩, rfl⟩
  show (m.fgStatus.bind (Function.update m.heap p ((m.heap p).map (f m)))).getD zeroStatus = a.writes m.record
  rw [hf m hm, hm.pointer, Option.bind_some, hstored, hrecord, Option.getD_some]

theorem writeStatus_saving {a : Doing} {f : SpikeStatus → SpikeStatus} (hf : a.writes = f) :
    along (saving p hs) (writeStatus f) (fun _ a' => a' = a) a := by
  apply along_seq (B := fun status a' => status = some p ∧ a' = a)
  · apply along_act
    intro m hm
    exact ⟨(SameSaved.refl hs m).saves hm (fun _ he => nomatch he) nofun, hm.pointer, rfl⟩
  rintro status _ ⟨rfl, rfl⟩
  exact store_saving fun _ _ => congrFun hf _

theorem section_saving {a : Doing} {f : SpikeStatus → SpikeStatus} (hf : a.writes = f) {β : Type} (b : β) :
    along (saving p hs) (do
      lock .fgStatus
      writeStatus f
      broadcast .fgStatus
      unlock .fgStatus
      return b) (fun _ a' => a' = a) a := by
  apply along_bind
  apply along_lock
  apply along_seq (writeStatus_saving hf)
  rintro _ _ rfl
  apply along_bind
  apply along_broadcast
  · trivial
  apply along_bind
  exact along_unlock rfl

/-! ## a receiver -/

/-- a program of a receiver -/
def Receives (p : Nat) (hs : Set Port) (q : P α) : Prop :=
  ∀ a : Doing, a.call = some .receive → along (saving p hs) q (fun _ a' => a'.call = some .receive) a

theorem Stays.receives {q : P α} (h : Stays p hs q) : Receives p hs q := by
  intro a ha
  apply along_mono _ (h a)
  rintro _ a' rfl
  exact ha

theorem receives_passes (p : Nat) (hs : Set Port) :
    Passes (fun _ q => Receives p hs q) apartKinds Set.univ where
  pure _ := fun _ ha => ha
  bind hq hr := fun a ha => along_seq (hq a ha) fun b a' ha' => hr b a' ha'
  does hq := by
    intro a ha
    apply aside_saving (fun _ h => h) hq (fun b => b.call = some .receive) _ ha
    intro b e hk hb
    cases e with
    | call | returned => exact (hk.2.2.2.2 rfl).elim
    | _ => exact hb

theorem processHello_saving {a : Doing} (ha : a.writes = fun _ => zeroStatus) (buf : List Byte) :
    along (saving p hs) (processHelloPayload buf) (fun _ a' => a' = a) a := by
  have hF := stays_passes p hs
  have hport : ∀ i, Mutex.port i ∈ (Set.univ : Set Mutex) := fun i => Set.mem_univ _
  have hq : Kind.quiet ∈ stillKinds := ⟨⟨nofun, nofun, nofun, nofun, nofun⟩, nofun⟩
  have hp : Kind.prot ∈ stillKinds := ⟨⟨nofun, nofun, nofun, nofun, nofun⟩, nofun⟩
  have hsess : Kind.sess ∈ stillKinds := ⟨⟨nofun, nofun, nofun, nofun, nofun⟩, nofun⟩
  have hreset : Kind.reset ∈ stillKinds := ⟨⟨nofun, nofun, nofun, nofun, nofun⟩, nofun⟩
  have hhello : Kind.hello ∈ stillKinds := ⟨⟨nofun, nofun, nofun, nofun, nofun⟩, nofun⟩
  unfold processHelloPayload
  split
  · exact rfl
  apply along_seq (hF.does (Does.load hq) a)
  rintro old a rfl
  split
  · exact rfl
  apply along_seq (hF.does (setSession_all hsess _) a)
  rintro _ a rfl
  apply along_seq (hF.does (setCapabilities_all hp _) a)
  rintro _ a rfl
  apply along_seq (hF.does (resetPortState_all hq hreset hport _ false nofun nofun) a)
  rintro _ a rfl
  apply along_seq (hF.does (Does.tick (k := .hello) hhello rfl (fun _ => rfl) fun _ => rfl) a)
  rintro _ a rfl
  apply along_seq (B := fun _ a' => a' = a)
  · apply along_bind
    apply along_act
    intro m hm
    refine ⟨(SameSaved.refl hs m).saves hm (fun _ he huse => ?_) nofun, ?_⟩
    · cases he
      cases huse
    · show along (saving p hs) (if m.fgStatus.isSome = true then _ else _) _ a
      rw [hm.pointer, if_pos (show (some p).isSome = true from rfl)]
      apply along_bind
      apply along_lock
      apply along_seq (writeStatus_saving ha)
      rintro _ a rfl
      apply along_bind
      apply along_broadcast
      · trivial
      exact along_unlock rfl
  rintro _ a rfl
  exact hF.does (clearRuntimeTelemetry_all hp (Set.mem_univ _)) a

theorem processCommand_saving (port cmd flags : Byte) (sequence session : U32) (buf : List Byte) :
    Receives p hs (processCommand port cmd flags sequence session buf) := by
  intro a ha
  have hF := stays_passes p hs
  have hq : Kind.quiet ∈ stillKinds := ⟨⟨nofun, nofun, nofun, nofun, nofun⟩, nofun⟩
  have hp : Kind.prot ∈ stillKinds := ⟨⟨nofun, nofun, nofun, nofun, nofun⟩, nofun⟩
  have hack : Kind.ack ∈ stillKinds := ⟨⟨nofun, nofun, nofun, nofun, nofun⟩, nofun⟩
  have hall : ∀ l, l ∈ (Set.univ : Set Mutex) := Set.mem_univ
  apply along_bind
  apply along_act
  intro m hm
  refine ⟨(SameSaved.refl hs m).saves hm (fun _ he huse => ?_) nofun, ?_⟩
  · cases he
    cases huse
  -- the frame that the thread handles from here on
  show along (saving p hs) _ _ ({ a with frame := some (cmd, buf) } : Doing)
  have hwrites : ({ a with frame := some (cmd, buf) } : Doing).writes = frameStore cmd buf := by
    rw [Doing.writes, ha]
  have hcall : ({ a with frame := some (cmd, buf) } : Doing).call = some .receive := ha
  generalize ({ a with frame := some (cmd, buf) } : Doing) = b at hwrites hcall
  have hstay : ∀ {β : Type} {q : P β}, Stays p hs q →
      along (saving p hs) q (fun _ a' => a'.call = some .receive) b := fun h => h.receives b hcall
  have hcounted : ∀ (s : Stat) (r : Int), Stays p hs (do
      statsIncrement s
      return r) := fun s r => hF.bind (hF.does (statsIncrement_all hq (hall _) s)) fun _ => hF.pure r
  have hstored : ∀ f, frameStore cmd buf = f →
      along (saving p hs) (updateStatus f) (fun _ a' => a'.call = some .receive) b := by
    intro f hf
    apply along_mono _ (section_saving (hwrites.trans hf) (0 : Int))
    rintro _ b' rfl
    exact hcall
  split
  case isTrue hhello =>
    have hclear : frameStore cmd buf = fun _ => zeroStatus := if_pos hhello
    apply along_seq (processHello_saving (hwrites.trans hclear) buf)
    rintro _ b' rfl
    exact hcall
  case isFalse hhello =>
  split
  · exact hstay (hcounted _ _)
  apply along_seq (B := fun _ a' => a' = b)
  · refine hF.does ((Does.load hq).bind fun v2 => ?_) b
    split
    · exact Does.load hq
    · exact Does.pure _
  rintro stale b' rfl
  split
  · exact hstay (hcounted _ _)
  split
  case isTrue hcmd =>
    split
    · exact hcall
    · exact hstored _ ((if_neg hhello).trans (if_pos hcmd))
  case isFalse hstatus =>
  split
  · split
    · exact hcall
    · exact hstay (hF.bind (hF.does (Does.lock (hall _))) fun _ => hF.bind (hF.does (setRuntimeTelemetry_all hp buf))
        fun _ => hF.bind (hF.does (Does.unlock (hall _))) fun _ => hF.pure _)
  split
  case isTrue hcmd =>
    split
    case isTrue => exact hcall
    case isFalse hlen =>
      exact hstored _ ((if_neg hhello).trans ((if_neg hstatus).trans (if_pos ⟨hcmd, not_not.mp hlen⟩)))
  split
  · split
    · exact hcall
    split
    · exact hcall
    · exact hstay (hF.does (processAck_all hq hack (hall _) (hall _) _ _ _))
  split <;> exact hcall

theorem receive_saving : Receives p hs raspikeProtReceive := by
  have hF := receives_passes p hs
  apply raspikeProtReceive_passes (hF.mono _ (Set.subset_univ _))
  · apply receiveFrame_passes (hF.mono _ (Set.subset_univ _)) processCommand_saving
    intro k hk
    cases k <;> first
      | exact hk.elim
      | exact ⟨nofun, nofun, nofun, nofun, nofun⟩
  · rintro k (rfl | rfl) <;> exact ⟨nofun, nofun, nofun, nofun, nofun⟩

/-! ## every call -/

theorem reset_saving {i : Port} (hi : i ∈ hs) {a : Doing} (ha : a.call = some (.motorResetCount (some i))) :
    along (saving p hs) (pupMotorResetCount (some i)) (fun _ a' => a' = a) a := by
  have hwrites : a.writes = clearCount i := by rw [Doing.writes, ha]
  have hload : ∀ {β : Type} (f : Mem → β), Stays p hs (load f) := fun f =>
    (stays_passes p hs).does (Does.load ⟨⟨nofun, nofun, nofun, nofun, nofun⟩, nofun⟩)
  apply along_seq (hload _ a)
  rintro portId a rfl
  apply along_seq (stays_request portId rpCmdIdMotRst none 0 a)
  rintro result a rfl
  split
  case isFalse => exact rfl
  apply along_seq (fetch_saving a)
  rintro status a ⟨rfl, rfl⟩
  rw [if_pos (show (some p).isSome = true from rfl)]
  apply along_bind
  apply along_lock
  -- the offset is that of the port, as the handle is of its port
  apply along_bind
  apply along_act
  intro m hm
  refine ⟨(SameSaved.refl hs m).saves hm (fun _ he => nomatch he) nofun, ?_⟩
  have hclear : ∀ m', Live p hs m' → a.writes m'.record = m'.record.write
      (portOffset (m.gPortDevices i).device.portId.toNat + dataOffset) [0, 0, 0, 0] := by
    intro m' _
    rw [hwrites, clearCount, ← hm.held i hi]
  apply along_seq (store_saving hclear)
  rintro _ a rfl
  exact along_bind (along_unlock rfl)

end

/-- the motors whose counts are reset are among `hs` -/
def Resets (hs : Set Port) (calls : T → List Call) : Prop :=
  ∀ t i, .motorResetCount (some i) ∈ calls t → i ∈ hs

section
variable {p : Nat} {hs : Set Port}

/-- the body of a call; the thread still knows which call it is in -/
theorem body_saving (hports : ∀ i ∈ hs, i.val < 6) {c : Call} (hinit : ∀ desc, c ≠ .init desc)
    (hdown : c ≠ .shutdown) (hreset : ∀ i, c = .motorResetCount (some i) → i ∈ hs) :
    along (saving p hs) c.body (fun _ a' => a'.call = some c) ⟨some c, none⟩ := by
  have hstays : ∀ {q : P Ret}, along (saving p hs) q (fun _ a' => a' = ⟨some c, none⟩) ⟨some c, none⟩ →
      along (saving p hs) q (fun _ a' => a'.call = some c) ⟨some c, none⟩ := by
    intro q h
    apply along_mono _ h
    rintro _ _ rfl
    rfl
  have hclient : c.isClient → (∀ i, c ≠ .motorResetCount (some i)) →
      along (saving p hs) c.body (fun _ a' => a'.call = some c) ⟨some c, none⟩ := by
    intro hc hreset
    have hok : c.Pays fun _ _ _ => True := by cases c <;> trivial
    have hpeeks : Peeks p hs c.body := by
      apply calls_looking peeks_looks (fun _ _ _ => True) (fun _ => trivial)
        (fun _ _ _ _ _ => (stays_send _ _ _ _).peeks) (fun _ _ _ _ _ => (stays_sendPriority _ _ _ _).peeks)
        (fun _ _ _ _ _ => (stays_request _ _ _ _).peeks) (fun ty port _ => (stays_getDevice hports ty port).peeks)
        _ hc hok
      intro motor hm
      cases motor with
      | none => exact (peeks_passes p hs).pure _
      | some i => exact (hreset i hm).elim
    apply hstays
    apply hpeeks
    cases c with
    | receive => cases hc
    | motorResetCount motor =>
      cases motor with
      | none => rfl
      | some i => exact (hreset i rfl).elim
    | _ => rfl
  cases c with
  | init desc => exact (hinit desc rfl).elim
  | shutdown => exact (hdown rfl).elim
  | receive => exact along_seq (receive_saving _ rfl) fun _ _ ha => ha
  | motorResetCount motor =>
    cases motor with
    | none => exact hclient rfl nofun
    | some i => exact hstays (along_seq (reset_saving (hreset i rfl) rfl) fun _ _ ha => ha)
  | _ => exact hclient rfl nofun

theorem runCall_saving (hports : ∀ i ∈ hs, i.val < 6) {c : Call} (hinit : ∀ desc, c ≠ .init desc)
    (hdown : c ≠ .shutdown) (hreset : ∀ i, c = .motorResetCount (some i) → i ∈ hs) (a : Doing) :
    along (saving p hs) (runCall c) (fun _ _ => True) a := by
  apply along_bind
  apply along_act
  intro m hm
  refine ⟨(SameSaved.refl hs m).saves hm (fun _ he huse => ?_) nofun, ?_⟩
  · cases he
    cases huse
  apply along_seq (body_saving hports hinit hdown hreset)
  intro r a' ha'
  apply along_act
  intro m' hm'
  have hsame := SameSaved.refl hs m'
  refine ⟨⟨hsame.live hm', rfl, fun c' r' heq => ?_⟩, trivial⟩
  cases heq
  exact ha'

theorem client_saving (hports : ∀ i ∈ hs, i.val < 6) {cs : List Call} (hinit : ∀ c ∈ cs, ∀ desc, c ≠ .init desc)
    (hdown : .shutdown ∉ cs) (hreset : ∀ i, .motorResetCount (some i) ∈ cs → i ∈ hs) (a : Doing) :
    along (saving p hs) (client cs) (fun _ _ => True) a := by
  induction cs generalizing a with
  | nil => exact trivial
  | cons c cs ih =>
    have hfirst := runCall_saving (p := p) hports (hinit c List.mem_cons_self)
      (fun h => hdown (h ▸ List.mem_cons_self)) (fun i h => hreset i (h ▸ List.mem_cons_self)) a
    apply along_seq hfirst
    intro _ a' _
    exact ih (fun c' h => hinit c' (List.mem_cons_of_mem _ h)) (fun h => hdown (List.mem_cons_of_mem _ h))
      (fun i h => hreset i (List.mem_cons_of_mem _ h)) a'

variable {calls : T → List Call} {m : Mem} {c : Sys T}

omit [DecidableEq T] in
/-- what the threads of a run promise, each for what it is at -/
theorem calls_saving (hports : ∀ i ∈ hs, i.val < 6) (hinit : NoInit calls) (hdown : NoShutdown calls)
    (hreset : Resets hs calls) (t : T) :
    along (saving p hs) ((start m calls).thr t) (fun _ _ => True) .idle :=
  client_saving hports (hinit t) (hdown t) (hreset t) .idle

/-- the saved status is the record that the history makes of the first one, and a call that returns is
the one that the thread is in -/
theorem record_history (hports : ∀ i ∈ hs, i.val < 6) (hinit : NoInit calls) (hdown : NoShutdown calls)
    (hreset : Resets hs calls) (hm : Live p hs m) (hr : Reach (start m calls) c) :
    Live p hs c.mem ∧ c.mem.record = recordOf m.record c.trace ∧
      ∀ as t call r bs, c.trace = as ++ (t, .returned call r) :: bs → (doing t bs).call = some call := by
  have hG : ∀ (a : Doing) (m : Mem) x m', Live p hs m → Saves p hs a m x m' → Live p hs m' :=
    fun _ _ _ _ _ h => h.live
  have hp := calls_saving (p := p) (m := m) hports hinit hdown hreset
  refine ⟨(hr.labelled rfl hm hG hp).1, ?_⟩
  apply hr.labelled_inv (I := fun tr m' => m'.record = recordOf m.record tr ∧
    ∀ as t call r bs, tr = as ++ (t, .returned call r) :: bs → (doing t bs).call = some call) rfl hm hG hp
  · exact ⟨rfl, fun as t call r bs h => (List.append_ne_nil_of_right_ne_nil _ (List.cons_ne_nil _ _) h.symm).elim⟩
  intro t x tr m₁ m₂ hI _ hgives
  obtain ⟨hrecord, hcalls⟩ := hI
  cases x with
  | none => exact ⟨hgives.record.trans hrecord, hcalls⟩
  | some e =>
    refine ⟨?_, fun as u call r bs h => ?_⟩
    · rw [hgives.record, hrecord]
      rfl
    · obtain ⟨rfl, heq⟩ | ⟨as', rfl, h'⟩ := List.cons_eq_append_iff.mp h
      · cases heq
        exact hgives.returns call r rfl
      · exact hcalls as' u call r bs h'

end

end RaspikeArt
