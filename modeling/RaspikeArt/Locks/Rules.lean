import RaspikeArt.Threads.Locks
import RaspikeArt.Model.Effects

/-!
# The mutexes of the library

Which mutex guards which globals, and the order in which mutexes are taken.

* `Field`, `Field.guard`   the shared globals, each with the mutex that a write to it asks for;
* `Mutex.rank`             a thread takes mutexes of higher and higher rank;
* `rules`                  the discipline: writes under their guard, mutexes in order, and no mutex in
                           hand when a call returns.  `bare` lets the writes pass that take no mutex,
                           `shuts` the step of `raspike_prot_shutdown` against the order;
* `*_orderly`                the functions of the com layer, the senders and the requests.
-/

namespace RaspikeArt
open Threads

/-! ## what is guarded -/

inductive Field where
  /-- `pending`, `pending_sequence` and the `ack_*` fields of a port -/
  | request (i : Port)
  | device (i : Port)
  | nextSequence
  | linkStats
  | runtimeTelemetry
  | savedStatus
  | statusPtr
  | desc
  | activeReceivers
  | sendBuffer
  | sendMode
  deriving DecidableEq

def Field.guard : Field → Mutex
  | .request i => .port i
  | .device i => .device i
  | .nextSequence => .fgSequence
  | .linkStats => .fgLinkStats
  | .runtimeTelemetry => .fgRuntimeTelemetry
  | .savedStatus | .statusPtr => .fgStatus
  | .desc | .activeReceivers => .fgLifecycle
  | .sendBuffer | .sendMode => .comSend

/-- the request state of a port -/
def RPPortDevice.asked (d : RPPortDevice) : RPPortDevice := { d with device := .zero }

def Field.Same : Field → Mem → Mem → Prop
  | .request i, m, m' => (m'.gPortDevices i).asked = (m.gPortDevices i).asked
  | .device i, m, m' => (m'.gPortDevices i).device = (m.gPortDevices i).device
  | .nextSequence, m, m' => m'.fgNextSequence = m.fgNextSequence
  | .linkStats, m, m' => m'.fgLinkStats = m.fgLinkStats
  | .runtimeTelemetry, m, m' => m'.fgRuntimeTelemetry = m.fgRuntimeTelemetry
  | .savedStatus, m, m' => m'.heap = m.heap
  | .statusPtr, m, m' => m'.fgStatus = m.fgStatus
  | .desc, m, m' => m'.fgDesc = m.fgDesc
  | .activeReceivers, m, m' => m'.fgActiveReceivers = m.fgActiveReceivers
  | .sendBuffer, m, m' => m'.com.fgSendBuffer = m.com.fgSendBuffer
  | .sendMode, m, m' => m'.com.fgSendMode = m.com.fgSendMode

@[simp] theorem Field.same_refl (x : Field) (m : Mem) : x.Same m m := by
  cases x <;> rfl

theorem Field.same_setDesc (x : Field) (m : Mem) (d : Nat) (f : RPComDescriptor → RPComDescriptor) :
    x.Same m (m.setDesc d f) := by
  cases x <;> rfl

/-- a change of the request state of one port -/
theorem Field.same_setSlot {x : Field} {i : Port} {f : RPPortDevice → RPPortDevice}
    (hf : ∀ d, (f d).device = d.device) (hx : x.guard ≠ .port i) (m : Mem) :
    x.Same m (m.setPort i f) := by
  cases x with
  | request j =>
    have hj : j ≠ i := fun h => hx (congrArg Mutex.port h)
    exact congrArg RPPortDevice.asked (Function.update_of_ne hj ..)
  | device j =>
    by_cases hj : j = i
    · subst hj
      exact (congrArg RPPortDevice.device (Function.update_self ..)).trans (hf _)
    · exact congrArg RPPortDevice.device (Function.update_of_ne hj ..)
  | _ => rfl

/-- a change of the device of one port -/
theorem Field.same_setDevice {x : Field} {i : Port} {f : PupDevice → PupDevice}
    (hx : x.guard ≠ .device i) (m : Mem) :
    x.Same m (m.setPort i fun d => { d with device := f d.device }) := by
  cases x with
  | request j =>
    by_cases hj : j = i
    · subst hj
      show RPPortDevice.asked (Mem.gPortDevices (m.setPort j _) j) = _
      rw [setPort_self]
      rfl
    · exact congrArg RPPortDevice.asked (Function.update_of_ne hj ..)
  | device j =>
    have hj : j ≠ i := fun h => hx (congrArg Mutex.device h)
    exact congrArg RPPortDevice.device (Function.update_of_ne hj ..)
  | _ => rfl

/-! ## the order -/

def Mutex.rank : Mutex → Nat
  | .fgLifecycle => 0
  | .device _ => 1
  | .request _ => 2
  | .fgSend => 3
  | .port _ => 4
  | .fgStatus | .fgSequence | .fgLinkStats | .fgRuntimeTelemetry | .comSend => 5

/-- every mutex in hand is of a lower rank than `n` -/
def Below (H : Set Mutex) (n : Nat) : Prop := ∀ l ∈ H, l.rank < n

theorem Below.empty (n : Nat) : Below ∅ n := fun _ h => (Set.notMem_empty _ h).elim

theorem Below.mono {H : Set Mutex} {n n' : Nat} (h : Below H n) (hn : n ≤ n') : Below H n' :=
  fun l hl => (h l hl).trans_le hn

theorem Below.insert {H : Set Mutex} {n : Nat} {l : Mutex} (h : Below H n) (hl : l.rank < n) :
    Below (Insert.insert l H) n := by
  rintro l' (rfl | h')
  · exact hl
  · exact h l' h'

theorem Below.notMem {H : Set Mutex} {l : Mutex} (h : Below H l.rank) : l ∉ H :=
  fun hl => lt_irrefl _ (h l hl)

/-! ## the discipline -/

def Event.endsCall : Event → Bool
  | .returned .. => true
  | _ => false

structure Access (bare : Field → Prop) (H : Set Mutex) (e : Mem → Option Event) (f : Mem → Mem) : Prop where
  guarded : ∀ m, ∀ x : Field, x.Same m (f m) ∨ x.guard ∈ H ∨ bare x
  free : ∀ m x, e m = some x → x.endsCall → H = ∅

/-- `l` comes after what is in hand, or it is a device mutex that a shutdown takes in its send section -/
def Takes (shuts : Prop) (H : Set Mutex) (l : Mutex) : Prop :=
  Below H l.rank ∨ shuts ∧ H = {.fgSend} ∧ ∃ i, l = .device i

def rules (bare : Field → Prop) (shuts : Prop) : Discipline Mutex Event Mem where
  access := Access bare
  take := Takes shuts

theorem Below.takes {bare : Field → Prop} {shuts : Prop} {H : Set Mutex} {l : Mutex} (h : Below H l.rank) :
    (rules bare shuts).take H l :=
  .inl h

section
variable {bare : Field → Prop} {shuts : Prop} {H : Set Mutex} {α β : Type}

/-- an access that writes to no guarded global -/
theorem Access.plain {e : Mem → Option Event} {f : Mem → Mem} (hf : ∀ m, ∀ x : Field, x.Same m (f m))
    (he : ∀ m x, e m = some x → x.endsCall = false) : Access bare H e f :=
  ⟨fun m x => .inl (hf m x), fun m x hx hr => by rw [he m x hx] at hr; cases hr⟩

/-- an access to what a mutex in hand guards -/
theorem Access.under {l : Mutex} (hl : l ∈ H) {e : Mem → Option Event} {f : Mem → Mem}
    (hf : ∀ m, ∀ x : Field, x.guard ≠ l → x.Same m (f m))
    (he : ∀ m x, e m = some x → x.endsCall = false) : Access bare H e f := by
  refine ⟨fun m x => ?_, fun m x hx hr => by rw [he m x hx] at hr; cases hr⟩
  by_cases hx : x.guard = l
  · exact .inr (.inl (hx ▸ hl))
  · exact .inl (hf m x hx)

/-- an access of an init -/
theorem Access.init (hi : ∀ x, bare x) {e : Mem → Option Event} {f : Mem → Mem}
    (he : ∀ m x, e m = some x → x.endsCall = false) : Access bare H e f :=
  ⟨fun _ x => .inr (.inr (hi x)), fun m x hx hr => by rw [he m x hx] at hr; cases hr⟩

/-- a write to the device of one port without its mutex -/
theorem Access.device {i : Port} (hi : bare (.device i)) (f : PupDevice → PupDevice) :
    Access bare H (fun _ => none) fun m => m.setPort i fun d => { d with device := f d.device } := by
  refine ⟨fun m x => ?_, fun m x hx hr => by cases hx⟩
  by_cases hx : x.guard = .device i
  · obtain rfl : x = .device i := by
      cases x <;> cases hx
      rfl
    exact .inr (.inr hi)
  · exact .inl (Field.same_setDevice hx m)

/-! ### the rules for programs -/

theorem plain_orderly {e : Mem → Option Event} {f : Mem → α × Mem}
    (hf : ∀ m, ∀ x : Field, x.Same m (f m).2) (he : ∀ m x, e m = some x → x.endsCall = false) :
    (Prog.act e f .ret : P α).Keeps (rules bare shuts) H :=
  Prog.Obeys.act (Access.plain hf he)

/-- a labelled access -/
theorem labelled_orderly {e : Mem → Event} {f : Mem → α × Mem} (he : ∀ m, (e m).endsCall = false)
    (hf : ∀ m, ∀ x : Field, x.Same m (f m).2) :
    (Prog.act (fun m => some (e m)) f .ret : P α).Keeps (rules bare shuts) H :=
  plain_orderly hf fun m x hx => by
    cases hx
    exact he m

/-- a labelled write under a mutex -/
theorem under_orderly {l : Mutex} (hl : l ∈ H) {e : Mem → Event} {f : Mem → α × Mem}
    (he : ∀ m, (e m).endsCall = false) (hf : ∀ m, ∀ x : Field, x.guard ≠ l → x.Same m (f m).2) :
    (Prog.act (fun m => some (e m)) f .ret : P α).Keeps (rules bare shuts) H :=
  Prog.Obeys.act (Access.under hl hf fun m x hx => by
    cases hx
    exact he m)

theorem load_orderly (f : Mem → α) : (load f : P α).Keeps (rules bare shuts) H :=
  Prog.Obeys.load (Access.plain (fun m x => x.same_refl m) fun _ _ h => nomatch h)

theorem tick_orderly {e : Event} (he : e.endsCall = false) :
    (tick e : P Unit).Keeps (rules bare shuts) H :=
  labelled_orderly (fun _ => he) fun m x => x.same_refl m

theorem modify_orderly {l : Mutex} (hl : l ∈ H) {f : Mem → Mem}
    (hf : ∀ m, ∀ x : Field, x.guard ≠ l → x.Same m (f m)) :
    (modify f : P Unit).Keeps (rules bare shuts) H :=
  Prog.Obeys.modify (Access.under hl hf fun _ _ h => nomatch h)

/-- a write to a global that no mutex guards -/
theorem store_orderly {f : Mem → Mem} (hf : ∀ m, ∀ x : Field, x.Same m (f m)) :
    (modify f : P Unit).Keeps (rules bare shuts) H :=
  Prog.Obeys.modify (Access.plain hf fun _ _ h => nomatch h)

theorem lock_obeys {l : Mutex} {q : Unit → P α} {Q : α → Set Mutex → Prop} (hH : Below H l.rank)
    (hq : (q ()).Obeys (rules bare shuts) (Insert.insert l H) Q) :
    (lock l >>= q).Obeys (rules bare shuts) H Q :=
  Prog.Obeys.lock hH.notMem hH.takes hq

theorem unlock_obeys {l : Mutex} {q : Unit → P α} {Q : α → Set Mutex → Prop} (hH : Below H l.rank)
    (hq : (q ()).Obeys (rules bare shuts) H Q) :
    (unlock l >>= q).Obeys (rules bare shuts) (Insert.insert l H) Q :=
  Prog.Obeys.unlock hH.notMem hq

/-- a critical section with one way out -/
theorem section_orderly {l : Mutex} {p : P α} (hH : Below H l.rank)
    (hp : p.Keeps (rules bare shuts) (Insert.insert l H)) {q : α → P β} {Q : β → Set Mutex → Prop}
    (hq : ∀ a, (q a).Obeys (rules bare shuts) H Q) :
    (do
      lock l
      let a ← p
      unlock l
      q a : P β).Obeys (rules bare shuts) H Q :=
  lock_obeys hH (hp.bind fun a => unlock_obeys hH (hq a))

/-! ## the com layer -/

theorem clockLate_orderly (d : Nat) (dir : Dir) : (clockLate d dir).Keeps (rules bare shuts) H := by
  cases dir
  · refine plain_orderly (fun m x => ?_) fun _ _ h => nomatch h
    split <;> dsimp only
    · exact x.same_setDesc ..
    · exact x.same_refl _
  · refine plain_orderly (fun m x => ?_) fun _ _ h => nomatch h
    split <;> dsimp only
    · exact x.same_setDesc ..
    · exact x.same_refl _

theorem poll_orderly (d : Nat) (dir : Dir) : (poll d dir).Keeps (rules bare shuts) H := by
  cases dir
  · refine plain_orderly (fun m x => ?_) fun _ _ h => nomatch h
    split <;> dsimp only
    · exact x.same_setDesc ..
    · exact x.same_refl _
    · exact x.same_refl _
  · refine plain_orderly (fun m x => ?_) fun _ _ h => nomatch h
    split <;> dsimp only
    · exact x.same_setDesc ..
    · exact x.same_refl _

theorem readFd_orderly (d n : Nat) : (readFd d n).Keeps (rules bare shuts) H := by
  refine plain_orderly (fun m x => ?_) fun _ _ h => nomatch h
  split <;> dsimp only
  · exact x.same_setDesc ..
  · exact x.same_setDesc ..
  · exact x.same_refl _

theorem writeFd_orderly (d : Nat) (buf : List Byte) : (writeFd d buf).Keeps (rules bare shuts) H := by
  refine plain_orderly (fun m x => ?_) fun m x hx => ?_
  · split <;> dsimp only <;> exact x.same_setDesc ..
  · split at hx
    · cases hx
    · cases hx
      rfl
    · cases hx
      rfl

theorem tcflush_orderly (d : Nat) : (tcflush d).Keeps (rules bare shuts) H := by
  refine plain_orderly (fun m x => ?_) fun _ _ h => nomatch h
  split <;> dsimp only
  · exact x.same_setDesc ..
  · exact x.same_setDesc ..
  · exact x.same_refl _

theorem getUsbFd_orderly (d : Nat) : (getUsbFd d).Keeps (rules bare shuts) H := load_orderly _

theorem waitFd_orderly (d : Nat) (dir : Dir) : (waitFd d dir).Keeps (rules bare shuts) H := by
  refine Prog.Obeys.loopKeeps fun _ => (poll_orderly d dir).bind fun p => ?_
  split <;> rfl

theorem writeAllFd_orderly (d : Nat) (buf : List Byte) :
    (writeAllFd d buf).Keeps (rules bare shuts) H := by
  refine Prog.Obeys.loopKeeps fun rest => ?_
  split
  · rfl
  refine (clockLate_orderly d .tx).bind fun late => ?_
  split
  · rfl
  refine (waitFd_orderly d .tx).bind fun ready => ?_
  split
  · rfl
  refine (writeFd_orderly d rest).bind fun r => ?_
  split
  · rfl
  · rfl
  · split <;> rfl

theorem readSomeFd_orderly (d n : Nat) : (readSomeFd d n).Keeps (rules bare shuts) H := by
  unfold readSomeFd
  split
  · rfl
  refine (waitFd_orderly d .rx).bind fun ready => ?_
  split
  · rfl
  refine Prog.Obeys.loopKeeps fun _ => (readFd_orderly d n).bind fun r => ?_
  split
  · rfl
  · rfl
  · split
    · rfl
    · split <;> rfl

theorem rpUsbReceive_orderly (d n : Nat) : (rpUsbReceive d n).Keeps (rules bare shuts) H := by
  refine (getUsbFd_orderly d).bind fun fd => ?_
  split
  · rfl
  · exact readSomeFd_orderly d n

theorem rpUsbClose_orderly (d : Nat) : (rpUsbClose d).Keeps (rules bare shuts) H := by
  refine (getUsbFd_orderly d).bind fun fd => ?_
  split
  · rfl
  · exact store_orderly fun m x => x.same_setDesc ..

theorem raspikeComDiscardInput_orderly (desc : Option Nat) :
    (raspikeComDiscardInput desc).Keeps (rules bare shuts) H := by
  cases desc with
  | none => rfl
  | some d =>
    refine (getUsbFd_orderly d).bind fun fd => ?_
    split
    · rfl
    refine (tcflush_orderly d).bind fun r => ?_
    cases r <;> rfl

theorem raspikeComReceiveTimeout_orderly (desc : Option Nat) (size : Nat) :
    (raspikeComReceiveTimeout desc size).Keeps (rules bare shuts) H := by
  cases desc with
  | none => rfl
  | some d =>
    unfold raspikeComReceiveTimeout
    dsimp only
    split
    · rfl
    refine (tick_orderly rfl).bind fun _ => Prog.Obeys.loopKeeps fun received => ?_
    split
    · rfl
    refine (clockLate_orderly d .rx).bind fun late => ?_
    split
    · rfl
    refine (rpUsbReceive_orderly d _).bind fun r => ?_
    cases r with
    | ok bs => rfl
    | error e =>
      dsimp only
      split <;> rfl

section
variable (hH : Below H 5)
include hH

theorem bufferedWrite_orderly (d : Nat) (buf : List Byte) :
    (bufferedWrite d buf).Keeps (rules bare shuts) H := by
  unfold bufferedWrite
  split
  · rfl
  refine lock_obeys hH ((load_orderly _).bind fun size => ?_)
  split
  · exact unlock_obeys hH rfl
  refine Prog.Obeys.bind ?_ fun _ => unlock_obeys hH rfl
  refine under_orderly (e := fun _ => .queued d buf) (Set.mem_insert .comSend H) (fun _ => rfl)
    fun m x hx => ?_
  cases x <;> first
    | rfl
    | exact (hx rfl).elim

omit hH in
theorem flushBufferLocked_orderly (d : Nat) :
    (flushBufferLocked d).Keeps (rules bare shuts) (Insert.insert .comSend H) := by
  refine (load_orderly _).bind fun buf => ?_
  split
  · rfl
  refine (getUsbFd_orderly d).bind fun fd => ?_
  split
  · rfl
  refine (writeAllFd_orderly d buf).bind fun ret => ?_
  split
  · rfl
  refine Prog.Obeys.bind ?_ fun _ => rfl
  refine under_orderly (e := fun _ => .emptied d) (Set.mem_insert .comSend H) (fun _ => rfl)
    fun m x hx => ?_
  cases x <;> first
    | rfl
    | exact (hx rfl).elim

theorem raspikeUsbSetMode_orderly (mode : UsbMode) :
    (raspikeUsbSetMode mode).Keeps (rules bare shuts) H := by
  refine lock_obeys hH (Prog.Obeys.bind ?_ fun _ => Prog.Obeys.unlocked hH.notMem)
  refine modify_orderly (Set.mem_insert .comSend H) fun m x hx => ?_
  cases x <;> first
    | rfl
    | exact (hx rfl).elim

theorem rpUsbSend_orderly (d : Nat) (buf : List Byte) :
    (rpUsbSend d buf).Keeps (rules bare shuts) H := by
  refine section_orderly hH (load_orderly _) fun mode => ?_
  split
  · exact bufferedWrite_orderly hH d buf
  refine (getUsbFd_orderly d).bind fun fd => ?_
  split
  · rfl
  · exact writeAllFd_orderly d buf

theorem raspikeComSend_orderly (desc : Option Nat) (buf : List Byte) :
    (raspikeComSend desc buf).Keeps (rules bare shuts) H := by
  cases desc with
  | none => rfl
  | some d => exact (tick_orderly rfl).bind fun _ => rpUsbSend_orderly hH d buf

theorem raspikeComFlush_orderly (desc : Option Nat) :
    (raspikeComFlush desc).Keeps (rules bare shuts) H := by
  cases desc with
  | none => rfl
  | some d =>
    refine (tick_orderly rfl).bind fun _ => ?_
    exact section_orderly hH (flushBufferLocked_orderly d) fun ret => rfl

/-! ## sending -/

theorem statsIncrement_orderly (s : Stat) : (statsIncrement s).Keeps (rules bare shuts) H := by
  refine lock_obeys hH (Prog.Obeys.bind ?_ fun _ => Prog.Obeys.unlocked hH.notMem)
  refine modify_orderly (Set.mem_insert .fgLinkStats H) fun m x hx => ?_
  cases x <;> first
    | rfl
    | exact (hx rfl).elim

theorem nextSequence_orderly : nextSequence.Keeps (rules bare shuts) H := by
  have hl : Mutex.fgSequence ∈ Insert.insert Mutex.fgSequence H := Set.mem_insert _ _
  refine lock_obeys hH (Prog.Obeys.bind ?_ fun sequence => (load_orderly _).bind fun next =>
    Prog.Obeys.bind ?_ fun _ => unlock_obeys hH rfl)
  · refine under_orderly (e := fun m => .drawn m.fgNextSequence) hl (fun _ => rfl) fun m x hx => ?_
    cases x <;> first
      | rfl
      | exact (hx rfl).elim
  split
  · refine modify_orderly hl fun m x hx => ?_
    cases x <;> first
      | rfl
      | exact (hx rfl).elim
  · rfl

theorem sendLegacyFrame_orderly (port cmd : Byte) (payload : Buf) (size : Int) :
    (sendLegacyFrame port cmd payload size).Keeps (rules bare shuts) H := by
  unfold sendLegacyFrame
  split
  · rfl
  exact (load_orderly _).bind fun desc => raspikeComSend_orderly hH _ _

theorem sendV2Frame_orderly (port cmd : Byte) (payload : Buf) (size : Int) (sequence : U32)
    (flags : Byte) :
    (sendV2Frame port cmd payload size sequence flags).Keeps (rules bare shuts) H := by
  unfold sendV2Frame
  split
  · rfl
  refine Prog.Obeys.bind ?_ fun session => (load_orderly _).bind fun desc =>
    raspikeComSend_orderly hH _ _
  exact labelled_orderly (fun _ => rfl) fun m x => x.same_refl m

theorem sendFrameLocked_orderly (port cmd : Byte) (payload : Buf) (size : Int) (sequence : U32)
    (flags : Byte) (flushNow : Bool) :
    (sendFrameLocked port cmd payload size sequence flags flushNow).Keeps (rules bare shuts) H := by
  refine (load_orderly _).bind fun v2 => Prog.Obeys.bind ?_ fun ret => ?_
  · split
    · exact sendV2Frame_orderly hH ..
    · exact sendLegacyFrame_orderly hH ..
  split
  · exact (load_orderly _).bind fun desc => (raspikeComFlush_orderly hH desc).bind fun _ => rfl
  · rfl

end

theorem sendFrame_orderly (hH : Below H 3) (port cmd : Byte) (payload : Buf) (size : Int)
    (sequence : U32) (flags : Byte) (flushNow : Bool) :
    (sendFrame port cmd payload size sequence flags flushNow).Keeps (rules bare shuts) H := by
  have hin : Below (Insert.insert Mutex.fgSend H) 5 :=
    (hH.mono (by decide)).insert (l := .fgSend) (by decide)
  refine (tick_orderly rfl).bind fun _ => lock_obeys hH ((tick_orderly rfl).bind fun _ => ?_)
  refine (Prog.Obeys.orElse (load_orderly _) (load_orderly _)).bind fun down => ?_
  split
  · exact unlock_obeys hH ((tick_orderly rfl).bind fun _ => rfl)
  refine (sendFrameLocked_orderly hin ..).bind fun ret => unlock_obeys hH ?_
  refine Prog.Obeys.bind ?_ fun _ => (tick_orderly rfl).bind fun _ => rfl
  split
  · exact statsIncrement_orderly (hH.mono (by decide)) _
  · rfl

theorem raspikeProtSend_orderly (hH : Below H 3) (port cmdid : Byte) (buf : Buf) (size : Int) :
    (raspikeProtSend port cmdid buf size).Keeps (rules bare shuts) H :=
  (nextSequence_orderly (hH.mono (by decide))).bind fun _ => sendFrame_orderly hH ..

theorem raspikeProtSendPriority_orderly (hH : Below H 3) (port cmdid : Byte) (buf : Buf) (size : Int) :
    (raspikeProtSendPriority port cmdid buf size).Keeps (rules bare shuts) H :=
  (nextSequence_orderly (hH.mono (by decide))).bind fun _ => sendFrame_orderly hH ..

/-! ## the ports -/

section
variable {i : Port}

/-- a labelled write to the request state of a port, under its mutex -/
theorem setSlot_orderly (hi : Mutex.port i ∈ H) {e : Event} {f : RPPortDevice → RPPortDevice}
    (he : e.endsCall = false) (hf : ∀ d, (f d).device = d.device) :
    (Prog.act (fun _ => some e) (fun m => ((), m.setPort i f)) .ret : P Unit).Keeps
      (rules bare shuts) H :=
  under_orderly hi (fun _ => he) fun m _ hx => Field.same_setSlot hf hx m

variable (hH : Below H 4)
include hH

theorem resetSlot_orderly (error : Int) : (resetSlot error i).Keeps (rules bare shuts) H := by
  have hi : Mutex.port i ∈ Insert.insert (Mutex.port i) H := Set.mem_insert _ _
  refine lock_obeys hH ((load_orderly _).bind fun canceled => Prog.Obeys.bind ?_ fun _ =>
    Prog.Obeys.unlocked hH.notMem)
  split
  · refine (load_orderly _).bind fun session => Prog.Obeys.bind ?_ fun _ => Prog.Obeys.broadcast
    exact setSlot_orderly hi rfl fun _ => rfl
  · exact setSlot_orderly hi rfl fun _ => rfl

theorem requestSleep_orderly (result : Int) :
    (requestSleep i result).Keeps (rules bare shuts) (Insert.insert (.port i) H) := by
  refine Prog.Obeys.loopKeeps fun result => (load_orderly _).bind fun pending => ?_
  split
  · rfl
  refine (Prog.Obeys.condWait (Below.notMem hH) (Below.takes hH)).bind fun waitResult => ?_
  split
  · rfl
  split <;> rfl

theorem requestWait_orderly (sequence : U32) (last : Bool) (result : Int) :
    (requestWait i sequence last result).Keeps (rules bare shuts) H := by
  refine lock_obeys hH ((requestSleep_orderly hH result).bind fun result =>
    (load_orderly _).bind fun pending => ?_)
  split
  · exact unlock_obeys hH rfl
  refine Prog.Obeys.bind ?_ fun _ => unlock_obeys hH rfl
  split
  · exact tick_orderly rfl
  · rfl

theorem requestBegin_orderly (cmd : Byte) : (requestBegin i cmd).Keeps (rules bare shuts) H := by
  refine (nextSequence_orderly (hH.mono (by decide))).bind fun sequence => lock_obeys hH ?_
  refine Prog.Obeys.bind ?_ fun _ => unlock_obeys hH rfl
  exact setSlot_orderly (Set.mem_insert _ _) rfl fun _ => rfl

omit hH in
theorem requestOutcome_orderly (hH : Below H 5) (cmd : Byte) (sequence : U32) (result : Int)
    (completed : Bool) (d : RPPortDevice) :
    (requestOutcome cmd sequence result completed d).Keeps (rules bare shuts) H := by
  unfold requestOutcome
  split
  · rfl
  refine Prog.Obeys.bind ?_ fun acked => ?_
  · split
    · refine Prog.Obeys.orElse (load_orderly _) ?_
      split
      · exact load_orderly _
      · rfl
    · rfl
  split
  · rfl
  split
  · exact (statsIncrement_orderly hH _).bind fun _ => rfl
  · rfl

/-- the final section also releases the request mutex -/
theorem requestFinish_obeys (hi : Mutex.request i ∉ H) (cmd : Byte) (sequence : U32) (result : Int)
    (completed : Bool) : (requestFinish i cmd sequence result completed).Obeys (rules bare shuts)
      (Insert.insert (.request i) H) fun _ H' => H' = H := by
  have hH' : Below (Insert.insert (Mutex.request i) H) 4 := hH.insert (l := .request i) (show 2 < 4 by decide)
  refine lock_obeys hH' ((load_orderly _).bind fun d => ?_)
  refine (requestOutcome_orderly ((hH'.mono (by decide)).insert (l := .port i) (show 4 < 5 by decide))
    cmd sequence result completed d).bind fun outcome => ?_
  refine Prog.Obeys.bind (setSlot_orderly (Set.mem_insert _ _) rfl fun _ => rfl) fun _ => ?_
  exact unlock_obeys hH' (Prog.Obeys.unlock hi rfl)

end

theorem resetDevice_obeys {i : Port} (hi : Mutex.device i ∉ H) (ht : Takes shuts H (.device i)) :
    (resetDevice i).Keeps (rules bare shuts) H := by
  refine Prog.Obeys.lock hi ht (Prog.Obeys.bind ?_ fun _ => Prog.Obeys.unlocked hi)
  refine under_orderly (e := fun _ => .devReset i) (Set.mem_insert (.device i) H) (fun _ => rfl)
    fun m x hx => ?_
  exact Field.same_setDevice (f := fun _ => .zero) hx m

theorem resetPortState_orderly (hH : Below H 4) (error : Int) (clearDevices : Bool)
    (hdev : clearDevices → ∀ i, Mutex.device i ∉ H ∧ Takes shuts H (.device i)) :
    (resetPortState error clearDevices).Keeps (rules bare shuts) H := by
  refine Prog.Obeys.forEach fun i _ => (resetSlot_orderly hH error).bind fun _ => ?_
  split
  case isTrue h => exact resetDevice_obeys (hdev h i).1 (hdev h i).2
  case isFalse => rfl

/-! ## requests -/

theorem requestAttempts_orderly {i : Port} (hH : Below H 3) (port cmd : Byte) (data : Buf) (size : Int)
    (sequence : U32) (n : Nat) (result : Int) :
    (requestAttempts i port cmd data size sequence n result).Keeps (rules bare shuts) H := by
  have hport : Below H 4 := hH.mono (by decide)
  induction n generalizing result with
  | zero => rfl
  | succ n ih =>
    refine section_orderly (l := .port i) hport (load_orderly _) fun stillPending => ?_
    split
    · rfl
    refine (sendFrame_orderly hH ..).bind fun sent => ?_
    split
    · exact (tick_orderly rfl).bind fun _ => rfl
    refine (requestWait_orderly hport ..).bind fun waited => ?_
    split
    · rfl
    refine Prog.Obeys.bind ?_ fun _ => ih _
    split
    · exact statsIncrement_orderly (hH.mono (by decide)) _
    · rfl

theorem raspikeRequest_orderly (hH : Below H 2) (port cmd : Byte) (data : Buf) (size : Int) :
    (raspikeRequest port cmd data size).Keeps (rules bare shuts) H := by
  unfold raspikeRequest
  split
  · rfl
  split
  · rfl
  case h_2 i _ =>
    have hin : Below (Insert.insert (Mutex.request i) H) 3 :=
      (hH.mono (by decide)).insert (l := .request i) (show 2 < 3 by decide)
    refine lock_obeys hH ((requestBegin_orderly (hin.mono (by decide)) cmd).bind fun sequence => ?_)
    refine (load_orderly _).bind fun v2 => (requestAttempts_orderly hin ..).bind fun waited => ?_
    exact requestFinish_obeys (hH.mono (by decide)) hH.notMem ..

end

end RaspikeArt
