import RaspikeArt.Model.System
import RaspikeArt.Threads.Logic
import Mathlib.Data.Set.Insert

/-!
# What each function touches

Every access of the library is of one `Kind`: which globals it may change and which labels it
leaves.  `Does ks ls p` says that the accesses of `p` are of the kinds `ks` and its mutexes among
`ls`; the lemmas `*_all` give both for each function.  A logic that is not interested in a function
steps over it with `wp_all`.

* `Event.kind`       the kind of a label;
* `Kind.Touches`     the globals an access of a kind may change;
* `Kind.Step`        one access: its label, its footprint, and the bytes it puts on a wire.
-/

namespace RaspikeArt
open Threads

inductive Kind where
  /-- the com layer but for its send buffer, counters and version numbers; and every plain read -/
  | quiet
  /-- a send or a flush -/
  | io (d : Nat)
  /-- the begin of a receive -/
  | input (d : Nat)
  | call
  | send
  | recv
  | hello
  | config
  | frame
  | gaveUp
  | pend
  | finish
  | ack
  | reset
  | dev
  | seq
  | sess
  | v2
  /-- capabilities and runtime telemetry -/
  | prot
  /-- the entry and the exit of a receiver -/
  | receivers
  | life
  | status
  /-- the pointer to the saved status -/
  | statusPtr
  /-- what a connection starts from: ports and saved status -/
  | setup
  deriving DecidableEq

def Event.kind : Event → Kind
  | .call _ | .returned _ _ | .comCall _ | .comReturned _ _ => .call
  | .drawn _ => .seq
  | .pend .. => .pend
  | .finish .. => .finish
  | .ack .. => .ack
  | .cancel .. | .clear _ => .reset
  | .gaveUp .. => .gaveUp
  | .devReset _ => .dev
  | .session _ => .sess
  | .useV2 _ => .v2
  | .capabilities _ | .runtimeTelemetry => .prot
  | .frame .. => .frame
  | .v2Frame _ | .legacyFrame _ | .command .. => .recv
  | .helloDone _ => .hello
  | .receiverIn | .receiverOut => .receivers
  | .stop | .takeDesc _ | .close _ => .life
  | .io d .receive => .input d
  | .io d _ | .wrote d _ | .queued d _ | .emptied d => .io d
  | .sendBegin | .sendLocked | .sendEnd _ => .send
  | .statusFetch _ | .statusUse _ | .statusFree _ | .statusWoken _ => .status
  | .configure _ | .configured _ => .config

/-- kinds with accesses that leave no label -/
def Kind.silent : Kind → Bool
  | .quiet | .io _ | .dev | .seq | .life | .statusPtr | .setup => true
  | _ => false

/-- ports whose devices are those of `m` -/
abbrev Mem.SameDevices (m : Mem) : Type :=
  { p : Port → RPPortDevice // ∀ i, (p i).device = (m.gPortDevices i).device }

/-- ports whose devices are those of `m`, or cleared -/
abbrev Mem.ClearedDevices (m : Mem) : Type :=
  { p : Port → RPPortDevice // ∀ i, (p i).device = (m.gPortDevices i).device ∨ (p i).device = .zero }

def Kind.Touches : Kind → Mem → Mem → Prop
  | .quiet, m, m' => ∃ c s x y z, c.fgSendBuffer = m.com.fgSendBuffer ∧ m' =
      { m with com := c, fgLinkStats := s, fgVersionMajor := x, fgVersionMinor := y,
               fgVersionPatch := z }
  | .io _, m, m' => ∃ c, m' = { m with com := c }
  | .pend, m, m' | .finish, m, m' | .ack, m, m' | .reset, m, m' =>
    ∃ p : m.SameDevices, m' = { m with gPortDevices := p.val }
  | .dev, m, m' => ∃ i, ∃ dv : PupDevice → PupDevice, m' = m.setPort i fun d => { d with device := dv d.device }
  | .seq, m, m' => ∃ s, m' = { m with fgNextSequence := s }
  | .sess, m, m' => ∃ s, m' = { m with fgSessionId := s }
  | .v2, m, m' => ∃ b, m' = { m with fgUseProtocolV2 := b }
  | .prot, m, m' => ∃ c t, m' = { m with fgCapabilities := c, fgRuntimeTelemetry := t }
  | .receivers, m, m' => ∃ a, m' = { m with fgActiveReceivers := a }
  | .life, m, m' => ∃ d s h, m' =
      { m with fgDesc := d, fgStopCommunication := s, fgHandshakeComplete := h }
  | .status, m, m' => ∃ h, m' = { m with heap := h }
  | .statusPtr, m, m' => ∃ p, m' = { m with fgStatus := p }
  | .setup, m, m' => ∃ (p : m.ClearedDevices) (b : Bool) (s : Option Nat)
      (h : Nat → Option SpikeStatus) (n : Nat), m' =
      { m with gPortDevices := p.val, fgPortSynchronizationInitialized := b, fgStatus := s, heap := h,
               heapNext := n }
  | .input _, m, m' | .call, m, m' | .send, m, m' | .recv, m, m' | .hello, m, m' | .config, m, m' | .frame, m, m'
  | .gaveUp, m, m' => m' = m

/-- the globals that only accesses of one kind change -/
structure Kind.Rest (k : Kind) (m m' : Mem) : Prop where
  session : k ≠ .sess → m'.fgSessionId = m.fgSessionId
  v2 : k ≠ .v2 → m'.fgUseProtocolV2 = m.fgUseProtocolV2
  next : k ≠ .seq → m'.fgNextSequence = m.fgNextSequence
  desc : k ≠ .life → m'.fgDesc = m.fgDesc
  stop : k ≠ .life → m'.fgStopCommunication = m.fgStopCommunication
  handshake : k ≠ .life → m'.fgHandshakeComplete = m.fgHandshakeComplete
  active : k ≠ .receivers → m'.fgActiveReceivers = m.fgActiveReceivers
  sendBuffer : (∀ d, k ≠ .io d) → m'.com.fgSendBuffer = m.com.fgSendBuffer

theorem Kind.Touches.rest {k : Kind} {m m' : Mem} (h : k.Touches m m') : k.Rest m m' := by
  cases k with
  | quiet =>
    obtain ⟨c, s, x, y, z, hc, rfl⟩ := h
    exact ⟨fun _ => rfl, fun _ => rfl, fun _ => rfl, fun _ => rfl, fun _ => rfl, fun _ => rfl,
      fun _ => rfl, fun _ => hc⟩
  | io d =>
    obtain ⟨c, rfl⟩ := h
    exact ⟨fun _ => rfl, fun _ => rfl, fun _ => rfl, fun _ => rfl, fun _ => rfl, fun _ => rfl,
      fun _ => rfl, fun hd => (hd d rfl).elim⟩
  | pend | finish | ack | reset | status | statusPtr =>
    obtain ⟨x, rfl⟩ := h
    exact ⟨fun _ => rfl, fun _ => rfl, fun _ => rfl, fun _ => rfl, fun _ => rfl, fun _ => rfl,
      fun _ => rfl, fun _ => rfl⟩
  | dev =>
    obtain ⟨i, dv, rfl⟩ := h
    exact ⟨fun _ => rfl, fun _ => rfl, fun _ => rfl, fun _ => rfl, fun _ => rfl, fun _ => rfl,
      fun _ => rfl, fun _ => rfl⟩
  | seq =>
    obtain ⟨s, rfl⟩ := h
    exact ⟨fun _ => rfl, fun _ => rfl, fun hk => (hk rfl).elim, fun _ => rfl, fun _ => rfl,
      fun _ => rfl, fun _ => rfl, fun _ => rfl⟩
  | sess =>
    obtain ⟨s, rfl⟩ := h
    exact ⟨fun hk => (hk rfl).elim, fun _ => rfl, fun _ => rfl, fun _ => rfl, fun _ => rfl,
      fun _ => rfl, fun _ => rfl, fun _ => rfl⟩
  | v2 =>
    obtain ⟨b, rfl⟩ := h
    exact ⟨fun _ => rfl, fun hk => (hk rfl).elim, fun _ => rfl, fun _ => rfl, fun _ => rfl,
      fun _ => rfl, fun _ => rfl, fun _ => rfl⟩
  | prot =>
    obtain ⟨c, t, rfl⟩ := h
    exact ⟨fun _ => rfl, fun _ => rfl, fun _ => rfl, fun _ => rfl, fun _ => rfl, fun _ => rfl,
      fun _ => rfl, fun _ => rfl⟩
  | receivers =>
    obtain ⟨a, rfl⟩ := h
    exact ⟨fun _ => rfl, fun _ => rfl, fun _ => rfl, fun _ => rfl, fun _ => rfl, fun _ => rfl,
      fun hk => (hk rfl).elim, fun _ => rfl⟩
  | life =>
    obtain ⟨d, s, x, rfl⟩ := h
    exact ⟨fun _ => rfl, fun _ => rfl, fun _ => rfl, fun hk => (hk rfl).elim,
      fun hk => (hk rfl).elim, fun hk => (hk rfl).elim, fun _ => rfl, fun _ => rfl⟩
  | setup =>
    obtain ⟨p, b, s, x, n, rfl⟩ := h
    exact ⟨fun _ => rfl, fun _ => rfl, fun _ => rfl, fun _ => rfl, fun _ => rfl, fun _ => rfl,
      fun _ => rfl, fun _ => rfl⟩
  | input | call | send | recv | hello | config | frame | gaveUp =>
    cases h
    exact ⟨fun _ => rfl, fun _ => rfl, fun _ => rfl, fun _ => rfl, fun _ => rfl, fun _ => rfl,
      fun _ => rfl, fun _ => rfl⟩

/-- the bytes the device behind `d` has accepted -/
def Mem.wire (m : Mem) (d : Nat) : List Byte := (m.com.desc d).wire

/-- what an access puts on the wire of `d` -/
def writtenBy (x : Option Event) (d : Nat) : List Byte :=
  match x with
  | some (.wrote d' bs) => if d' = d then bs else []
  | _ => []

@[simp] theorem writtenBy_none (d : Nat) : writtenBy none d = [] := rfl

/-- an access of kind `k` with label `x` takes `m` to `m'` -/
structure Kind.Step (k : Kind) (m : Mem) (x : Option Event) (m' : Mem) : Prop where
  label : ∀ e, x = some e → e.kind = k
  silent : x = none → k.silent
  touches : k.Touches m m'
  wire : ∀ d, m'.wire d = m.wire d ++ writtenBy x d

/-- every execution of the access is of one of the kinds `ks` -/
def Acc (ks : Set Kind) (e : Mem → Option Event) (f : Mem → Mem) : Prop :=
  ∀ m, ∃ k ∈ ks, k.Step m (e m) (f m)

variable {ks : Set Kind} {ls : Set Mutex} {α β S : Type}

theorem Kind.Step.quiet {m m' : Mem} (h : Kind.quiet.Touches m m') (hw : ∀ d, m'.wire d = m.wire d) :
    Kind.quiet.Step m none m' :=
  ⟨fun _ h => (nomatch h), fun _ => rfl, h, fun d => by rw [hw, writtenBy_none, List.append_nil]⟩

/-- a labelled access outside the com layer -/
theorem Kind.Step.of_event {m m' : Mem} {e : Event} (h : e.kind.Touches m m')
    (hw : ∀ d, m'.wire d = m.wire d ++ writtenBy (some e) d) : e.kind.Step m (some e) m' :=
  ⟨fun _ h => by cases h; rfl, fun h => (nomatch h), h, hw⟩

theorem Kind.Step.of_none {k : Kind} {m m' : Mem} (hk : k.silent) (h : k.Touches m m')
    (hw : ∀ d, m'.wire d = m.wire d) : k.Step m none m' :=
  ⟨fun _ h => (nomatch h), fun _ => hk, h, fun d => by rw [hw, writtenBy_none, List.append_nil]⟩

/-- the accesses of `p` are of the kinds `ks`, its mutexes are among `ls` -/
def Does (ks : Set Kind) (ls : Set Mutex) (p : P α) : Prop := p.All (Acc ks) (· ∈ ls)

namespace Does

theorem bind {p : P α} {q : α → P β} (hp : Does ks ls p) (hq : ∀ a, Does ks ls (q a)) :
    Does ks ls (p >>= q) :=
  Prog.All.bind hp hq

theorem mono {ks' : Set Kind} {ls' : Set Mutex} {p : P α} (hp : Does ks ls p) (hk : ks ⊆ ks')
    (hl : ls ⊆ ls') : Does ks' ls' p := by
  refine Prog.All.mono (fun e f h m => ?_) (fun _ h => hl h) hp
  obtain ⟨k, hmem, hstep⟩ := h m
  exact ⟨k, hk hmem, hstep⟩

theorem pure (a : α) : Does ks ls (Pure.pure a : P α) := trivial

theorem act {e : Mem → Option Event} {f : Mem → α × Mem}
    (h : ∀ m, ∃ k ∈ ks, k.Step m (e m) (f m).2) : Does ks ls (.act e f .ret : P α) :=
  ⟨h, fun _ => trivial⟩

/-- an access that always leaves a label of one kind -/
theorem event {e : Mem → Event} {f : Mem → α × Mem} (k : Kind) (hk : k ∈ ks)
    (h : ∀ m, (e m).kind = k ∧ k.Touches m (f m).2 ∧
      ∀ d, (f m).2.wire d = m.wire d ++ writtenBy (some (e m)) d) :
    Does ks ls (.act (fun m => some (e m)) f .ret : P α) := by
  refine act fun m => ⟨k, hk, ?_⟩
  obtain ⟨h1, h2, h3⟩ := h m
  exact ⟨fun _ h => by cases h; exact h1, fun h => (nomatch h), h2, h3⟩

theorem load {f : Mem → α} (hq : Kind.quiet ∈ ks) : Does ks ls (load f : P α) :=
  act fun m => ⟨.quiet, hq, Kind.Step.quiet ⟨m.com, m.fgLinkStats, m.fgVersionMajor,
    m.fgVersionMinor, m.fgVersionPatch, rfl, rfl⟩ fun _ => rfl⟩

/-- a plain mark -/
theorem tick {e : Event} {k : Kind} (h : k ∈ ks) (he : e.kind = k) (ht : ∀ m, k.Touches m m)
    (hw : ∀ d, writtenBy (some e) d = []) : Does ks ls (tick e : P Unit) := by
  subst he
  exact act fun m => ⟨e.kind, h, Kind.Step.of_event (ht m) fun d => by rw [hw, List.append_nil]⟩

theorem modify {f : Mem → Mem} (k : Kind) (hk : k ∈ ks) (hs : k.silent)
    (h : ∀ m, k.Touches m (f m) ∧ ∀ d, (f m).wire d = m.wire d) : Does ks ls (modify f : P Unit) :=
  act fun m => ⟨k, hk, Kind.Step.of_none hs (h m).1 (h m).2⟩

theorem lock {l : Mutex} (h : l ∈ ls) : Does ks ls (lock l : P Unit) := ⟨h, trivial⟩
theorem unlock {l : Mutex} (h : l ∈ ls) : Does ks ls (unlock l : P Unit) := ⟨h, trivial⟩
theorem condWait {c : CondVar} {l : Mutex} (h : l ∈ ls) : Does ks ls (condWait c l : P Int) :=
  ⟨h, fun _ => trivial⟩
theorem broadcast {c : CondVar} : Does ks ls (broadcast c : P Unit) := trivial

theorem loopFrom {s : S} {body : S → P (S ⊕ β)} (h : ∀ s, Does ks ls (body s)) :
    Does ks ls (loopFrom s body) :=
  ⟨h, fun _ => trivial⟩

theorem forEach {ι : Type} {is : List ι} {body : ι → P Unit} (h : ∀ i, Does ks ls (body i)) :
    Does ks ls (forEach is body) :=
  Prog.All.forEach h

theorem orElse {x y : P Bool} (hx : Does ks ls x) (hy : Does ks ls y) :
    Does ks ls (orElse x y) := by
  refine hx.bind fun b => ?_
  cases b
  · exact hy
  · exact Does.pure true

end Does

/-- a property of programs that every program of the kinds `ks` has, and that sequences keep -/
structure Passes (F : ∀ α : Type, P α → Prop) (ks : Set Kind) (ls : Set Mutex) : Prop where
  pure : ∀ {α : Type} (a : α), F α (Pure.pure a)
  bind : ∀ {α β : Type} {p : P α} {q : α → P β}, F α p → (∀ a, F β (q a)) → F β (p >>= q)
  does : ∀ {α : Type} {p : P α}, Does ks ls p → F α p

theorem Passes.mono {F : ∀ α : Type, P α → Prop} {ks' : Set Kind} {ls' : Set Mutex} (hF : Passes F ks ls)
    (hk : ks' ⊆ ks) (hl : ls' ⊆ ls) : Passes F ks' ls' where
  pure := hF.pure
  bind := hF.bind
  does hp := hF.does (hp.mono hk hl)

theorem does_passes : Passes (fun _ p => Does ks ls p) ks ls := ⟨Does.pure, Does.bind, id⟩

@[simp] theorem setPort_self (m : Mem) (i : Port) (f : RPPortDevice → RPPortDevice) :
    (m.setPort i f).gPortDevices i = f (m.gPortDevices i) := Function.update_self ..
@[simp] theorem setPort_of_ne (m : Mem) {i j : Port} (f : RPPortDevice → RPPortDevice) (h : j ≠ i) :
    (m.setPort i f).gPortDevices j = m.gPortDevices j := Function.update_of_ne h _ _

/-! ## the com layer -/

theorem quiet_touches {m m' : Mem} {c : ComState} (h : m' = { m with com := c })
    (hb : c.fgSendBuffer = m.com.fgSendBuffer) : Kind.quiet.Touches m m' :=
  ⟨c, _, _, _, _, hb, h⟩

/-- a change of a descriptor that leaves its wire alone -/
theorem setDesc_wire {m : Mem} {d : Nat} {f : RPComDescriptor → RPComDescriptor}
    (h : (f (m.com.desc d)).wire = (m.com.desc d).wire) (d' : Nat) :
    (m.setDesc d f).wire d' = m.wire d' := by
  by_cases hd : d' = d
  · subst hd
    simpa [Mem.wire, Mem.setDesc] using h
  · simp [Mem.wire, Mem.setDesc, hd]

theorem quiet_setDesc {m : Mem} {d : Nat} {f : RPComDescriptor → RPComDescriptor}
    (h : (f (m.com.desc d)).wire = (m.com.desc d).wire) : Kind.quiet.Step m none (m.setDesc d f) :=
  Kind.Step.quiet (quiet_touches rfl rfl) (setDesc_wire h)

theorem quiet_self (m : Mem) : Kind.quiet.Step m none m :=
  Kind.Step.quiet (quiet_touches rfl rfl) fun _ => rfl

theorem clockLate_all (hq : Kind.quiet ∈ ks) (d : Nat) (dir : Dir) :
    Does ks ls (clockLate d dir) := by
  cases dir
  · refine Does.act fun m => ⟨.quiet, hq, ?_⟩
    split <;> dsimp only
    · exact quiet_setDesc rfl
    · exact quiet_self m
  · refine Does.act fun m => ⟨.quiet, hq, ?_⟩
    split <;> dsimp only
    · exact quiet_setDesc rfl
    · exact quiet_self m

theorem poll_all (hq : Kind.quiet ∈ ks) (d : Nat) (dir : Dir) : Does ks ls (poll d dir) := by
  cases dir
  · refine Does.act fun m => ⟨.quiet, hq, ?_⟩
    split <;> dsimp only
    · exact quiet_setDesc rfl
    · exact quiet_self m
    · exact quiet_self m
  · refine Does.act fun m => ⟨.quiet, hq, ?_⟩
    split <;> dsimp only
    · exact quiet_setDesc rfl
    · exact quiet_self m

theorem readFd_all (hq : Kind.quiet ∈ ks) (d n : Nat) : Does ks ls (readFd d n) := by
  refine Does.act fun m => ⟨.quiet, hq, ?_⟩
  split <;> dsimp only
  · exact quiet_setDesc rfl
  · exact quiet_setDesc rfl
  · exact quiet_self m

theorem setDesc_written {m : Mem} {d : Nat} {f : RPComDescriptor → RPComDescriptor}
    {bs : List Byte} (h : (f (m.com.desc d)).wire = (m.com.desc d).wire ++ bs) (d' : Nat) :
    (m.setDesc d f).wire d' = m.wire d' ++ writtenBy (some (.wrote d bs)) d' := by
  by_cases hd : d' = d
  · subst hd
    simpa [Mem.wire, Mem.setDesc, writtenBy] using h
  · simp [Mem.wire, Mem.setDesc, writtenBy, hd, Ne.symm hd]

theorem io_wrote {m : Mem} {d : Nat} {f : RPComDescriptor → RPComDescriptor} {bs : List Byte}
    (h : (f (m.com.desc d)).wire = (m.com.desc d).wire ++ bs) :
    (Kind.io d).Step m (some (.wrote d bs)) (m.setDesc d f) :=
  Kind.Step.of_event (e := .wrote d bs) ⟨_, rfl⟩ (setDesc_written h)

theorem writeFd_all (hq : Kind.quiet ∈ ks) {d : Nat} (hd : Kind.io d ∈ ks) (buf : List Byte) :
    Does ks ls (writeFd d buf) := by
  refine Does.act fun m => ?_
  split <;> dsimp only
  · exact ⟨.quiet, hq, quiet_setDesc rfl⟩
  · exact ⟨.io d, hd, io_wrote rfl⟩
  · exact ⟨.io d, hd, io_wrote rfl⟩

theorem tcflush_all (hq : Kind.quiet ∈ ks) (d : Nat) : Does ks ls (tcflush d) := by
  refine Does.act fun m => ⟨.quiet, hq, ?_⟩
  split <;> dsimp only
  · exact quiet_setDesc rfl
  · exact quiet_setDesc rfl
  · exact quiet_self m

theorem getUsbFd_all (hq : Kind.quiet ∈ ks) (d : Nat) : Does ks ls (getUsbFd d) := Does.load hq

theorem waitFd_all (hq : Kind.quiet ∈ ks) (d : Nat) (dir : Dir) : Does ks ls (waitFd d dir) := by
  refine Does.loopFrom fun _ => (poll_all hq d dir).bind fun p => ?_
  split <;> exact Does.pure _

theorem writeAllFd_all (hq : Kind.quiet ∈ ks) {d : Nat} (hd : Kind.io d ∈ ks) (buf : List Byte) :
    Does ks ls (writeAllFd d buf) := by
  refine Does.loopFrom fun rest => ?_
  split
  · exact Does.pure _
  refine (clockLate_all hq d .tx).bind fun late => ?_
  split
  · exact Does.pure _
  refine (waitFd_all hq d .tx).bind fun ready => ?_
  split
  · exact Does.pure _
  refine (writeFd_all hq hd rest).bind fun r => ?_
  split
  · exact Does.pure _
  · exact Does.pure _
  · split <;> exact Does.pure _

theorem readSomeFd_all (hq : Kind.quiet ∈ ks) (d n : Nat) : Does ks ls (readSomeFd d n) := by
  unfold readSomeFd
  split
  · exact Does.pure _
  refine (waitFd_all hq d .rx).bind fun ready => ?_
  split
  · exact Does.pure _
  refine Does.loopFrom fun _ => (readFd_all hq d n).bind fun r => ?_
  split
  · exact Does.pure _
  · exact Does.pure _
  · split
    · exact Does.pure _
    · split <;> exact Does.pure _

theorem bufferedWrite_all (hq : Kind.quiet ∈ ks) {d : Nat} (hd : Kind.io d ∈ ks) (hl : Mutex.comSend ∈ ls) (buf : List Byte) :
    Does ks ls (bufferedWrite d buf) := by
  unfold bufferedWrite
  split
  · exact Does.pure _
  refine (Does.lock hl).bind fun _ => (Does.load hq).bind fun size => ?_
  split
  · exact (Does.unlock hl).bind fun _ => Does.pure _
  refine (Does.event (.io d) hd ?_).bind fun _ => ?_
  · exact fun m => ⟨rfl, ⟨_, rfl⟩, fun _ => (List.append_nil _).symm⟩
  exact (Does.unlock hl).bind fun _ => Does.pure _

theorem flushBufferLocked_all (hq : Kind.quiet ∈ ks) {d : Nat} (hd : Kind.io d ∈ ks) :
    Does ks ls (flushBufferLocked d) := by
  refine (Does.load hq).bind fun buf => ?_
  split
  · exact Does.pure _
  refine (getUsbFd_all hq d).bind fun fd => ?_
  split
  · exact Does.pure _
  refine (writeAllFd_all hq hd buf).bind fun ret => ?_
  split
  · exact Does.pure _
  refine (Does.event (.io d) hd ?_).bind fun _ => ?_
  · exact fun m => ⟨rfl, ⟨_, rfl⟩, fun _ => (List.append_nil _).symm⟩
  exact Does.pure _

theorem raspikeUsbSetMode_all (hq : Kind.quiet ∈ ks) (hl : Mutex.comSend ∈ ls) (mode : UsbMode) :
    Does ks ls (raspikeUsbSetMode mode) := by
  refine (Does.lock hl).bind fun _ => ?_
  refine (Does.modify .quiet hq rfl ?_).bind fun _ => ?_
  · exact fun m => ⟨quiet_touches rfl rfl, fun _ => rfl⟩
  exact Does.unlock hl

theorem rpUsbSend_all (hq : Kind.quiet ∈ ks) {d : Nat} (hd : Kind.io d ∈ ks)
    (hl : Mutex.comSend ∈ ls) (buf : List Byte) : Does ks ls (rpUsbSend d buf) := by
  refine (Does.lock hl).bind fun _ => (Does.load hq).bind fun mode => ?_
  refine (Does.unlock hl).bind fun _ => ?_
  split
  · exact bufferedWrite_all hq hd hl buf
  refine (getUsbFd_all hq d).bind fun fd => ?_
  split
  · exact Does.pure _
  · exact writeAllFd_all hq hd buf

theorem rpUsbReceive_all (hq : Kind.quiet ∈ ks) (d n : Nat) : Does ks ls (rpUsbReceive d n) := by
  refine (getUsbFd_all hq d).bind fun fd => ?_
  split
  · exact Does.pure _
  · exact readSomeFd_all hq d n

theorem rpUsbClose_all (hq : Kind.quiet ∈ ks) (d : Nat) : Does ks ls (rpUsbClose d) := by
  refine (getUsbFd_all hq d).bind fun fd => ?_
  split
  · exact Does.pure _
  · exact Does.modify .quiet hq rfl fun m => ⟨quiet_touches rfl rfl, setDesc_wire rfl⟩

theorem rpUsbFlush_all (hq : Kind.quiet ∈ ks) {d : Nat} (hd : Kind.io d ∈ ks)
    (hl : Mutex.comSend ∈ ls) : Does ks ls (rpUsbFlush d) := by
  refine (Does.lock hl).bind fun _ => (flushBufferLocked_all hq hd).bind fun ret => ?_
  exact (Does.unlock hl).bind fun _ => Does.pure _

theorem raspikeComDiscardInput_all (hq : Kind.quiet ∈ ks) (desc : Option Nat) :
    Does ks ls (raspikeComDiscardInput desc) := by
  cases desc with
  | none => exact Does.pure _
  | some d =>
    refine (getUsbFd_all hq d).bind fun fd => ?_
    split
    · exact Does.pure _
    refine (tcflush_all hq d).bind fun r => ?_
    cases r <;> exact Does.pure _

theorem io_tick {d : Nat} (hd : Kind.io d ∈ ks) {k : Io} (hk : k ≠ .receive) :
    Does ks ls (tick (.io d k) : P Unit) := by
  refine Does.tick hd ?_ (fun m => ⟨m.com, rfl⟩) fun _ => rfl
  cases k with
  | receive => exact (hk rfl).elim
  | send | flush => rfl

theorem raspikeComSend_all (hq : Kind.quiet ∈ ks) {desc : Option Nat}
    (hd : ∀ d, desc = some d → Kind.io d ∈ ks) (hl : Mutex.comSend ∈ ls) (buf : List Byte) :
    Does ks ls (raspikeComSend desc buf) := by
  cases desc with
  | none => exact Does.pure _
  | some d => exact (io_tick (hd d rfl) (k := .send buf) nofun).bind fun _ => rpUsbSend_all hq (hd d rfl) hl buf

theorem raspikeComReceiveTimeout_all (hq : Kind.quiet ∈ ks) {desc : Option Nat}
    (hd : ∀ d, desc = some d → Kind.input d ∈ ks) (size : Nat) :
    Does ks ls (raspikeComReceiveTimeout desc size) := by
  cases desc with
  | none => exact Does.pure _
  | some d =>
    unfold raspikeComReceiveTimeout
    dsimp only
    split
    · exact Does.pure _
    refine (Does.tick (hd d rfl) rfl (fun _ => rfl) fun _ => rfl).bind fun _ => Does.loopFrom fun received => ?_
    split
    · exact Does.pure _
    refine (clockLate_all hq d .rx).bind fun late => ?_
    split
    · exact Does.pure _
    refine (rpUsbReceive_all hq d _).bind fun r => ?_
    cases r with
    | ok bs => exact Does.pure _
    | error e =>
      dsimp only
      split <;> exact Does.pure _

theorem raspikeComFlush_all (hq : Kind.quiet ∈ ks) {desc : Option Nat}
    (hd : ∀ d, desc = some d → Kind.io d ∈ ks) (hl : Mutex.comSend ∈ ls) :
    Does ks ls (raspikeComFlush desc) := by
  cases desc with
  | none => exact Does.pure _
  | some d => exact (io_tick (hd d rfl) (k := .flush) nofun).bind fun _ => rpUsbFlush_all hq (hd d rfl) hl

/-! ## how much is read -/

theorem readFd_yields (d n : Nat) :
    (readFd d n).Yields fun r => ∀ bs, r = .ok bs → bs.length ≤ n := by
  intro m
  show ∀ bs, _ = _ → _
  intro bs hbs
  dsimp only at hbs
  split at hbs
  · cases hbs
  · cases hbs
    exact List.length_take_le _ _
  · cases hbs

theorem rpUsbReceive_yields (d n : Nat) :
    (rpUsbReceive d n).Yields fun r => ∀ bs, r = .ok bs → bs.length ≤ n := by
  refine Prog.Yields.bind Prog.Yields.trivial fun fd _ => ?_
  split
  · exact nofun
  unfold readSomeFd
  split
  · exact nofun
  refine Prog.Yields.bind Prog.Yields.trivial fun ready _ => ?_
  split
  · exact nofun
  refine ⟨fun _ => True, trivial, fun _ _ => (readFd_yields d n).bind fun r hr => ?_⟩
  split
  · exact nofun
  · intro bs hbs
    cases hbs
    exact hr _ rfl
  · split
    · trivial
    · split <;> exact nofun

theorem raspikeComReceiveTimeout_yields (desc : Option Nat) (size : Nat) :
    (raspikeComReceiveTimeout desc size).Yields fun r => ∀ bs, r = .ok bs → bs.length = size := by
  cases desc with
  | none => exact nofun
  | some d =>
    unfold raspikeComReceiveTimeout
    dsimp only
    split
    case isTrue h =>
      intro bs hbs
      cases hbs
      exact h.symm
    refine Prog.Yields.bind Prog.Yields.trivial fun _ _ => ?_
    refine ⟨fun received => received.length ≤ size, Nat.zero_le _, fun received hle => ?_⟩
    dsimp only at hle ⊢
    split
    case isTrue h =>
      intro bs hbs
      cases hbs
      omega
    refine Prog.Yields.bind Prog.Yields.trivial fun late _ => ?_
    split
    · exact nofun
    refine (rpUsbReceive_yields d _).bind fun r hr => ?_
    cases r with
    | ok bs =>
      have := hr bs rfl
      show (received ++ bs).length ≤ size
      rw [List.length_append]
      omega
    | error e =>
      dsimp only
      split
      · exact hle
      · exact nofun

/-! ## sending and requests -/

theorem statsIncrement_all (hq : Kind.quiet ∈ ks) (hl : Mutex.fgLinkStats ∈ ls) (s : Stat) :
    Does ks ls (statsIncrement s) := by
  refine (Does.lock hl).bind fun _ => (Does.modify .quiet hq rfl ?_).bind fun _ => Does.unlock hl
  exact fun m => ⟨⟨m.com, _, _, _, _, rfl, rfl⟩, fun _ => rfl⟩

/-- a labelled access outside the com layer -/
theorem Does.labelled {e : Mem → Event} {f : Mem → α × Mem} (k : Kind) (hk : k ∈ ks)
    (he : ∀ m, (e m).kind = k) (hf : ∀ m, k.Touches m (f m).2) (hc : ∀ m, (f m).2.com = m.com)
    (hw : ∀ m d, writtenBy (some (e m)) d = []) :
    Does ks ls (.act (fun m => some (e m)) f .ret : P α) := by
  refine Does.event k hk fun m => ⟨he m, hf m, fun d => ?_⟩
  rw [hw m d, List.append_nil, Mem.wire, Mem.wire, hc m]

/-- a labelled change of a port that leaves its device alone -/
theorem Does.onPort {e : Event} {i : Port} {f : RPPortDevice → RPPortDevice} (k : Kind) (hk : k ∈ ks)
    (he : e.kind = k) (hf : ∀ d, (f d).device = d.device)
    (ht : ∀ m, (∃ p : m.SameDevices, m.setPort i f = { m with gPortDevices := p.val }) →
      k.Touches m (m.setPort i f)) (hw : ∀ d, writtenBy (some e) d = []) :
    Does ks ls (.act (fun _ => some e) (fun m => ((), m.setPort i f)) .ret : P Unit) := by
  refine Does.labelled k hk (fun _ => he) (fun m => ht m ⟨⟨(m.setPort i f).gPortDevices, fun j => ?_⟩, rfl⟩)
    (fun _ => rfl) fun _ => hw
  by_cases hj : j = i
  · subst hj
    exact (congrArg RPPortDevice.device (Function.update_self ..)).trans (hf _)
  · exact congrArg RPPortDevice.device (Function.update_of_ne hj ..)

theorem cancelPort_all (hq : Kind.quiet ∈ ks) (hs : Kind.reset ∈ ks) (error : Int) (i : Port) :
    Does ks ls (cancelPort error i) := by
  refine (Does.load hq).bind fun session => Does.bind ?_ fun _ => Does.broadcast
  exact Does.onPort .reset hs rfl (fun _ => rfl) (fun _ h => h) fun _ => rfl

theorem clearPort_all (hs : Kind.reset ∈ ks) (i : Port) : Does ks ls (clearPort i) :=
  Does.onPort .reset hs rfl (fun _ => rfl) (fun _ h => h) fun _ => rfl

theorem resetSlot_all (hq : Kind.quiet ∈ ks) (hs : Kind.reset ∈ ks) {i : Port}
    (hl : Mutex.port i ∈ ls) (error : Int) : Does ks ls (resetSlot error i) := by
  refine (Does.lock hl).bind fun _ => (Does.load hq).bind fun canceled => ?_
  refine Does.bind ?_ fun _ => Does.unlock hl
  split
  · exact cancelPort_all hq hs error i
  · exact clearPort_all hs i

theorem resetDevice_all (hd : Kind.dev ∈ ks) {i : Port} (hl : Mutex.device i ∈ ls) :
    Does ks ls (resetDevice i) := by
  refine (Does.lock hl).bind fun _ => Does.bind ?_ fun _ => Does.unlock hl
  exact Does.labelled .dev hd (fun _ => rfl) (fun _ => ⟨i, fun _ => .zero, rfl⟩) (fun _ => rfl)
    fun _ _ => rfl

theorem resetPortState_all (hq : Kind.quiet ∈ ks) (hs : Kind.reset ∈ ks)
    (hl : ∀ i, Mutex.port i ∈ ls) (error : Int) (clearDevices : Bool) (hd : clearDevices → Kind.dev ∈ ks)
    (hdev : clearDevices → ∀ i, Mutex.device i ∈ ls) :
    Does ks ls (resetPortState error clearDevices) := by
  refine Does.forEach fun i => (resetSlot_all hq hs (hl i) error).bind fun _ => ?_
  split
  case isTrue h => exact resetDevice_all (hd h) (hdev h i)
  case isFalse => exact Does.pure _

theorem nextSequence_all (hq : Kind.quiet ∈ ks) (hs : Kind.seq ∈ ks) (hl : Mutex.fgSequence ∈ ls) :
    Does ks ls nextSequence := by
  refine (Does.lock hl).bind fun _ => Does.bind ?_ fun sequence => (Does.load hq).bind fun next => ?_
  · exact Does.labelled .seq hs (fun _ => rfl) (fun _ => ⟨_, rfl⟩) (fun _ => rfl) fun _ _ => rfl
  refine Does.bind ?_ fun _ => (Does.unlock hl).bind fun _ => Does.pure _
  split
  · exact Does.modify .seq hs rfl fun m => ⟨⟨_, rfl⟩, fun _ => rfl⟩
  · exact Does.pure _

section
variable (hq : Kind.quiet ∈ ks) (hio : ∀ d, Kind.io d ∈ ks) (hf : Kind.frame ∈ ks)
include hq hio

theorem sendLegacyFrame_all (hl : Mutex.comSend ∈ ls) (port cmd : Byte) (payload : Buf)
    (size : Int) : Does ks ls (sendLegacyFrame port cmd payload size) := by
  unfold sendLegacyFrame
  split
  · exact Does.pure _
  exact (Does.load hq).bind fun desc => raspikeComSend_all hq (fun d _ => hio d) hl _

include hf

theorem sendV2Frame_all (hl : Mutex.comSend ∈ ls) (port cmd : Byte)
    (payload : Buf) (size : Int) (sequence : U32) (flags : Byte) :
    Does ks ls (sendV2Frame port cmd payload size sequence flags) := by
  unfold sendV2Frame
  split
  · exact Does.pure _
  refine Does.bind ?_ fun session => (Does.load hq).bind fun desc =>
    raspikeComSend_all hq (fun d _ => hio d) hl _
  exact Does.labelled .frame hf (fun _ => rfl) (fun _ => rfl) (fun _ => rfl) fun _ _ => rfl

theorem sendFrameLocked_all (hl : Mutex.comSend ∈ ls) (port cmd : Byte) (payload : Buf)
    (size : Int) (sequence : U32) (flags : Byte) (flushNow : Bool) :
    Does ks ls (sendFrameLocked port cmd payload size sequence flags flushNow) := by
  refine (Does.load hq).bind fun v2 => Does.bind ?_ fun ret => ?_
  · split
    · exact sendV2Frame_all hq hio hf hl port cmd payload size sequence flags
    · exact sendLegacyFrame_all hq hio hl port cmd payload size
  split
  · refine (Does.load hq).bind fun desc => Does.bind ?_ fun _ => Does.pure _
    exact raspikeComFlush_all hq (fun d _ => hio d) hl
  · exact Does.pure _

theorem sendFrame_all (hs : Kind.send ∈ ks) (hl : Mutex.fgSend ∈ ls) (hc : Mutex.comSend ∈ ls)
    (ht : Mutex.fgLinkStats ∈ ls) (port cmd : Byte) (payload : Buf) (size : Int) (sequence : U32)
    (flags : Byte) (flushNow : Bool) :
    Does ks ls (sendFrame port cmd payload size sequence flags flushNow) := by
  refine (Does.tick hs rfl (fun _ => rfl) fun _ => rfl).bind fun _ => (Does.lock hl).bind fun _ => ?_
  refine (Does.tick hs rfl (fun _ => rfl) fun _ => rfl).bind fun _ => ?_
  refine (Does.orElse (Does.load hq) (Does.load hq)).bind fun down => ?_
  split
  · refine (Does.unlock hl).bind fun _ => ?_
    exact (Does.tick hs rfl (fun _ => rfl) fun _ => rfl).bind fun _ => Does.pure _
  refine (sendFrameLocked_all hq hio hf hc _ _ _ _ _ _ _).bind fun ret => ?_
  refine (Does.unlock hl).bind fun _ => Does.bind ?_ fun _ => ?_
  · split
    · exact statsIncrement_all hq ht _
    · exact Does.pure _
  · exact (Does.tick hs rfl (fun _ => rfl) fun _ => rfl).bind fun _ => Does.pure _

end

theorem requestSleep_all (hq : Kind.quiet ∈ ks) {i : Port} (hl : Mutex.port i ∈ ls)
    (result : Int) : Does ks ls (requestSleep i result) := by
  refine Does.loopFrom fun result => (Does.load hq).bind fun pending => ?_
  split
  · exact Does.pure _
  refine (Does.condWait hl).bind fun waitResult => ?_
  split
  · exact Does.pure _
  split <;> exact Does.pure _

theorem requestWait_all (hq : Kind.quiet ∈ ks) (hg : Kind.gaveUp ∈ ks) {i : Port}
    (hl : Mutex.port i ∈ ls) (sequence : U32) (last : Bool) (result : Int) :
    Does ks ls (requestWait i sequence last result) := by
  refine (Does.lock hl).bind fun _ => (requestSleep_all hq hl result).bind fun result => ?_
  refine (Does.load hq).bind fun pending => ?_
  split
  · exact (Does.unlock hl).bind fun _ => Does.pure _
  refine Does.bind ?_ fun _ => (Does.unlock hl).bind fun _ => Does.pure _
  split
  · exact Does.tick hg rfl (fun _ => rfl) fun _ => rfl
  · exact Does.pure _

theorem ackIsCurrent_all (hq : Kind.quiet ∈ ks) (d : RPPortDevice) (sequence : U32) :
    Does ks ls (ackIsCurrent d sequence) := by
  refine Does.orElse (Does.load hq) ?_
  split
  · exact Does.load hq
  · exact Does.pure _

theorem requestOutcome_all (hq : Kind.quiet ∈ ks) (ht : Mutex.fgLinkStats ∈ ls) (cmd : Byte)
    (sequence : U32) (result : Int) (completed : Bool) (d : RPPortDevice) :
    Does ks ls (requestOutcome cmd sequence result completed d) := by
  unfold requestOutcome
  split
  · exact Does.pure _
  refine Does.bind ?_ fun acked => ?_
  · split
    · exact ackIsCurrent_all hq d sequence
    · exact Does.pure _
  split
  · exact Does.pure _
  split
  · exact (statsIncrement_all hq ht _).bind fun _ => Does.pure _
  · exact Does.pure _

theorem requestFinish_all (hq : Kind.quiet ∈ ks) (hs : Kind.finish ∈ ks) {i : Port}
    (hl : Mutex.port i ∈ ls) (hr : Mutex.request i ∈ ls) (ht : Mutex.fgLinkStats ∈ ls) (cmd : Byte)
    (sequence : U32) (result : Int) (completed : Bool) :
    Does ks ls (requestFinish i cmd sequence result completed) := by
  refine (Does.lock hl).bind fun _ => (Does.load hq).bind fun d => ?_
  refine (requestOutcome_all hq ht cmd sequence result completed d).bind fun outcome => ?_
  refine Does.bind ?_ fun _ => (Does.unlock hl).bind fun _ => (Does.unlock hr).bind fun _ => Does.pure _
  exact Does.onPort .finish hs rfl (fun _ => rfl) (fun _ h => h) fun _ => rfl

theorem requestBegin_all (hq : Kind.quiet ∈ ks) (hs : Kind.pend ∈ ks) (hseq : Kind.seq ∈ ks)
    {i : Port} (hl : Mutex.port i ∈ ls) (hm : Mutex.fgSequence ∈ ls) (cmd : Byte) :
    Does ks ls (requestBegin i cmd) := by
  refine (nextSequence_all hq hseq hm).bind fun sequence => (Does.lock hl).bind fun _ => ?_
  refine Does.bind ?_ fun _ => (Does.unlock hl).bind fun _ => Does.pure _
  exact Does.onPort .pend hs rfl (fun _ => rfl) (fun _ h => h) fun _ => rfl

theorem requestAttempts_all {ks : Set Kind} {ls : Set Mutex} (hq : Kind.quiet ∈ ks)
    (hio : ∀ d, Kind.io d ∈ ks) (hf : Kind.frame ∈ ks) (hs : Kind.send ∈ ks)
    (hg : Kind.gaveUp ∈ ks) {i : Port} (hp : Mutex.port i ∈ ls) (hl : Mutex.fgSend ∈ ls)
    (hc : Mutex.comSend ∈ ls) (ht : Mutex.fgLinkStats ∈ ls) (port cmd : Byte) (data : Buf)
    (size : Int) (sequence : U32) (n : Nat) (result : Int) :
    Does ks ls (requestAttempts i port cmd data size sequence n result) := by
  induction n generalizing result with
  | zero => exact Does.pure _
  | succ n ih =>
    refine (Does.lock hp).bind fun _ => (Does.load hq).bind fun stillPending => ?_
    refine (Does.unlock hp).bind fun _ => ?_
    split
    · exact Does.pure _
    refine (sendFrame_all hq hio hf hs hl hc ht _ _ _ _ _ _ _).bind fun sent => ?_
    split
    · exact (Does.tick hg rfl (fun _ => rfl) fun _ => rfl).bind fun _ => Does.pure _
    refine (requestWait_all hq hg hp _ _ _).bind fun waited => ?_
    split
    · exact Does.pure _
    refine Does.bind ?_ fun _ => ih _
    split
    · exact statsIncrement_all hq ht _
    · exact Does.pure _

/-- the kinds of a send or a request -/
def requestKinds : Set Kind
  | .quiet | .io _ | .send | .frame | .gaveUp | .pend | .finish | .seq => True
  | _ => False

def requestMutexes : Set Mutex
  | .request _ | .port _ | .fgSend | .comSend | .fgLinkStats | .fgSequence => True
  | _ => False

section
variable (hk : requestKinds ⊆ ks) (hl : requestMutexes ⊆ ls)
include hk hl

theorem raspikeProtSend_all (port cmdid : Byte) (buf : Buf) (size : Int) :
    Does ks ls (raspikeProtSend port cmdid buf size) := by
  have hq : Kind.quiet ∈ ks := hk trivial
  refine (nextSequence_all hq (hk trivial) (hl trivial)).bind fun sequence => ?_
  exact sendFrame_all hq (fun d => hk trivial) (hk trivial) (hk trivial) (hl trivial) (hl trivial)
    (hl trivial) _ _ _ _ _ _ _

theorem raspikeProtSendPriority_all (port cmdid : Byte) (buf : Buf) (size : Int) :
    Does ks ls (raspikeProtSendPriority port cmdid buf size) := by
  have hq : Kind.quiet ∈ ks := hk trivial
  refine (nextSequence_all hq (hk trivial) (hl trivial)).bind fun sequence => ?_
  exact sendFrame_all hq (fun d => hk trivial) (hk trivial) (hk trivial) (hl trivial) (hl trivial)
    (hl trivial) _ _ _ _ _ _ _

theorem raspikeRequest_all (port cmd : Byte) (data : Buf) (size : Int) :
    Does ks ls (raspikeRequest port cmd data size) := by
  have hq : Kind.quiet ∈ ks := hk trivial
  unfold raspikeRequest
  split
  · exact Does.pure _
  split
  · exact Does.pure _
  case h_2 i _ =>
    have hreq : Mutex.request i ∈ ls := hl trivial
    refine (Does.lock hreq).bind fun _ => ?_
    refine (requestBegin_all hq (hk trivial) (hk trivial) (hl trivial) (hl trivial) cmd).bind
      fun sequence => ?_
    refine (Does.load hq).bind fun v2 => ?_
    refine (requestAttempts_all hq (fun d => hk trivial) (hk trivial) (hk trivial) (hk trivial)
      (hl trivial) (hl trivial) (hl trivial) (hl trivial) _ _ _ _ _ _ _).bind fun waited => ?_
    exact requestFinish_all hq (hk trivial) (hl trivial) (hl trivial) (hl trivial) _ _ _ _

end

/-! ## the receiver -/

theorem setSession_all (hs : Kind.sess ∈ ks) (session : U32) : Does ks ls (setSession session) :=
  Does.labelled .sess hs (fun _ => rfl) (fun _ => ⟨_, rfl⟩) (fun _ => rfl) fun _ _ => rfl

theorem setUseV2_all (hs : Kind.v2 ∈ ks) (b : Bool) : Does ks ls (setUseV2 b) :=
  Does.labelled .v2 hs (fun _ => rfl) (fun _ => ⟨_, rfl⟩) (fun _ => rfl) fun _ _ => rfl

theorem setCapabilities_all (hp : Kind.prot ∈ ks) (c : Byte) : Does ks ls (setCapabilities c) :=
  Does.labelled .prot hp (fun _ => rfl) (fun _ => ⟨_, _, rfl⟩) (fun _ => rfl) fun _ _ => rfl

theorem setRuntimeTelemetry_all (hp : Kind.prot ∈ ks) (t : List Byte) :
    Does ks ls (setRuntimeTelemetry t) :=
  Does.labelled .prot hp (fun _ => rfl) (fun _ => ⟨_, _, rfl⟩) (fun _ => rfl) fun _ _ => rfl

theorem statusFetch_all (hs : Kind.status ∈ ks) {f : Mem → α} :
    Does ks ls (.act (fun m => some (.statusFetch m.fgStatus)) (fun m => (f m, m)) .ret : P α) :=
  Does.labelled .status hs (fun _ => rfl) (fun m => ⟨m.heap, rfl⟩) (fun _ => rfl)
    fun _ _ => rfl

theorem statusUse_all (hs : Kind.status ∈ ks) {p : Option Nat} {f : Mem → α} :
    Does ks ls (.act (fun _ => some (.statusUse p)) (fun m => (f m, m)) .ret : P α) :=
  Does.labelled .status hs (fun _ => rfl) (fun m => ⟨m.heap, rfl⟩) (fun _ => rfl)
    fun _ _ => rfl

/-- a write to a record through a pointer -/
theorem statusWrite_all (hs : Kind.status ∈ ks) (p : Option Nat) (f : Mem → SpikeStatus → SpikeStatus) :
    Does ks ls (.act (fun _ => some (.statusUse p)) (fun m => ((), match p with
      | none => m
      | some p => { m with heap := Function.update m.heap p ((m.heap p).map (f m)) })) .ret : P Unit) := by
  cases p with
  | none =>
    exact Does.labelled .status hs (fun _ => rfl) (fun m => ⟨m.heap, rfl⟩)
      (fun _ => rfl) fun _ _ => rfl
  | some p =>
    exact Does.labelled .status hs (fun _ => rfl) (fun m => ⟨_, rfl⟩)
      (fun _ => rfl) fun _ _ => rfl

theorem writeStatus_all (hq : Kind.quiet ∈ ks) (hs : Kind.status ∈ ks)
    (f : SpikeStatus → SpikeStatus) : Does ks ls (writeStatus f) :=
  (Does.load hq).bind fun status => statusWrite_all hs status fun _ => f

theorem freeStatus_all (hs : Kind.status ∈ ks) : Does ks ls freeStatus := by
  refine Does.labelled .status hs (fun _ => rfl) (fun m => ?_) (fun m => ?_) fun _ _ => rfl
  · dsimp only
    split
    · exact ⟨m.heap, rfl⟩
    · exact ⟨_, rfl⟩
  · dsimp only
    split <;> rfl

theorem clearSavedStatus_all (hq : Kind.quiet ∈ ks) (hs : Kind.status ∈ ks)
    (hl : Mutex.fgStatus ∈ ls) : Does ks ls clearSavedStatus := by
  refine (statusFetch_all hs).bind fun present => ?_
  split
  · refine (Does.lock hl).bind fun _ => (writeStatus_all hq hs _).bind fun _ => ?_
    exact Does.broadcast.bind fun _ => Does.unlock hl
  · exact Does.pure _

theorem clearRuntimeTelemetry_all (hp : Kind.prot ∈ ks) (hl : Mutex.fgRuntimeTelemetry ∈ ls) :
    Does ks ls clearRuntimeTelemetry :=
  (Does.lock hl).bind fun _ => (setRuntimeTelemetry_all hp _).bind fun _ => Does.unlock hl

theorem ackMatches_all (hq : Kind.quiet ∈ ks) (d : RPPortDevice) (sequence session : U32)
    (ackCmd : Int) : Does ks ls (ackMatches d sequence session ackCmd) := by
  unfold ackMatches
  split
  · refine Does.orElse (Does.load hq) ?_
    split
    · exact Does.load hq
    · exact Does.pure _
  · exact Does.pure _

theorem acceptAck_all (hs : Kind.ack ∈ ks) (i : Port) (sequence session : U32)
    (ackCmd ackData : Int) : Does ks ls (acceptAck i sequence session ackCmd ackData) := by
  refine Does.bind ?_ fun _ => Does.broadcast
  exact Does.onPort .ack hs rfl (fun _ => rfl) (fun _ h => h) fun _ => rfl

theorem processAck_all (hq : Kind.quiet ∈ ks) (hs : Kind.ack ∈ ks) {i : Port}
    (hl : Mutex.port i ∈ ls) (ht : Mutex.fgLinkStats ∈ ls) (sequence session : U32)
    (buf : List Byte) : Does ks ls (processAck i sequence session buf) := by
  refine (Does.lock hl).bind fun _ => (Does.load hq).bind fun d => ?_
  refine (ackMatches_all hq d sequence session _).bind fun isCurrent => ?_
  refine Does.bind ?_ fun _ => (Does.unlock hl).bind fun _ => Does.pure _
  split
  · exact acceptAck_all hs i _ _ _ _
  · exact statsIncrement_all hq ht _

theorem updateStatus_all (hq : Kind.quiet ∈ ks) (hs : Kind.status ∈ ks) (hl : Mutex.fgStatus ∈ ls)
    (f : SpikeStatus → SpikeStatus) : Does ks ls (updateStatus f) := by
  refine (Does.lock hl).bind fun _ => (writeStatus_all hq hs f).bind fun _ => ?_
  exact Does.broadcast.bind fun _ => (Does.unlock hl).bind fun _ => Does.pure _

/-- the kinds of `process_command` -/
def commandKinds : Set Kind := {.quiet, .recv, .hello, .sess, .prot, .ack, .reset, .status}

/-- the kinds of `process_hello_payload` -/
def helloKinds : Set Kind := {.quiet, .hello, .sess, .prot, .reset, .status}

theorem helloKinds_command : helloKinds ⊆ commandKinds := by
  intro k hk
  simp only [helloKinds, Set.mem_insert_iff, Set.mem_singleton_iff] at hk
  rcases hk with rfl | rfl | rfl | rfl | rfl | rfl <;> simp [commandKinds]

/-- the mutexes of `process_command` -/
def commandMutexes : Set Mutex :=
  {l | (∃ i, l = .port i) ∨ l = .fgStatus ∨ l = .fgRuntimeTelemetry ∨ l = .fgLinkStats}

theorem processHelloPayload_all (hk : helloKinds ⊆ ks) (hl : commandMutexes ⊆ ls)
    (buf : List Byte) : Does ks ls (processHelloPayload buf) := by
  have hq : Kind.quiet ∈ ks := hk (by simp [helloKinds])
  have hp : Kind.prot ∈ ks := hk (by simp [helloKinds])
  unfold processHelloPayload
  split
  · exact Does.pure _
  refine (Does.load hq).bind fun old => ?_
  split
  · exact Does.pure _
  refine (setSession_all (hk (by simp [helloKinds])) _).bind fun _ => ?_
  refine (setCapabilities_all hp _).bind fun _ => Does.bind ?_ fun _ => Does.bind ?_ fun _ => ?_
  · exact resetPortState_all hq (hk (by simp [helloKinds])) (fun i => hl (.inl ⟨i, rfl⟩))
      _ false nofun nofun
  · exact Does.tick (k := .hello) (hk (by simp [helloKinds])) rfl (fun _ => rfl) fun _ => rfl
  refine (clearSavedStatus_all hq (hk (by simp [helloKinds])) (hl (.inr (.inl rfl)))).bind
    fun _ => ?_
  exact clearRuntimeTelemetry_all hp (hl (.inr (.inr (.inl rfl))))

/-- the kinds of `process_command` around the functions it calls -/
def dispatchKinds : Set Kind := {.quiet, .prot}

theorem command_does (hr : Kind.recv ∈ ks) (port cmd flags : Byte) (sequence session : U32) (buf : List Byte) :
    Does ks ls (tick (.command port cmd flags sequence session buf)) :=
  Does.tick (k := .recv) hr rfl (fun _ => rfl) fun _ => rfl

/-- a frame is handled around what it does to the ports and the saved status -/
theorem processCommand_passes {F : ∀ α : Type, P α → Prop}
    (hF : Passes F dispatchKinds {.fgLinkStats, .fgRuntimeTelemetry})
    (hcalled : ∀ port cmd flags sequence session buf, F Unit (tick (.command port cmd flags sequence session buf)))
    (hhello : ∀ buf, F Unit (processHelloPayload buf)) (hupdate : ∀ f, F Int (updateStatus f))
    (hack : ∀ i s session buf, F Int (processAck i s session buf))
    (port cmd flags : Byte) (sequence session : U32) (buf : List Byte) :
    F Int (processCommand port cmd flags sequence session buf) := by
  have hq : Kind.quiet ∈ dispatchKinds := by simp [dispatchKinds]
  have hp : Kind.prot ∈ dispatchKinds := by simp [dispatchKinds]
  have hrt : Mutex.fgRuntimeTelemetry ∈ ({.fgLinkStats, .fgRuntimeTelemetry} : Set Mutex) := .inr rfl
  have hcounted : ∀ (s : Stat) (r : Int), F Int (do
      statsIncrement s
      return r) := fun s r => hF.bind (hF.does (statsIncrement_all hq (.inl rfl) s)) fun _ => hF.pure r
  refine hF.bind (hcalled port cmd flags sequence session buf) fun _ => ?_
  split
  · exact hF.bind (hhello buf) fun _ => hF.pure _
  split
  · exact hcounted _ _
  refine hF.bind (hF.does ?_) fun stale => ?_
  · refine (Does.load hq).bind fun v2 => ?_
    split
    · exact Does.load hq
    · exact Does.pure _
  split
  · exact hcounted _ _
  split
  · split
    · exact hF.pure _
    · exact hupdate _
  split
  · split
    · exact hF.pure _
    refine hF.bind (hF.does (Does.lock hrt)) fun _ => hF.bind (hF.does ?_) fun _ =>
      hF.bind (hF.does (Does.unlock hrt)) fun _ => hF.pure _
    exact setRuntimeTelemetry_all hp buf
  split
  · split
    · exact hF.pure _
    · exact hupdate _
  split
  · split
    · exact hF.pure _
    split
    · exact hF.pure _
    · exact hack _ _ _ _
  split <;> exact hF.pure _

theorem processCommand_all (hk : commandKinds ⊆ ks) (hl : commandMutexes ⊆ ls)
    (port cmd flags : Byte) (sequence session : U32) (buf : List Byte) :
    Does ks ls (processCommand port cmd flags sequence session buf) := by
  have hq : Kind.quiet ∈ ks := hk (by simp [commandKinds])
  have hs : Kind.status ∈ ks := hk (by simp [commandKinds])
  have hack : Kind.ack ∈ ks := hk (by simp [commandKinds])
  have ht : Mutex.fgLinkStats ∈ ls := hl (.inr (.inr (.inr rfl)))
  have hF : Passes (fun _ p => Does ks ls p) dispatchKinds {.fgLinkStats, .fgRuntimeTelemetry} := by
    refine does_passes.mono (fun k hmem => hk ?_) ?_
    · rcases hmem with rfl | rfl <;> simp [commandKinds]
    · exact Set.insert_subset ht (Set.singleton_subset_iff.mpr (hl (.inr (.inr (.inl rfl)))))
  exact processCommand_passes hF (command_does (hk (by simp [commandKinds])))
    (processHelloPayload_all (helloKinds_command.trans hk) hl)
    (fun f => updateStatus_all hq hs (hl (.inr (.inl rfl))) f)
    (fun i s session buf => processAck_all hq hack (hl (.inl ⟨i, rfl⟩)) ht s session buf) _ _ _ _ _ _

/-! ## reading a frame -/

theorem discardReceiveBytes_all (hq : Kind.quiet ∈ ks) (hio : ∀ d, Kind.input d ∈ ks) (size : Nat) :
    Does ks ls (discardReceiveBytes size) := by
  refine Does.loopFrom fun size => ?_
  split
  · exact Does.pure _
  refine (Does.load hq).bind fun desc => ?_
  refine (raspikeComReceiveTimeout_all hq (fun d _ => hio d) _).bind fun r => ?_
  cases r <;> exact Does.pure _

/-- the kinds of what a receiver does around `process_command` -/
def readKinds : Set Kind
  | .quiet | .input _ | .recv => True
  | _ => False

theorem read_quiet : Kind.quiet ∈ readKinds := trivial
theorem read_input (d : Nat) : Kind.input d ∈ readKinds := trivial

section
variable {F : ∀ α : Type, P α → Prop} (hF : Passes F readKinds {.fgLinkStats})
variable (hcommand : ∀ port cmd flags sequence session buf,
  F Int (processCommand port cmd flags sequence session buf))
include hF

theorem read_load (f : Mem → α) : F α (load f) := hF.does (Does.load read_quiet)

theorem read_bytes (desc : Option Nat) (size : Nat) : F _ (raspikeComReceiveTimeout desc size) :=
  hF.does (raspikeComReceiveTimeout_all read_quiet (fun d _ => read_input d) size)

theorem read_stats (s : Stat) : F Unit (statsIncrement s) :=
  hF.does (statsIncrement_all read_quiet (Set.mem_singleton _) s)

theorem read_counted (s : Stat) (r : Int) : F Int (do
    statsIncrement s
    return r) :=
  hF.bind (read_stats hF s) fun _ => hF.pure r

theorem read_frame {e : Event} (he : e.kind = .recv) : F Unit (tick e) := by
  refine hF.does (Does.tick (k := .recv) trivial he (fun _ => rfl) fun d => ?_)
  cases e <;> first
    | rfl
    | cases he

theorem read_discard (size : Nat) (s : Stat) (r : Int) : F Int (do
    let _ ← discardReceiveBytes size
    statsIncrement s
    return r) :=
  hF.bind (hF.does (discardReceiveBytes_all read_quiet read_input size)) fun _ => read_counted hF s r

include hcommand

theorem receiveLegacyFrame_passes : F Int receiveLegacyFrame := by
  refine hF.bind (read_load hF _) fun desc => hF.bind (read_bytes hF desc 3) fun r => ?_
  cases r with
  | error e => exact hF.pure _
  | ok header =>
    show F Int (receiveLegacyBody header)
    unfold receiveLegacyBody
    dsimp only
    split
    · exact read_counted hF _ _
    refine hF.bind ?_ fun received => ?_
    · split
      · exact hF.bind (read_load hF _) fun desc => read_bytes hF desc _
      · exact hF.pure _
    cases received with
    | error e => exact hF.pure _
    | ok payload =>
      refine hF.bind (read_frame hF rfl) fun _ => ?_
      refine hF.bind (read_stats hF _) fun _ => ?_
      exact hF.bind (read_load hF _) fun session => hcommand _ _ _ _ _ _

theorem receiveV2Frame_passes : F Int receiveV2Frame := by
  refine hF.bind (read_load hF _) fun desc => hF.bind (read_bytes hF desc _) fun r => ?_
  cases r with
  | error e => exact hF.pure _
  | ok header =>
    show F Int (receiveV2Body header)
    unfold receiveV2Body
    dsimp only
    split
    · exact read_discard hF _ _ _
    split
    · exact read_discard hF _ _ _
    refine hF.bind (read_load hF _) fun desc => hF.bind (read_bytes hF desc _) fun r => ?_
    cases r with
    | error e => exact hF.pure _
    | ok rest =>
      show F Int (receiveV2Checked header rest)
      unfold receiveV2Checked
      dsimp only
      split
      · exact read_counted hF _ _
      · exact hF.bind (read_frame hF rfl) fun _ => hcommand _ _ _ _ _ _

theorem receiveFrame_passes : F Int receiveFrame := by
  refine hF.bind (read_load hF _) fun desc => hF.bind (read_bytes hF desc 1) fun r => ?_
  cases r with
  | error e => exact hF.pure _
  | ok start =>
    refine hF.bind ?_ fun result => hF.bind ?_ fun _ => hF.pure _
    · show F Int (receiveStarted (start.getD 0 0))
      unfold receiveStarted
      split
      · exact receiveV2Frame_passes hF hcommand
      split
      · exact receiveLegacyFrame_passes hF hcommand
      · exact read_counted hF _ _
    · split
      · exact read_stats hF _
      · exact hF.pure _

end

/-- a receiver around the frame it reads -/
theorem raspikeProtReceive_passes {F : ∀ α : Type, P α → Prop}
    (hF : Passes F {.quiet, .receivers} {.fgLifecycle}) (hframe : F Int receiveFrame) :
    F Int raspikeProtReceive := by
  have hq : Kind.quiet ∈ ({.quiet, .receivers} : Set Kind) := .inl rfl
  have hr : Kind.receivers ∈ ({.quiet, .receivers} : Set Kind) := .inr rfl
  have hm : Mutex.fgLifecycle ∈ ({.fgLifecycle} : Set Mutex) := rfl
  refine hF.bind (hF.does (Does.lock hm)) fun _ => hF.bind (hF.does ?_) fun down => ?_
  · exact Does.orElse (Does.load hq) (Does.orElse (Does.load hq) (Does.load hq))
  split
  · exact hF.bind (hF.does (Does.unlock hm)) fun _ => hF.pure _
  refine hF.bind (hF.does ?_) fun _ => hF.bind (hF.does (Does.unlock hm)) fun _ =>
    hF.bind hframe fun result => hF.bind (hF.does ?_) fun _ => hF.pure _
  · exact Does.labelled .receivers hr (fun _ => rfl) (fun m => ⟨_, rfl⟩) (fun _ => rfl)
      fun _ _ => rfl
  refine (Does.lock hm).bind fun _ => Does.bind ?_ fun _ => (Does.load hq).bind fun active =>
    Does.bind ?_ fun _ => Does.unlock hm
  · exact Does.labelled .receivers hr (fun _ => rfl) (fun m => ⟨_, rfl⟩) (fun _ => rfl)
      fun _ _ => rfl
  · split
    · exact Does.broadcast
    · exact Does.pure _

theorem receiveFrame_all (hk : commandKinds ⊆ ks) (hl : commandMutexes ⊆ ls)
    (hio : ∀ d, Kind.input d ∈ ks) : Does ks ls receiveFrame := by
  have hF : Passes (fun _ p => Does ks ls p) readKinds {.fgLinkStats} := by
    refine does_passes.mono (fun k hmem => ?_) ?_
    · cases k with
      | quiet | recv => exact hk (by simp [commandKinds])
      | input d => exact hio d
      | _ => exact hmem.elim
    · exact Set.singleton_subset_iff.mpr (hl (.inr (.inr (.inr rfl))))
  exact receiveFrame_passes hF (processCommand_all hk hl)

theorem raspikeProtReceive_all (hk : commandKinds ⊆ ks) (hl : commandMutexes ⊆ ls)
    (hio : ∀ d, Kind.input d ∈ ks) (hr : Kind.receivers ∈ ks) (hm : Mutex.fgLifecycle ∈ ls) :
    Does ks ls raspikeProtReceive := by
  have hF : Passes (fun _ p => Does ks ls p) {.quiet, .receivers} {.fgLifecycle} := by
    apply does_passes.mono _ (Set.singleton_subset_iff.mpr hm)
    exact Set.insert_subset (hk (by simp [commandKinds])) (Set.singleton_subset_iff.mpr hr)
  exact raspikeProtReceive_passes hF (receiveFrame_all hk hl hio)

/-- the programs of a thread that give its ghost back -/
theorem passes_keeps {T : Type} [DecidableEq T] {𝓛 : Logic T Mutex CondVar Event Mem} {t : T}
    {g : 𝓛.G} (hN : 𝓛.Neutral (Acc ks) (· ∈ ls) t g) :
    Passes (fun _ p => wp 𝓛 t p (fun _ g' => g' = g) g) ks ls where
  pure _ := wp_pure rfl
  bind hp hq := wp_call hp hq
  does hp := wp_all hN hp fun _ => rfl

/-- the kinds of a receiver, but for the two functions that touch the ports -/
def receiveKinds : Set Kind
  | .quiet | .input _ | .recv | .prot | .status => True
  | _ => False

/-- its mutexes -/
def receiveMutexes : Set Mutex
  | .fgStatus | .fgRuntimeTelemetry | .fgLinkStats => True
  | _ => False

/-- a receiver gives back the ghost of its thread, if the two functions do -/
theorem receiveFrame_keeps {T : Type} [DecidableEq T] {𝓛 : Logic T Mutex CondVar Event Mem} {t : T}
    {g : 𝓛.G} (hN : 𝓛.Neutral (Acc receiveKinds) (· ∈ receiveMutexes) t g)
    (hhello : ∀ buf, wp 𝓛 t (processHelloPayload buf) (fun _ g' => g' = g) g)
    (hack : ∀ i s session buf, wp 𝓛 t (processAck i s session buf) (fun _ g' => g' = g) g) :
    wp 𝓛 t receiveFrame (fun _ g' => g' = g) g := by
  have hread : readKinds ⊆ receiveKinds := fun k hk => by
    cases k <;> first
      | exact trivial
      | exact hk.elim
  have hdispatch : dispatchKinds ⊆ receiveKinds := by
    rintro k (rfl | rfl) <;> exact trivial
  have hF := passes_keeps hN
  have hrecv : Kind.recv ∈ receiveKinds := trivial
  have hcalled := fun port cmd flags sequence session buf =>
    hF.does (command_does hrecv port cmd flags sequence session buf)
  apply receiveFrame_passes (hF.mono hread (Set.singleton_subset_iff.mpr trivial))
  apply processCommand_passes (hF.mono hdispatch _) hcalled hhello _ hack
  · rintro l (rfl | rfl) <;> exact trivial
  · intro f
    have hq : Kind.quiet ∈ receiveKinds := trivial
    have hs : Kind.status ∈ receiveKinds := trivial
    have hl : Mutex.fgStatus ∈ receiveMutexes := trivial
    exact hF.does (updateStatus_all hq hs hl f)

end RaspikeArt
