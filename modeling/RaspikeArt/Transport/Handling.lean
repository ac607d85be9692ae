import RaspikeArt.Transport.Slots
import RaspikeArt.Protocol.Format

/-!
# Transport, part 12: `process_command` ends

Called with no mutex held, `process_command` takes and gives back its mutexes one section after the
other, and never touches what the next receive starts from: the com layer, the descriptor, the stop
and handshake flags (`Aside`).
-/

namespace RaspikeArt
open Threads

/-- what `process_command` is entered with -/
def Event.decoded : Event → Option Decoded
  | .command port cmd flags q s payload => some ⟨port, cmd, flags, q, s, payload⟩
  | _ => none

/-- the calls of `process_command`, oldest first -/
def commandsOf (tr : Trace Unit) : List Decoded := tr.reverse.filterMap fun e => e.2.decoded

theorem commandsOf_cons (e : Event) (tr : Trace Unit) :
    commandsOf (((), e) :: tr) = commandsOf tr ++ e.decoded.toList := by
  rw [commandsOf, List.reverse_cons, List.filterMap_append]
  cases h : e.decoded <;> simp [h, commandsOf]

theorem commandsOf_quiet {es tr : Trace Unit} (h : ∀ e ∈ es, e.2.decoded = none) :
    commandsOf (es ++ tr) = commandsOf tr := by
  induction es with
  | nil => rfl
  | cons e es ih =>
    show commandsOf (((), e.2) :: (es ++ tr)) = _
    rw [commandsOf_cons, h e List.mem_cons_self, ih fun e he => h e (List.mem_cons_of_mem _ he)]
    exact List.append_nil _

/-- an access that the next receive does not notice, and no call of `process_command` -/
structure Aside (m : Mem) (x : Option Event) (m' : Mem) : Prop where
  com : m'.com = m.com
  desc : m'.fgDesc = m.fgDesc
  stop : m'.fgStopCommunication = m.fgStopCommunication
  handshake : m'.fgHandshakeComplete = m.fgHandshakeComplete
  label : ∀ e, x = some e → e.decoded = none

/-- the relation of a whole path of such accesses -/
structure Beside (w w' : Solo) : Prop where
  com : w'.mem.com = w.mem.com
  desc : w'.mem.fgDesc = w.mem.fgDesc
  stop : w'.mem.fgStopCommunication = w.mem.fgStopCommunication
  handshake : w'.mem.fgHandshakeComplete = w.mem.fgHandshakeComplete
  commands : commandsOf w'.trace = commandsOf w.trace

theorem path_beside {w w' : Solo} (h : Path Aside w w') : Beside w w' := by
  induction h with
  | refl => exact ⟨rfl, rfl, rfl, rfl, rfl⟩
  | own _ _ ih => exact ⟨ih.com, ih.desc, ih.stop, ih.handshake, ih.commands⟩
  | @act w' x m _ hA ih =>
    refine ⟨hA.com.trans ih.com, hA.desc.trans ih.desc, hA.stop.trans ih.stop,
      hA.handshake.trans ih.handshake, ?_⟩
    cases x with
    | none => exact ih.commands
    | some e =>
      show commandsOf (((), e) :: w'.trace) = _
      rw [commandsOf_cons, hA.label e rfl]
      exact (List.append_nil _).trans ih.commands

/-! ## each function -/

abbrev Owners := Mutex → Option Unit

/-- no mutex is held -/
def noneHeld : Owners := fun _ => none

section
variable {O : Owners}

theorem aside_same (m : Mem) : Aside m none m := ⟨rfl, rfl, rfl, rfl, nofun⟩

theorem runs_event {β : Type} {e : Mem → Event} {f : Mem → β × Mem}
    (he : ∀ m, (e m).decoded = none) (hf : ∀ m, Aside m none (f m).2) :
    Runs Aside O (.act (fun m => some (e m)) f .ret : P β) O := by
  apply Runs.act
  intro m
  refine ⟨(hf m).com, (hf m).desc, (hf m).stop, (hf m).handshake, ?_⟩
  rintro _ ⟨⟩
  exact he m

theorem runs_silent {β : Type} {f : Mem → β × Mem} (hf : ∀ m, Aside m none (f m).2) :
    Runs Aside O (.act (fun _ => none) f .ret : P β) O := Runs.act hf

theorem statsIncrement_runs (h : O .fgLinkStats = none) (s : Stat) :
    Runs Aside O (statsIncrement s) O := by
  apply (Runs.lock h).bind
  intro _
  apply Runs.bind (M := Function.update O .fgLinkStats (some ()))
  · exact runs_silent fun _ => ⟨rfl, rfl, rfl, rfl, nofun⟩
  · exact fun _ => Runs.unlock_locked h

theorem resetPortState_runs {A : Mem → Option Event → Mem → Prop}
    (hA : ∀ m x p, (∀ e, x = some e → e.decoded = none) → A m x { m with gPortDevices := p })
    (error : Int) (clearDevices : Bool) :
    Runs A noneHeld (resetPortState error clearDevices) noneHeld := by
  have hload : ∀ {β : Type} {O : Owners} (f : Mem → β), Runs A O (load f : P β) O := fun f =>
    Runs.load fun m => hA m none m.gPortDevices nofun
  have hports : ∀ {O : Owners} (e : Mem → Event) (f : Mem → Port → RPPortDevice),
      (∀ m, (e m).decoded = none) →
      Runs A O (.act (fun m => some (e m)) (fun m => ((), { m with gPortDevices := f m })) .ret : P Unit)
        O := by
    intro O e f he
    apply Runs.act
    intro m
    apply hA
    rintro _ ⟨⟩
    exact he m
  apply Runs.forEach
  intro i
  apply Runs.bind (M := noneHeld)
  · apply (Runs.lock rfl).bind
    intro _
    apply (hload _).bind
    intro canceled
    apply Runs.bind (M := Function.update noneHeld (.port i) (some ()))
    · cases canceled with
      | true =>
        apply (hload _).bind
        intro session
        apply (hports _ _ fun _ => rfl).bind
        exact fun _ => Runs.broadcast
      | false => exact hports _ _ fun _ => rfl
    · exact fun _ => Runs.unlock_locked rfl
  · intro _
    split
    · apply (Runs.lock rfl).bind
      intro _
      apply (hports _ _ fun _ => rfl).bind
      exact fun _ => Runs.unlock_locked rfl
    · exact Runs.pure ()

theorem writeStatus_runs (f : SpikeStatus → SpikeStatus) : Runs Aside O (writeStatus f) O := by
  apply (Runs.load aside_same).bind
  intro status
  apply runs_event (fun _ => rfl)
  intro m
  cases status <;> exact ⟨rfl, rfl, rfl, rfl, nofun⟩

theorem clearSavedStatus_runs : Runs Aside noneHeld clearSavedStatus noneHeld := by
  apply (runs_event (fun _ => rfl) fun _ => ⟨rfl, rfl, rfl, rfl, nofun⟩).bind
  intro present
  cases present with
  | false => exact Runs.pure ()
  | true =>
    apply (Runs.lock rfl).bind
    intro _
    apply (writeStatus_runs _).bind
    intro _
    apply Runs.broadcast.bind
    exact fun _ => Runs.unlock_locked rfl

theorem setRuntimeTelemetry_runs (t : List Byte) : Runs Aside O (setRuntimeTelemetry t) O :=
  runs_event (fun _ => rfl) fun _ => ⟨rfl, rfl, rfl, rfl, nofun⟩

theorem clearRuntimeTelemetry_runs : Runs Aside noneHeld clearRuntimeTelemetry noneHeld := by
  apply (Runs.lock rfl).bind
  intro _
  apply (setRuntimeTelemetry_runs _).bind
  exact fun _ => Runs.unlock_locked rfl

/-- `process_hello_payload` once it has stored the new session -/
def helloTail (buf : List Byte) : P Unit := do
  setCapabilities (buf.getD 1 0)
  resetPortState (-ESTALE) false
  tick (.helloDone (rpV2GetU32 (buf.drop 4)))
  clearSavedStatus
  clearRuntimeTelemetry

theorem helloTail_runs (buf : List Byte) : Runs Aside noneHeld (helloTail buf) noneHeld := by
  apply (runs_event (fun _ => rfl) fun _ => ⟨rfl, rfl, rfl, rfl, nofun⟩).bind
  intro _
  apply (resetPortState_runs (fun _ _ _ h => ⟨rfl, rfl, rfl, rfl, h⟩) _ false).bind
  intro _
  apply (runs_event (fun _ => rfl) fun _ => ⟨rfl, rfl, rfl, rfl, nofun⟩).bind
  intro _
  apply clearSavedStatus_runs.bind
  exact fun _ => clearRuntimeTelemetry_runs

theorem processHelloPayload_runs (buf : List Byte) :
    Runs Aside noneHeld (processHelloPayload buf) noneHeld := by
  unfold processHelloPayload
  split
  case isTrue => exact Runs.pure ()
  apply (Runs.load aside_same).bind
  intro old
  split
  case isTrue => exact Runs.pure ()
  apply (runs_event (fun _ => rfl) fun _ => ⟨rfl, rfl, rfl, rfl, nofun⟩).bind
  exact fun _ => helloTail_runs buf

theorem updateStatus_runs (f : SpikeStatus → SpikeStatus) :
    Runs Aside noneHeld (updateStatus f) noneHeld := by
  apply (Runs.lock rfl).bind
  intro _
  apply (writeStatus_runs f).bind
  intro _
  apply Runs.broadcast.bind
  intro _
  apply (Runs.unlock_locked rfl).bind
  exact fun _ => Runs.pure 0

theorem ackMatches_runs (dev : RPPortDevice) (sequence session : U32) (ackCmd : Int) :
    Runs Aside O (ackMatches dev sequence session ackCmd) O := by
  unfold ackMatches
  split
  case isFalse => exact Runs.pure false
  apply Runs.orElse (Runs.load aside_same)
  split
  case isTrue => exact Runs.load aside_same
  case isFalse => exact Runs.pure false

theorem processAck_runs (i : Port) (sequence session : U32) (buf : List Byte) :
    Runs Aside noneHeld (processAck i sequence session buf) noneHeld := by
  apply (Runs.lock rfl).bind
  intro _
  apply (Runs.load aside_same).bind
  intro dev
  apply (ackMatches_runs _ _ _ _).bind
  intro isCurrent
  apply Runs.bind (M := Function.update noneHeld (.port i) (some ()))
  · cases isCurrent with
    | true =>
      apply (runs_event (fun _ => rfl) fun _ => ⟨rfl, rfl, rfl, rfl, nofun⟩).bind
      exact fun _ => Runs.broadcast
    | false => exact statsIncrement_runs rfl _
  · intro _
    apply (Runs.unlock_locked rfl).bind
    exact fun _ => Runs.pure _

/-- the frame for which `process_command` is called is the one entry of the history that says so -/
theorem processCommand_finishes {w : Solo} (hw : ∀ l, w.own l = none) (port cmd flags : Byte)
    (sequence session : U32) (buf : List Byte) :
    Finishes (processCommand port cmd flags sequence session buf) w fun _ w' =>
      (∀ l, w'.own l = none) ∧ Beside (w.log (.command port cmd flags sequence session buf)) w' := by
  have hown : w.own = noneHeld := funext hw
  have hcounted : ∀ s (r : Int), Runs Aside noneHeld (do statsIncrement s; return r) noneHeld :=
    fun s r => (statsIncrement_runs rfl s).bind fun _ => Runs.pure r
  apply finish_bind
  apply finish_tick
  apply finish_mono (Q := fun (_ : Int) (w' : Solo) => w'.own = noneHeld ∧
    Path Aside (w.log (.command port cmd flags sequence session buf)) w')
  case hQ =>
    rintro _ w' ⟨hO, hpath⟩
    exact ⟨fun l => congrFun hO l, path_beside hpath⟩
  refine (?_ : Runs Aside noneHeld _ noneHeld) _ hown
  split
  case isTrue =>
    apply (processHelloPayload_runs buf).bind
    exact fun _ => Runs.pure 0
  split
  case isTrue => exact hcounted _ _
  apply Runs.bind (M := noneHeld)
  · apply (Runs.load aside_same).bind
    intro v2
    cases v2 with
    | true => exact Runs.load aside_same
    | false => exact Runs.pure false
  intro stale
  split
  case isTrue => exact hcounted _ _
  split
  case isTrue =>
    split
    case isTrue => exact Runs.pure _
    case isFalse => exact updateStatus_runs _
  split
  case isTrue =>
    split
    case isTrue => exact Runs.pure _
    apply (Runs.lock rfl).bind
    intro _
    apply (setRuntimeTelemetry_runs buf).bind
    intro _
    apply (Runs.unlock_locked rfl).bind
    exact fun _ => Runs.pure 0
  split
  case isTrue =>
    split
    case isTrue => exact Runs.pure _
    case isFalse => exact updateStatus_runs _
  split
  case isTrue =>
    split
    case isTrue => exact Runs.pure _
    split
    case h_1 => exact Runs.pure _
    case h_2 i _ => exact processAck_runs i sequence session buf
  split
  case isTrue => exact Runs.pure 0
  case isFalse => exact Runs.pure _

end

/-! ## one slot handled -/

/-- the bytes `bs` have been consumed and `process_command` called for `cs`; the next receive finds
what it needs -/
structure Handled (d : Nat) (w : Solo) (bs : List Byte) (cs : List Decoded) (w' : Solo) : Prop where
  attached : Attached d w'
  stop : w'.mem.fgStopCommunication = w.mem.fgStopCommunication
  handshake : w'.mem.fgHandshakeComplete = w.mem.fgHandshakeComplete
  bytes : arrives (w.rx d) = bs ++ arrives (w'.rx d)
  commands : commandsOf w'.trace = commandsOf w.trace ++ cs

section
variable {d : Nat} {w : Solo} {header rest more : List Byte}

theorem Heard.commands {bs : List Byte} {w' : Solo} (h : Heard d w bs w') :
    commandsOf w'.trace = commandsOf w.trace := by
  obtain ⟨es, htr, hes⟩ := h.trace
  rw [htr]
  apply commandsOf_quiet
  intro e he
  rw [hes e he]
  rfl

theorem Heard.handled {bs : List Byte} {w' : Solo} (h : Heard d w bs w') (ha : Attached d w) :
    Handled d w bs [] w' := by
  refine ⟨h.attached ha, ?_, ?_, h.bytes, ?_⟩
  · rw [h.mem]
    rfl
  · rw [h.mem]
    rfl
  · rw [h.commands, List.append_nil]

theorem receiveV2Frame_accepted (ha : Attached d w) (hlen : header.length = 13)
    (hrest : rest.length = (header.getD 4 0).toNat + 2)
    (hrx : arrives (w.rx d) = header ++ (rest ++ more)) (hv : header.getD 0 0 = rpV2Version)
    (hsize : (header.getD 4 0).toNat ≤ rpV2MaxPayload)
    (hcrc : rpV2GetU16 (rest.drop (header.getD 4 0).toNat) =
      rpV2Crc16 (header ++ rest.take (header.getD 4 0).toNat)) :
    Finishes receiveV2Frame w fun _ w' =>
      Handled d w (header ++ rest) [.ofV2 header (rest.take (header.getD 4 0).toNat)] w' := by
  apply receiveV2Frame_intact ha hlen hrest hrx hv hsize hcrc
  intro w₁ hh
  have hh₁ := hh.handled ha
  apply finish_mono (processCommand_finishes (w := w₁.log _) hh₁.attached.free _ _ _ _ _ _)
  rintro r (w₂ : Solo) ⟨hfree, hb⟩
  have hrx₂ : w₂.rx d = w₁.rx d := by
    rw [Solo.rx, hb.com]
    rfl
  constructor
  · refine ⟨⟨?_, ?_, ?_⟩, hb.desc.trans hh₁.attached.desc, hfree⟩
    · rw [hb.com]
      exact hh₁.attached.listening.usb
    · rw [hb.com]
      exact hh₁.attached.listening.fd
    · rw [hrx₂]
      exact hh₁.attached.listening.ready
  · exact hb.stop.trans hh₁.stop
  · exact hb.handshake.trans hh₁.handshake
  · rw [hrx₂]
    exact hh₁.bytes
  · apply hb.commands.trans
    show commandsOf (((), _) :: ((), _) :: w₁.trace) = _
    rw [commandsOf_cons, commandsOf_cons, hh.commands]
    simp [Event.decoded, Decoded.ofV2]

end

end RaspikeArt
