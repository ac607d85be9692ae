import RaspikeArt.Model.System

/-!
# Connected states

`Connected d₀ m`: the state that a successful `raspike_prot_init` on the descriptor `d₀` leaves,
with nobody at work.  `freshMem` is such a state for a device given by its scripts; the runs on
fixed inputs start from it.
-/

namespace RaspikeArt
open Threads

structure Connected (d₀ : Nat) (m : Mem) : Prop where
  desc : m.fgDesc = some d₀
  active : m.fgActiveReceivers = 0
  running : m.fgStopCommunication = false
  handshake : m.fgHandshakeComplete = true
  v2 : m.fgUseProtocolV2 = true
  session : m.fgSessionId ≠ 0
  next : m.fgNextSequence = 1
  quiet : ∀ i, (m.gPortDevices i).pending = false
  status : ∃ p, m.fgStatus = some p ∧ (m.heap p).isSome

/-- the session of `freshMem` -/
def freshSession : U32 := 7

theorem freshSession_ne_zero : freshSession ≠ 0 := by decide

/-- descriptor 0 is connected and in session `freshSession`; the device sends `rx`, and accepts
what it is sent as `tx` says -/
def freshMem (rx : List RxItem) (tx : List TxItem) : Mem where
  com := ⟨[], .normal, fun _ => ⟨rpComTypeUsb, 3, rx, tx, [], []⟩⟩
  gPortDevices := fun _ => .zero
  fgDesc := some 0
  fgHandshakeComplete := true
  fgStopCommunication := false
  fgPortSynchronizationInitialized := true
  fgUseProtocolV2 := true
  fgSessionId := freshSession
  fgCapabilities := rpV2CapFraming
  fgActiveReceivers := 0
  fgNextSequence := 1
  fgVersionMajor := spikeExpectedVersion.1
  fgVersionMinor := spikeExpectedVersion.2.1
  fgVersionPatch := spikeExpectedVersion.2.2
  fgLinkStats := fun _ => 0
  fgRuntimeTelemetry := zeroTelemetry
  fgStatus := some 0
  heap := fun p => if p = 0 then some zeroStatus else none
  heapNext := 1
  callocFails := false

theorem freshMem_connected (rx : List RxItem) (tx : List TxItem) : Connected 0 (freshMem rx tx) :=
  ⟨rfl, rfl, rfl, rfl, rfl, freshSession_ne_zero, rfl, fun _ => rfl, 0, rfl, rfl⟩

/-- `n` steps of a thread -/
def steps {T : Type} (n : Nat) (t : T) : List (Choice T) := List.replicate n (.run t)

theorem steps_run {T : Type} {n : Nat} {t : T} : ∀ ch ∈ steps n t, ∃ t, ch = .run t :=
  fun _ h => ⟨t, List.eq_of_mem_replicate h⟩

end RaspikeArt
