import RaspikeArt.Model.Lifecycle
import RaspikeArt.Model.Effects
import RaspikeArt.Transport.Handling
import RaspikeArt.Status.Stored

/-!
# The two HELLO validators

* `HelloOk port payload`  what `receive_legacy_hello` accepts, `receiveLegacyHello_iff`;
* `Switches payload s`    what makes `process_hello_payload` switch the session, in the session `s`;
* `Untouched m m'`        what a HELLO that is refused is to leave alone;
* `hello_validators`      a HELLO that is received leaves the state alone, or would have been
                          accepted, exactly if it does not switch or is one of those.
-/

namespace RaspikeArt
open Threads

structure HelloOk (port : Byte) (payload : List Byte) : Prop where
  port : port = rpPortNone
  version : payload.getD 0 0 = rpV2Version
  framing : payload.getD 1 0 &&& rpV2CapFraming ≠ 0
  session : rpV2GetU32 (payload.drop 4) ≠ 0
  room : spikeStatusSize ≤ (rpV2GetU16 (payload.drop 2)).toNat

structure Switches (payload : List Byte) (s : U32) : Prop where
  version : payload.getD 0 0 = rpV2Version
  session : rpV2GetU32 (payload.drop 4) ≠ 0
  other : rpV2GetU32 (payload.drop 4) ≠ s

structure Untouched (m m' : Mem) : Prop where
  session : m'.fgSessionId = m.fgSessionId
  capabilities : m'.fgCapabilities = m.fgCapabilities
  v2 : m'.fgUseProtocolV2 = m.fgUseProtocolV2
  ports : m'.gPortDevices = m.gPortDevices
  pointer : m'.fgStatus = m.fgStatus
  status : m'.heap = m.heap
  telemetry : m'.fgRuntimeTelemetry = m.fgRuntimeTelemetry

theorem Untouched.of_eq {m m' : Mem} (h : m' = m) : Untouched m m' := by
  subst h
  exact ⟨rfl, rfl, rfl, rfl, rfl, rfl, rfl⟩

section
variable {d : Nat} {w : Solo} {port : Byte} {payload more : List Byte}

/-! ## at the negotiation -/

/-- what is in front of the byte is skipped -/
theorem scanForByte_finishes {target : Byte} {noise : List Byte} (ha : Attached d w)
    (hnoise : target ∉ noise) (hrx : arrives (w.rx d) = noise ++ target :: more) :
    Finishes (scanForByte target) w fun r w' => r = 0 ∧ Heard d w (noise ++ [target]) w' := by
  apply finish_loop (fun _ (w' : Solo) => ∃ skipped left, noise = skipped ++ left ∧ Heard d w skipped w')
    (fun _ (w' : Solo) => (arrives (w'.rx d)).length) ⟨[], noise, rfl, Heard.refl ha.listening.ready⟩
  rintro _ w₁ ⟨skipped, left, rfl, hh⟩
  have ha₁ := hh.attached ha
  have hrx₁ : arrives (Solo.rx w₁ d) = left ++ target :: more := by
    have hall := hh.bytes.symm.trans hrx
    rw [List.append_assoc] at hall
    exact List.append_cancel_left hall
  apply finish_bind
  apply finish_load
  rw [ha₁.desc]
  cases left with
  | nil =>
    have hgets : arrives (Solo.rx w₁ d) = [target] ++ more := hrx₁
    apply finish_seq (raspikeComReceiveTimeout_gets (List.cons_ne_nil _ _) ha₁.listening hgets)
    rintro r w₂ ⟨rfl, ht⟩
    dsimp only
    rw [if_pos (show [target].getD 0 0 = target from rfl), List.append_nil]
    exact finish_pure ⟨rfl, hh.trans ht.heard⟩
  | cons b left =>
    have hgets : arrives (Solo.rx w₁ d) = [b] ++ (left ++ target :: more) := hrx₁
    have hne : b ≠ target := fun h => hnoise (h ▸ List.mem_append_right _ List.mem_cons_self)
    apply finish_seq (raspikeComReceiveTimeout_gets (List.cons_ne_nil _ _) ha₁.listening hgets)
    rintro r w₂ ⟨rfl, ht⟩
    dsimp only
    rw [if_neg (show ¬ [b].getD 0 0 = target from hne)]
    apply finish_bind
    apply clockLate_finishes ht.ready
    rw [if_neg (by decide)]
    apply finish_pure
    refine ⟨⟨skipped ++ [b], left, by rw [List.append_assoc]; rfl, hh.trans ht.heard⟩, ?_⟩
    have hsize := congrArg List.length ht.bytes
    rw [List.length_append, List.length_singleton] at hsize
    show (arrives (Solo.rx w₂ d)).length < (arrives (Solo.rx w₁ d)).length
    have hsame : (arrives (Solo.rx (Solo.log w₁ (.io d .receive)) d)).length =
        (arrives (Solo.rx w₁ d)).length := rfl
    omega

/-- `receive_legacy_hello` up to its checks of the payload -/
def helloRead : P (Except Int (List Byte)) := do
  let found ← scanForByte rpCmdStart
  if found < 0 then return .error found
  let desc ← load fun m => m.fgDesc
  let header ← match ← raspikeComReceiveTimeout desc 3 with
    | .error e => return .error e
    | .ok header => pure header
  let cmd := header.getD 0 0
  let size := header.getD 1 0
  let port := header.getD 2 0
  if cmd ≠ rpCmdIdLinkHello ∨ port ≠ rpPortNone ∨ size.toNat ≠ rpV2HelloPayloadSize then
    return .error (-EPROTO)
  let desc ← load fun m => m.fgDesc
  raspikeComReceiveTimeout desc rpV2HelloPayloadSize

/-- `receive_legacy_hello` from there on -/
def helloTake (payload : List Byte) : P Int := do
  if payload.getD 0 0 ≠ rpV2Version then return -EPROTONOSUPPORT
  setCapabilities (payload.getD 1 0)
  let maxPayload := rpV2GetU16 (payload.drop 2)
  setSession (rpV2GetU32 (payload.drop 4))
  let refused ← orElse (load fun m => m.fgCapabilities &&& rpV2CapFraming == 0)
    (orElse (load fun m => m.fgSessionId == 0) (pure (maxPayload.toNat < spikeStatusSize)))
  if refused then return -EPROTONOSUPPORT
  setUseV2 true
  return 0

/-- what follows the reading of the HELLO -/
def helloEnd : Except Int (List Byte) → P Int
  | .error e => pure e
  | .ok payload => helloTake payload

theorem receiveLegacyHello_eq : receiveLegacyHello = helloRead >>= helloEnd := by
  apply bind_split
  intro found
  split
  case isTrue => rfl
  apply bind_split
  intro desc
  apply bind_split
  intro r
  cases r with
  | error e => rfl
  | ok header =>
  apply bind_split
  intro header
  dsimp only
  split
  case isTrue => rfl
  apply bind_split
  intro desc
  rfl

/-- the checks on the payload of a HELLO -/
theorem helloOk_iff (hport : port = rpPortNone) : HelloOk port payload ↔
    payload.getD 0 0 = rpV2Version ∧ payload.getD 1 0 &&& rpV2CapFraming ≠ 0 ∧
      rpV2GetU32 (payload.drop 4) ≠ 0 ∧ spikeStatusSize ≤ (rpV2GetU16 (payload.drop 2)).toNat :=
  ⟨fun h => ⟨h.version, h.framing, h.session, h.room⟩, fun h => ⟨hport, h.1, h.2.1, h.2.2.1, h.2.2.2⟩⟩

/-- how the checks of a payload end: what it says is stored before most of them -/
structure HelloStored (payload : List Byte) (w : Solo) (r : Int) (w' : Solo) : Prop where
  own : w'.own = w.own
  result : r = 0 ∨ r = -EPROTONOSUPPORT
  accepted : r = 0 ↔ HelloOk rpPortNone payload
  otherwise : payload.getD 0 0 ≠ rpV2Version → w' = w
  stored : payload.getD 0 0 = rpV2Version → ∃ b, (r = 0 ∨ b = w.mem.fgUseProtocolV2) ∧
    w'.mem = { w.mem with
      fgCapabilities := payload.getD 1 0
      fgSessionId := rpV2GetU32 (payload.drop 4)
      fgUseProtocolV2 := b }

theorem helloTake_finishes (payload : List Byte) (w : Solo) :
    Finishes (helloTake payload) w (HelloStored payload w) := by
  unfold helloTake
  split
  case isTrue hversion =>
    apply finish_pure
    exact ⟨rfl, .inr rfl, ⟨fun h => absurd h (by decide), fun h => (hversion h.version).elim⟩,
      fun _ => rfl, fun h => (hversion h).elim⟩
  rename_i hversion
  rw [not_not] at hversion
  apply finish_bind
  apply finish_act
  apply finish_bind
  apply finish_act
  apply finish_seq (R := fun b w' => (b = false ↔ HelloOk rpPortNone payload) ∧ w'.own = w.own ∧
    w'.mem = { w.mem with
      fgCapabilities := payload.getD 1 0
      fgSessionId := rpV2GetU32 (payload.drop 4) })
  · rw [helloOk_iff rfl]
    apply finish_orElse
    apply finish_load
    show if (payload.getD 1 0 &&& rpV2CapFraming == 0) = true then _ else _
    split
    case isTrue h => exact ⟨⟨fun h => absurd h (by decide), fun hok => (hok.2.1 (eq_of_beq h)).elim⟩, rfl, rfl⟩
    rename_i hframing
    apply finish_orElse
    apply finish_load
    show if (rpV2GetU32 (payload.drop 4) == 0) = true then _ else _
    split
    case isTrue h => exact ⟨⟨fun h => absurd h (by decide), fun hok => (hok.2.2.1 (eq_of_beq h)).elim⟩, rfl, rfl⟩
    rename_i hsession
    apply finish_pure
    rw [decide_eq_false_iff_not, Nat.not_lt]
    exact ⟨⟨fun h => ⟨hversion, ne_of_beq_false (eq_false_of_ne_true hframing),
      ne_of_beq_false (eq_false_of_ne_true hsession), h⟩, fun h => h.2.2.2⟩, rfl, rfl⟩
  rintro (refused | refused) w₁ ⟨hrefuses, hown, hmem⟩
  · apply finish_bind
    apply finish_act
    apply finish_pure
    refine ⟨hown, .inl rfl, ⟨fun _ => hrefuses.mp rfl, fun _ => rfl⟩, fun h => (h hversion).elim,
      fun _ => ⟨true, .inl rfl, ?_⟩⟩
    show { w₁.mem with fgUseProtocolV2 := true } = _
    rw [hmem]
  · apply finish_pure
    refine ⟨hown, .inr rfl, ⟨fun h => absurd h (by decide), fun h => ?_⟩, fun h => (h hversion).elim,
      fun _ => ⟨_, .inr rfl, hmem⟩⟩
    exact Bool.noConfusion (hrefuses.mpr h)

/-- a HELLO is accepted, with its session, or refused -/
structure HelloEnd (port : Byte) (payload : List Byte) (r : Int) (w : Solo) : Prop where
  accepted : r = 0 ↔ HelloOk port payload
  refused : ¬ HelloOk port payload → r < 0
  session : HelloOk port payload → w.mem.fgSessionId = rpV2GetU32 (payload.drop 4)
  free : ∀ l, w.own l = none

theorem helloRead_finishes {noise : List Byte} (ha : Attached d w)
    (hlen : payload.length = rpV2HelloPayloadSize) (hnoise : rpCmdStart ∉ noise)
    (hrx : arrives (w.rx d) = noise ++ (legacyFrame port rpCmdIdLinkHello payload ++ more)) :
    Finishes helloRead w fun r w' => (∀ l, w'.own l = none) ∧
      r = if port = rpPortNone then .ok payload else .error (-EPROTO) := by
  have hsize : (BitVec.ofNat 8 payload.length).toNat = rpV2HelloPayloadSize := by rw [hlen]; rfl
  let header : List Byte := [rpCmdIdLinkHello, BitVec.ofNat 8 payload.length, port]
  have hstart : arrives (w.rx d) = noise ++ rpCmdStart :: (header ++ (payload ++ more)) := hrx
  have hscan : arrives (w.rx d) = noise ++ [rpCmdStart] ++ (header ++ (payload ++ more)) := by
    rw [hstart, List.append_assoc]
    rfl
  apply finish_seq (scanForByte_finishes ha hnoise hstart)
  rintro found w₁ ⟨rfl, hh₁⟩
  rw [if_neg (by decide)]
  have hrx₁ : arrives (Solo.rx w₁ d) = header ++ (payload ++ more) :=
    List.append_cancel_left (hh₁.bytes.symm.trans hscan)
  have ha₁ := hh₁.attached ha
  apply finish_bind
  apply finish_load
  rw [ha₁.desc]
  apply finish_seq (raspikeComReceiveTimeout_gets (List.cons_ne_nil _ _) ha₁.listening hrx₁)
  rintro r w₂ ⟨rfl, ht₂⟩
  have ha₂ := ht₂.heard.attached ha₁
  have hrx₂ : arrives (Solo.rx w₂ d) = payload ++ more :=
    List.append_cancel_left (ht₂.bytes.symm.trans hrx₁)
  apply finish_bind
  apply finish_pure
  simp only [List.getD_cons_zero, List.getD_cons_succ, hsize, ne_eq, not_true_eq_false, false_or,
    or_false]
  by_cases hport : port = rpPortNone
  case neg =>
    rw [if_pos hport, if_neg hport]
    exact finish_pure ⟨ha₂.free, rfl⟩
  rw [if_neg (not_not.mpr hport), if_pos hport]
  have hpos : payload ≠ [] := by
    rintro rfl
    cases hlen
  apply finish_bind
  apply finish_load
  rw [ha₂.desc, ← hlen]
  apply finish_mono (raspikeComReceiveTimeout_gets hpos ha₂.listening hrx₂)
  rintro r w₃ ⟨rfl, ht₃⟩
  exact ⟨(ht₃.heard.attached ha₂).free, rfl⟩

theorem receiveLegacyHello_finishes {noise : List Byte} (ha : Attached d w)
    (hlen : payload.length = rpV2HelloPayloadSize) (hnoise : rpCmdStart ∉ noise)
    (hrx : arrives (w.rx d) = noise ++ (legacyFrame port rpCmdIdLinkHello payload ++ more)) :
    Finishes receiveLegacyHello w (HelloEnd port payload) := by
  rw [receiveLegacyHello_eq]
  apply finish_seq (helloRead_finishes ha hlen hnoise hrx)
  rintro _ w₁ ⟨hfree₁, rfl⟩
  by_cases hport : port = rpPortNone
  · subst hport
    rw [if_pos rfl]
    apply finish_mono (helloTake_finishes payload w₁)
    intro r w₂ h
    refine ⟨h.accepted, fun hno => ?_, fun hok => ?_, fun l => (congrFun h.own l).trans (hfree₁ l)⟩
    · rw [h.result.resolve_left fun hr => hno (h.accepted.mp hr)]
      decide
    obtain ⟨b, -, hmem⟩ := h.stored hok.version
    rw [hmem]
  · rw [if_neg hport]
    apply finish_pure
    exact ⟨⟨fun h => absurd h (by decide), fun h => (hport h.port).elim⟩, fun _ => by decide,
      fun h => (hport h.port).elim, hfree₁⟩

theorem receiveLegacyHello_iff (ha : Attached d w) (hlen : payload.length = rpV2HelloPayloadSize)
    (hrx : arrives (w.rx d) = legacyFrame port rpCmdIdLinkHello payload ++ more) :
    Finishes receiveLegacyHello w fun r _ => r = 0 ↔ HelloOk port payload := by
  have hnone : arrives (w.rx d) = [] ++ (legacyFrame port rpCmdIdLinkHello payload ++ more) := hrx
  apply finish_mono (receiveLegacyHello_finishes ha hlen List.not_mem_nil hnone)
  exact fun _ _ h => h.accepted

/-! ## in the middle of a run -/

/-- a program that does not store a session keeps the one there is -/
theorem finish_session {α : Type} {ks : Set Kind} {ls : Set Mutex} {p : P α} {Q : α → Solo → Prop}
    (hp : Does ks ls p) (hks : Kind.sess ∉ ks) (h : Finishes p w Q) :
    Finishes p w fun a w' => Q a w' ∧ w'.mem.fgSessionId = w.mem.fgSessionId := by
  obtain ⟨a, w', he, hQ⟩ := h
  refine ⟨a, w', he, hQ, ?_⟩
  have hpath := Prog.All.path hp he
  clear he hQ
  induction hpath with
  | refl => rfl
  | own _ _ ih => exact ih
  | act _ hA ih =>
    obtain ⟨e, f, hacc, -, rfl⟩ := hA
    obtain ⟨k, hk, hstep⟩ := hacc _
    exact (hstep.touches.rest.session fun h => hks (h ▸ hk)).trans ih

theorem processHelloPayload_stays (hno : ¬ Switches payload w.mem.fgSessionId) :
    Finishes (processHelloPayload payload) w fun _ w' => w'.mem = w.mem := by
  unfold processHelloPayload
  split
  case isTrue => exact finish_pure rfl
  rename_i hform
  apply finish_bind
  apply finish_load
  split
  case isTrue => exact finish_pure rfl
  rename_i hother
  obtain ⟨-, hversion⟩ := not_or.mp hform
  obtain ⟨hsession, hother⟩ := not_or.mp hother
  exact (hno ⟨not_not.mp hversion, hsession, hother⟩).elim

theorem helloTail_all : Does {k | k ≠ .sess} Set.univ (helloTail payload) := by
  have hks : ∀ k ≠ Kind.sess, k ∈ ({k | k ≠ .sess} : Set Kind) := fun _ h => h
  apply Does.bind (setCapabilities_all (hks .prot nofun) _)
  intro _
  apply Does.bind (resetPortState_all (hks .quiet nofun) (hks .reset nofun)
    (fun _ => Set.mem_univ _) _ false nofun nofun)
  intro _
  apply Does.bind (Does.tick (hks .hello nofun) rfl (fun _ => rfl) fun _ => rfl)
  intro _
  apply Does.bind (clearSavedStatus_all (hks .quiet nofun) (hks .status nofun) (Set.mem_univ _))
  exact fun _ => clearRuntimeTelemetry_all (hks .prot nofun) (Set.mem_univ _)

theorem processHelloPayload_switches (hfree : ∀ l, w.own l = none)
    (hlen : payload.length = rpV2HelloPayloadSize) (hs : Switches payload w.mem.fgSessionId) :
    Finishes (processHelloPayload payload) w fun _ w' =>
      w'.mem.fgSessionId = rpV2GetU32 (payload.drop 4) := by
  unfold processHelloPayload
  rw [if_neg (not_or.mpr ⟨not_not.mpr hlen, not_not.mpr hs.version⟩)]
  apply finish_bind
  apply finish_load
  rw [if_neg (not_or.mpr ⟨hs.session, hs.other⟩)]
  apply finish_bind
  apply finish_act
  show Finishes (helloTail payload) _ _
  apply finish_mono (finish_session helloTail_all (fun h => h rfl) (helloTail_runs payload _ ?own))
  case own => exact funext hfree
  rintro _ w' ⟨-, hsession⟩
  exact hsession

/-! ## the two together -/

/-- **The two validators** agree about every HELLO that does not switch the session or that the
negotiation accepts, and about no other. -/
theorem hello_validators (hlen : payload.length = rpV2HelloPayloadSize) :
    (∀ d more w, Attached d w → arrives (w.rx d) = legacyFrame port rpCmdIdLinkHello payload ++ more →
      Finishes receiveLegacyHello w fun r _ => r = 0 ↔ HelloOk port payload) ∧
    ∀ (w : Solo) flags sequence session, (∀ l, w.own l = none) →
      Finishes (processCommand port rpCmdIdLinkHello flags sequence session payload) w fun _ w' =>
        (HelloOk port payload ∨ Untouched w.mem w'.mem) ↔
          (HelloOk port payload ∨ ¬ Switches payload w.mem.fgSessionId) := by
  refine ⟨fun d more w ha => receiveLegacyHello_iff ha hlen, fun w flags sequence session hfree => ?_⟩
  apply finish_bind
  apply finish_tick
  rw [if_pos rfl]
  by_cases hs : Switches payload w.mem.fgSessionId
  · apply finish_seq (processHelloPayload_switches (w := w.log _) hfree hlen hs)
    intro _ w' hsession
    apply finish_pure
    apply or_congr_right
    exact ⟨fun h => (hs.other (hsession.symm.trans h.session)).elim, fun h => (h hs).elim⟩
  · apply finish_seq (processHelloPayload_stays (w := w.log _) hs)
    intro _ w' hmem
    apply finish_pure
    exact or_congr_right ⟨fun _ => hs, fun _ => .of_eq hmem⟩

end

/-! ## a HELLO without framing -/

/-- version 2, no capabilities, no room for a payload, session 9 -/
def bareHello : List Byte := [2, 0, 0, 0, 9, 0, 0, 0, 0, 0, 0, 0]

theorem bareHello_switches : Switches bareHello freshSession := ⟨rfl, by decide, by decide⟩

theorem bareHello_not_ok (port : Byte) : ¬ HelloOk port bareHello := fun h => h.framing rfl

theorem hello_validators_bare :
    Finishes receiveLegacyHello
        ⟨freshMem [.data (legacyFrame 3 rpCmdIdLinkHello bareHello)] [], fun _ => none, []⟩
        (fun r _ => r = 0 ↔ HelloOk 3 bareHello) ∧
      Finishes (processCommand 3 rpCmdIdLinkHello 0 0 0 bareHello) freshWorld fun _ w' =>
        (HelloOk 3 bareHello ∨ Untouched freshWorld.mem w'.mem) ↔
          (HelloOk 3 bareHello ∨ ¬ Switches bareHello freshSession) := by
  refine ⟨(hello_validators rfl).1 0 [] _ ⟨⟨rfl, Int.le.intro 3 rfl, fun x hx => ?_⟩, rfl, fun _ => rfl⟩ rfl,
    (hello_validators rfl).2 freshWorld 0 0 0 fun _ => rfl⟩
  rw [List.mem_singleton.mp hx]
  exact List.cons_ne_nil _ _

/-- the session of a HELLO is taken that the negotiation refuses -/
theorem hello_unchecked : ¬ HelloOk 3 bareHello ∧
    Finishes (processCommand 3 rpCmdIdLinkHello 0 0 0 bareHello) freshWorld fun _ w' =>
      ¬ Untouched freshWorld.mem w'.mem := by
  refine ⟨bareHello_not_ok 3, ?_⟩
  apply finish_bind
  apply finish_tick
  rw [if_pos rfl]
  apply finish_seq (processHelloPayload_switches (w := freshWorld.log _) (fun _ => rfl) rfl
    bareHello_switches)
  intro _ w' hsession
  apply finish_pure
  exact fun h => bareHello_switches.other (hsession.symm.trans h.session)

end RaspikeArt
