import RaspikeArt.Protocol.Offered

/-!
# An init that fails

* `Unconnected w`      what a failed init is to leave;
* `Clean desc w`       the device offers no HELLO that is refused and has a session or capabilities, and
                       the send buffer keeps its room;
* `failed_init`        an init that fails leaves the library unconnected exactly if it is clean.
-/

namespace RaspikeArt
open Threads

/-! ## what an init is to leave, and when it does not -/

structure Disconnected (m : Mem) : Prop where
  desc : m.fgDesc = none
  status : m.fgStatus = none
  handshake : m.fgHandshakeComplete = false
  v2 : m.fgUseProtocolV2 = false

/-- what is in the queue once the input has been discarded -/
def RPComDescriptor.kept (s : RPComDescriptor) : List RxItem :=
  match s.discards with
  | .ok n :: _ => s.rx.drop n
  | _ => s.rx

/-- an open descriptor with a peer that takes what it is sent, and answers with the version that is
expected and a HELLO -/
structure RPComDescriptor.AnswersWith (s : RPComDescriptor) (payload : List Byte) : Prop where
  usb : s.type = rpComTypeUsb
  fd : 0 ≤ s.desc
  willing : ∀ x ∈ s.tx, Willing x
  ready : ∀ x ∈ s.kept, Ready x
  size : payload.length = rpV2HelloPayloadSize
  answer : ∃ more, arrives s.kept = [rpCmdInit, rpCmdInitMagic] ++
    ([spikeExpectedVersion.1, spikeExpectedVersion.2.1, spikeExpectedVersion.2.2] ++
      (legacyFrame rpPortNone rpCmdIdLinkHello payload ++ more))

/-- one whose HELLO is accepted -/
def RPComDescriptor.Answers (s : RPComDescriptor) : Prop :=
  ∃ payload, HelloOk rpPortNone payload ∧ s.AnswersWith payload

/-- the same library with the descriptor `d` opened on another device, and memory left -/
def Solo.facing (w : Solo) (d : Nat) (s : RPComDescriptor) : Solo :=
  { w with mem := { w.mem.onDevices (Function.update w.mem.com.desc d s) with callocFails := false } }

structure Unconnected (w : Solo) : Prop where
  down : Disconnected w.mem
  stats : Finishes (raspikeLinkGetStats true) w fun r _ =>
    ∃ s, r = .ok s ∧ s.sessionId = 0 ∧ s.capabilities = 0
  sends : ∀ port cmd buf size, Finishes (raspikeProtSend port cmd buf size) w fun r _ => r = -ENOTCONN
  sendsPriority : ∀ port cmd buf size,
    Finishes (raspikeProtSendPriority port cmd buf size) w fun r _ => r = -ENOTCONN
  requests : ∀ port cmd data size, raspikeIsValidPort port = true →
    Finishes (raspikeRequest port cmd data size) w fun r _ => r = -ENOTCONN
  receives : Finishes raspikeProtReceive w fun r _ => r = -ENOTCONN
  again : ∀ d s, s.Answers → Finishes (raspikeProtInit (some d)) (w.facing d s) fun r _ => r = 0

/-- a HELLO that is refused, but not for its version, with capabilities or a session -/
structure Leftover (payload : List Byte) : Prop where
  version : payload.getD 0 0 = rpV2Version
  refused : ¬ HelloOk rpPortNone payload
  tells : payload.getD 1 0 ≠ 0 ∨ rpV2GetU32 (payload.drop 4) ≠ 0

/-- the init fails cleanly: of the mode, the send buffer and the script of the device -/
structure Clean (desc : Option Nat) (w : Solo) : Prop where
  given : desc = none → w.mem.fgSessionId = 0 ∧ w.mem.fgCapabilities = 0
  hello : ∀ d payload, desc = some d → w.mem.callocFails = false →
    (w.mem.peer d).offers = some payload → ¬ Leftover payload
  unasked : desc = none ∨ w.mem.callocFails = true → w.mem.Roomy
  room : ∀ d, desc = some d → w.mem.callocFails = false → (w.mem.peer d).HasRoom rpHandshakeAttempts

/-! ## calls without a connection -/

section
variable {w : Solo} (hdown : w.mem.fgDesc = none) (hfree : w.own = noneHeld)

omit hdown hfree in
theorem path_kept {w w' : Solo} (h : Path (fun m _ m' => SameLink m m') w w') : SameLink w.mem w'.mem := by
  induction h with
  | refl => exact ⟨rfl, rfl, rfl, rfl, rfl, rfl⟩
  | own _ _ ih => exact ih
  | act _ hA ih => exact ih.trans hA

omit hdown hfree in
theorem nextSequence_runs {O : Owners} (hl : O .fgSequence = none) :
    Runs (fun m _ m' => SameLink m m') O nextSequence O := by
  have hact : ∀ {γ : Type} {O : Owners} {e : Mem → Option Event} {f : Mem → γ × Mem},
      (∀ m, SameLink m (f m).2) → Runs (fun m _ m' => SameLink m m') O (.act e f .ret : P γ) O :=
    fun h => Runs.act h
  apply (Runs.lock hl).bind
  intro _
  apply (hact fun m => ⟨rfl, rfl, rfl, rfl, rfl, rfl⟩).bind
  intro sequence
  apply (hact fun m => ⟨rfl, rfl, rfl, rfl, rfl, rfl⟩).bind
  intro next
  apply Runs.bind (M := Function.update O .fgSequence (some ()))
  · split
    · exact hact fun m => ⟨rfl, rfl, rfl, rfl, rfl, rfl⟩
    · exact Runs.pure _
  intro _
  exact (Runs.unlock_locked hl).bind fun _ => Runs.pure _

theorem raspikeLinkGetStats_finishes (hl : w.own .fgLinkStats = none) :
    Finishes (raspikeLinkGetStats true) w fun r _ => ∃ s, r = .ok s ∧
      s.sessionId = w.mem.fgSessionId ∧ s.capabilities = w.mem.fgCapabilities := by
  apply finish_bind
  apply finish_lock hl
  iterate 4
    apply finish_bind
    apply finish_load
  apply finish_bind
  apply finish_unlock
  apply finish_pure
  exact ⟨_, rfl, rfl, rfl⟩

include hdown

theorem sendFrame_refused (hl : w.own .fgSend = none) (port cmd : Byte) (payload : Buf) (size : Int)
    (sequence : U32) (flags : Byte) (flushNow : Bool) :
    Finishes (sendFrame port cmd payload size sequence flags flushNow) w fun r w' =>
      r = -ENOTCONN ∧ w'.own = w.own := by
  apply finish_bind
  apply finish_tick
  apply finish_bind
  apply finish_lock
  case hl => exact hl
  apply finish_bind
  apply finish_tick
  apply finish_bind
  apply finish_orElse
  apply finish_load
  rw [if_pos (by simp [World.acquire, hdown]), if_pos rfl]
  apply finish_bind
  apply finish_unlock
  apply finish_bind
  apply finish_tick
  apply finish_pure
  exact ⟨rfl, release_acquired hl rfl⟩

include hfree

theorem numbered_refused {p : U32 → P Int} (hp : ∀ sequence w', w'.mem.fgDesc = none →
    w'.own = noneHeld → Finishes (p sequence) w' fun r _ => r = -ENOTCONN) :
    Finishes (nextSequence >>= p) w fun r _ => r = -ENOTCONN := by
  apply finish_seq (nextSequence_runs rfl w hfree)
  rintro sequence w₁ ⟨hfree₁, hpath⟩
  exact hp sequence w₁ ((path_kept hpath).desc.trans hdown) hfree₁

theorem raspikeRequest_refused (hv2 : w.mem.fgUseProtocolV2 = false) {port : Byte}
    (hport : raspikeIsValidPort port = true) (cmd : Byte) (data : Buf) (size : Int) :
    Finishes (raspikeRequest port cmd data size) w fun r _ => r = -ENOTCONN := by
  obtain ⟨i, hi⟩ := Option.isSome_iff_exists.mp ((getDevice_isSome port).trans hport)
  unfold raspikeRequest
  rw [hport, if_neg (by decide), hi]
  -- the request mutex is held from here on, the others are free
  let O := Function.update noneHeld (.request i) (some ())
  have hport : O (.port i) = none := rfl
  have hsend : O .fgSend = none := rfl
  have hsequence : O .fgSequence = none := rfl
  apply finish_bind
  apply finish_lock (congrFun hfree _)
  have hown : (World.acquire w () (Mutex.request i)).own = O := by
    rw [World.acquire, hfree]
  apply finish_seq (R := fun sequence w' => w'.own = O ∧ w'.mem.fgDesc = none ∧
    w'.mem.fgUseProtocolV2 = false ∧ (w'.mem.gPortDevices i).pending = true)
  · apply finish_seq (nextSequence_runs hsequence _ hown)
    rintro sequence w₁ ⟨hown₁, hpath⟩
    have hkept := path_kept hpath
    apply finish_bind
    apply finish_lock
    case hl => rw [hown₁, hport]
    apply finish_bind
    apply finish_act
    apply finish_bind
    apply finish_unlock
    apply finish_pure
    have hl : w₁.own (.port i) = none := by rw [hown₁, hport]
    refine ⟨(release_acquired hl rfl).trans hown₁, hkept.desc.trans hdown, hkept.v2.trans hv2, ?_⟩
    simp [World.release, World.act, Mem.setPort]
  rintro sequence w₁ ⟨hown₁, hdown₁, hv2₁, hpending₁⟩
  have hl₁ : w₁.own (.port i) = none := by rw [hown₁, hport]
  apply finish_bind
  apply finish_load
  rw [hv2₁, if_neg (by decide)]
  apply finish_seq (R := fun waited w' => waited = (-ENOTCONN, false) ∧ w'.own = O)
  · apply finish_bind
    apply finish_lock hl₁
    apply finish_bind
    apply finish_load
    rw [show (World.acquire w₁ () (Mutex.port i)).mem = w₁.mem from rfl, hpending₁]
    apply finish_bind
    apply finish_unlock
    rw [if_neg (by decide)]
    have hown₂ : ((World.acquire w₁ () (Mutex.port i)).release (.port i)).own = O :=
      (release_acquired hl₁ rfl).trans hown₁
    have hl₂ : ((World.acquire w₁ () (Mutex.port i)).release (.port i)).own .fgSend = none := by
      rw [hown₂, hsend]
    have hdown₂ : ((World.acquire w₁ () (Mutex.port i)).release (.port i)).mem.fgDesc = none := hdown₁
    apply finish_seq (sendFrame_refused hdown₂ hl₂ port cmd data size sequence _ _)
    rintro _ w₂ ⟨rfl, hown₃⟩
    rw [if_pos (by decide)]
    apply finish_bind
    apply finish_tick
    apply finish_pure
    exact ⟨rfl, hown₃.trans hown₂⟩
  rintro _ w₂ ⟨rfl, hown₂⟩
  apply finish_bind
  apply finish_lock
  case hl => rw [hown₂, hport]
  apply finish_bind
  apply finish_load
  apply finish_bind
  apply finish_bind
  apply finish_pure
  apply finish_pure
  apply finish_bind
  apply finish_act
  apply finish_bind
  apply finish_unlock
  apply finish_bind
  apply finish_unlock
  exact finish_pure rfl

theorem raspikeProtReceive_refused : Finishes raspikeProtReceive w fun r _ => r = -ENOTCONN := by
  apply finish_bind
  apply finish_lock (congrFun hfree _)
  apply finish_seq (R := fun down w' => down = true)
  · apply finish_orElse
    apply finish_load
    split
    · rfl
    apply finish_orElse
    apply finish_load
    rw [if_pos (by simp [World.acquire, hdown])]
  rintro _ w₁ rfl
  rw [if_pos rfl]
  apply finish_bind
  apply finish_unlock
  exact finish_pure rfl

end

/-! ## the next init -/

/-- the input of `d` is discarded -/
structure Discarded (d : Nat) (w w' : Solo) : Prop where
  own : w'.own = w.own
  kept : SameLink w.mem w'.mem
  mode : w'.mem.com.fgSendMode = w.mem.com.fgSendMode
  buffer : w'.mem.com.fgSendBuffer = w.mem.com.fgSendBuffer
  usb : (w'.mem.com.desc d).type = (w.mem.com.desc d).type
  fd : (w'.mem.com.desc d).desc = (w.mem.com.desc d).desc
  tx : Solo.tx w' d = Solo.tx w d
  rx : Solo.rx w' d = (w.mem.com.desc d).kept

section
variable {d : Nat} {w : Solo}

theorem raspikeComDiscardInput_finishes (husb : (w.mem.com.desc d).type = rpComTypeUsb)
    (hfd : 0 ≤ (w.mem.com.desc d).desc) :
    Finishes (raspikeComDiscardInput (some d)) w fun _ => Discarded d w := by
  have hgot : (if (w.mem.com.desc d).type ≠ rpComTypeUsb then -1 else (w.mem.com.desc d).desc) =
      (w.mem.com.desc d).desc := if_neg (not_not.mpr husb)
  apply finish_bind
  apply finish_load
  rw [hgot, if_neg (Int.not_lt.mpr hfd)]
  apply finish_seq (R := fun _ => Discarded d w)
  · apply finish_act
    refine ⟨rfl, ?_, ?_, ?_, ?_, ?_, ?_, ?_⟩
    · simp only [World.act]
      split <;> exact ⟨rfl, rfl, rfl, rfl, rfl, rfl⟩
    all_goals
      simp only [World.act, Solo.tx, Solo.rx, RPComDescriptor.kept]
      split
      all_goals simp_all [Mem.setDesc]
  · intro r w₁ h
    cases r <;> exact finish_pure h

/-- an init is given up: descriptor and saved status go, and nothing else changes -/
structure GivenUp (w w' : Solo) : Prop where
  own : w'.own = noneHeld
  desc : w'.mem.fgDesc = none
  status : w'.mem.fgStatus = none
  handshake : w'.mem.fgHandshakeComplete = w.mem.fgHandshakeComplete
  v2 : w'.mem.fgUseProtocolV2 = w.mem.fgUseProtocolV2
  session : w'.mem.fgSessionId = w.mem.fgSessionId
  capabilities : w'.mem.fgCapabilities = w.mem.fgCapabilities
  com : w'.mem.com = w.mem.com

theorem freeStatus_finishes (w : Solo) : Finishes freeStatus w fun _ w' => w'.own = w.own ∧ ∃ heap,
    w'.mem = { w.mem with heap := heap } := by
  apply finish_act
  refine ⟨rfl, ?_⟩
  simp only [World.act]
  split <;> exact ⟨_, rfl⟩

theorem initFailed_finishes (hfree : w.own = noneHeld) (error : Int) :
    Finishes (initFailed error) w fun r w' => r = error ∧ GivenUp w w' := by
  apply finish_seq (freeStatus_finishes w)
  rintro _ w₁ ⟨hown, heap, hmem⟩
  apply finish_bind
  apply finish_modify
  apply finish_seq (clearDesc_finishes (w := ⟨{ w₁.mem with fgStatus := none }, w₁.own, w₁.trace⟩)
    (hown.trans hfree))
  rintro _ w₂ ⟨hfree₂, hmem₂⟩
  rw [hmem] at hmem₂
  apply finish_pure
  refine ⟨rfl, hfree₂, ?_, ?_, ?_, ?_, ?_, ?_, ?_⟩ <;> rw [hmem₂]

/-- the handshake begins: the descriptor is set, and its device is to be asked -/
structure Asking (d : Nat) (w : Solo) : Prop where
  desc : w.mem.fgDesc = some d
  own : w.own = noneHeld
  usb : (w.mem.com.desc d).type = rpComTypeUsb
  fd : 0 ≤ (w.mem.com.desc d).desc
  willing : ∀ x ∈ Solo.tx w d, Willing x

theorem Discarded.asking {w' : Solo} (h : Discarded d w w') (ha : Asking d w) : Asking d w' :=
  ⟨h.kept.desc.trans ha.desc, h.own.trans ha.own, h.usb.trans ha.usb, h.fd.symm ▸ ha.fd,
    h.tx.symm ▸ ha.willing⟩

theorem Discarded.roomy {w' : Solo} (h : Discarded d w w') : w'.mem.Roomy ↔ w.mem.Roomy := by
  rw [Mem.Roomy, Mem.Roomy, h.mode, h.buffer]

/-- the end of an init that succeeds -/
theorem connected_finishes (hl : w.own .comSend = none) : Finishes (do
    modify fun m => { m with fgHandshakeComplete := true }
    raspikeUsbSetMode .normal
    return 0 : P Int) w fun r _ => r = 0 := by
  apply finish_bind
  apply finish_modify
  apply finish_bind
  · apply finish_bind
    apply finish_lock
    case hl => exact hl
    apply finish_bind
    apply finish_modify
    apply finish_unlock
    exact finish_pure rfl

theorem performHandshake_answered {payload : List Byte} (ha : Asking d w)
    (hs : (w.mem.com.desc d).AnswersWith payload) (hroom : w.mem.Roomy) :
    Finishes performHandshake w fun r w' => r = 0 ∧ Attached d w' ∧ versionMatches w'.mem = true ∧
      ∃ more, arrives (Solo.rx w' d) =
        [] ++ (legacyFrame rpPortNone rpCmdIdLinkHello payload ++ more) := by
  obtain ⟨more, hanswer⟩ := hs.answer
  show Finishes (handshakeAttempts (4 + 1) (-ETIMEDOUT)) w _
  apply finish_bind
  apply finish_load
  rw [ha.desc]
  apply finish_seq (raspikeComDiscardInput_finishes ha.usb ha.fd)
  intro _ w₁ hd
  have ha₁ := hd.asking ha
  have hattached : Attached d w₁ :=
    ⟨⟨ha₁.usb, ha₁.fd, hd.rx.symm ▸ hs.ready⟩, ha₁.desc, congrFun ha₁.own⟩
  apply finish_seq
  · apply performHandshakeOnce_finishes hattached ⟨ha₁.willing, hd.roomy.mpr hroom⟩
    intro w₂ ha₂ hsame
    have hversion : [spikeExpectedVersion.1, spikeExpectedVersion.2.1, spikeExpectedVersion.2.2].length =
      3 := rfl
    apply handshakeAnswer_finds hversion ha₂ List.not_mem_nil
    rw [hsame, hd.rx]
    exact hanswer
  rintro _ w₂ ⟨rfl, ha₂, hrx₂, hversion₂⟩
  rw [if_pos rfl]
  exact finish_pure ⟨rfl, ha₂, beq_iff_eq.mpr hversion₂, more, hrx₂⟩

/-- with the right answers the init succeeds, with a HELLO that is refused it fails -/
theorem initNegotiate_answered {payload : List Byte} (ha : Asking d w)
    (hs : (w.mem.com.desc d).AnswersWith payload) (hroom : w.mem.Roomy) :
    Finishes initNegotiate w fun r _ => (HelloOk rpPortNone payload → r = 0) ∧
      (¬ HelloOk rpPortNone payload → r < 0) := by
  apply finish_seq (performHandshake_answered ha hs hroom)
  rintro _ w₁ ⟨rfl, ha₁, hmatches, more, hrx₁⟩
  rw [if_neg (by decide)]
  apply finish_bind
  apply finish_load
  rw [hmatches, if_neg (by decide)]
  apply finish_seq (receiveLegacyHello_finishes ha₁ hs.size List.not_mem_nil hrx₁)
  intro r w₂ hend
  by_cases hok : HelloOk rpPortNone payload
  · rw [if_neg (by rw [hend.accepted.mpr hok]; decide)]
    apply finish_mono (connected_finishes (hend.free _))
    exact fun _ _ hr => ⟨fun _ => hr, fun hno => (hno hok).elim⟩
  · rw [if_pos (hend.refused hok)]
    apply finish_mono (initFailed_finishes (funext hend.free) r)
    rintro _ _ ⟨rfl, -⟩
    exact ⟨fun h => (hok h).elim, fun _ => hend.refused hok⟩

theorem Moved.asking {w' : Solo} {out B : List Byte} (h : Moved d w out B w') (ha : Asking d w) :
    Asking d w' := by
  refine ⟨h.desc.trans ha.desc, h.own.trans ha.own, ?_, ?_, h.willing⟩
  · rw [h.com]
    simpa [Mem.setDesc] using ha.usb
  · rw [h.com]
    simpa [Mem.setDesc] using ha.fd

theorem Moved.roomy {w' : Solo} {out : List Byte} (h : Moved d w out w.mem.com.fgSendBuffer w') :
    w'.mem.Roomy ↔ w.mem.Roomy := by
  rw [Mem.Roomy, Mem.Roomy, h.com]

/-- the request finds no room in the send buffer -/
theorem performHandshakeOnce_clogged (ha : Asking d w) (hclog : ¬ w.mem.Roomy) :
    Finishes performHandshakeOnce w fun r w' => r < 0 ∧ Asking d w' ∧ ¬ w'.mem.Roomy := by
  obtain ⟨hmode, hfull⟩ := Classical.not_imp.mp hclog
  apply finish_bind
  apply finish_load
  rw [ha.desc]
  apply finish_seq (raspikeComSend_moves ⟨ha.usb, ha.fd, ha.willing⟩ (congrFun ha.own _))
  intro sent w₁ hout
  obtain ⟨hsent, hm⟩ := hout.full hmode hfull
  rw [if_pos hsent]
  exact finish_pure ⟨hsent, hm.asking ha, fun h => hclog (hm.roomy.mp h)⟩

theorem handshakeAttempts_clogged (n : Nat) {r : Int} (hr : r < 0) (ha : Asking d w)
    (hclog : ¬ w.mem.Roomy) :
    Finishes (handshakeAttempts n r) w fun r' w' => r' < 0 ∧ w'.own = noneHeld := by
  induction n generalizing w r with
  | zero => exact finish_pure ⟨hr, ha.own⟩
  | succ n ih =>
    apply finish_bind
    apply finish_load
    rw [ha.desc]
    apply finish_seq (raspikeComDiscardInput_finishes ha.usb ha.fd)
    intro _ w₁ hd
    apply finish_seq (performHandshakeOnce_clogged (hd.asking ha) fun h => hclog (hd.roomy.mp h))
    rintro result w₂ ⟨hresult, ha₂, hclog₂⟩
    rw [if_neg (Int.ne_of_lt hresult)]
    exact ih hresult ha₂ hclog₂

theorem initNegotiate_clogged (ha : Asking d w) (hclog : ¬ w.mem.Roomy) :
    Finishes initNegotiate w fun r _ => r < 0 := by
  apply finish_seq (handshakeAttempts_clogged rpHandshakeAttempts (by decide) ha hclog)
  rintro r w₁ ⟨hr, hfree₁⟩
  rw [if_pos hr]
  apply finish_mono (initFailed_finishes hfree₁ r)
  rintro _ _ ⟨rfl, -⟩
  exact hr

theorem initBegin_facing {s : RPComDescriptor} {payload : List Byte} (hs : s.AnswersWith payload)
    (hdown : w.mem.fgDesc = none) (hfree : w.own = noneHeld) :
    Finishes (initBegin (some d)) (w.facing d s) fun x w' => x = none ∧ Asking d w' ∧
      w'.mem.com.desc d = s ∧ (w'.mem.Roomy ↔ w.mem.Roomy) := by
  have hdown' : (w.facing d s).mem.fgDesc = none := hdown
  apply finish_mono (initBegin_finishes hdown' hfree)
  intro x w₁ h
  obtain ⟨hx, hdesc⟩ := h.goesOn rfl
  have hsame : w₁.mem.com.desc d = s := by
    rw [h.com]
    exact Function.update_self ..
  refine ⟨hx, ⟨hdesc, h.own, ?_, ?_, ?_⟩, hsame, ?_⟩
  · rw [hsame]
    exact hs.usb
  · rw [hsame]
    exact hs.fd
  · rw [Solo.tx, hsame]
    exact hs.willing
  · rw [Mem.Roomy, h.com]
    exact Iff.rfl

/-- with the right answers an init succeeds exactly if the send buffer has room for its request -/
theorem raspikeProtInit_again {s : RPComDescriptor} (hs : s.Answers) (hdown : w.mem.fgDesc = none)
    (hfree : w.own = noneHeld) :
    Finishes (raspikeProtInit (some d)) (w.facing d s) (fun r _ => r = 0) ↔ w.mem.Roomy := by
  obtain ⟨payload, hok, hanswers⟩ := hs
  have hbegin := initBegin_facing (d := d) hanswers hdown hfree
  rw [raspikeProtInit_eq]
  constructor
  · rintro ⟨r, w', he, hr⟩
    by_contra hclog
    have hfails : Finishes (initBegin (some d) >>= fun x => x.elim initNegotiate pure) (w.facing d s)
        fun r _ => r < 0 := by
      apply finish_seq hbegin
      rintro _ w₁ ⟨rfl, ha, -, hroom⟩
      exact initNegotiate_clogged ha fun h => hclog (hroom.mp h)
    exact Int.ne_of_lt (hfails.ends he) hr
  · intro hroom
    apply finish_seq hbegin
    rintro _ w₁ ⟨rfl, ha, hsame, hroomy⟩
    apply finish_mono (initNegotiate_answered ha (hsame ▸ hanswers) (hroomy.mpr hroom))
    exact fun _ _ h => h.1 hok

end

/-- a device that answers, with the HELLO `payload` -/
def answering (payload : List Byte) : RPComDescriptor :=
  ⟨rpComTypeUsb, 3, [.data ([rpCmdInit, rpCmdInitMagic] ++
    ([spikeExpectedVersion.1, spikeExpectedVersion.2.1, spikeExpectedVersion.2.2] ++
      (legacyFrame rpPortNone rpCmdIdLinkHello payload ++ [])))], [], [], []⟩

theorem answering_answers {payload : List Byte} (hlen : payload.length = rpV2HelloPayloadSize) :
    (answering payload).AnswersWith payload := by
  refine ⟨rfl, Int.le.intro 3 rfl, nofun, fun x hx => ?_, hlen, [], List.append_nil _⟩
  rw [List.mem_singleton.mp hx]
  exact List.cons_ne_nil _ _

theorem plainDevice_answers : (answering plainHello).Answers :=
  ⟨plainHello, plainHello_ok, answering_answers rfl⟩

/-! ## how an init fails -/

/-- where it fails, with `x` and `w₁` the end of `initHandshake`, and what it leaves of a HELLO -/
inductive Failing (desc : Option Nat) (w : Solo) (x : Option Int) (w₁ w' : Solo) : Prop
  | refused (hdesc : desc = none) (e : Int) (hx : x = some e) (hw : w' = w)
  | early (hdesc : desc ≠ none) (e : Int) (hx : x = some e) (hs : w'.mem.fgSessionId = 0)
      (hc : w'.mem.fgCapabilities = 0)
  | unread (hdesc : desc ≠ none) (hx : x = none) (e : Int) (w₂ : Solo)
      (hread : Ends helloRead w₁ (.error e) w₂) (hs : w'.mem.fgSessionId = 0)
      (hc : w'.mem.fgCapabilities = 0)
  | read (hdesc : desc ≠ none) (hx : x = none) (payload : List Byte) (w₂ : Solo)
      (hread : Ends helloRead w₁ (.ok payload) w₂) (hno : ¬ HelloOk rpPortNone payload)
      (hother : payload.getD 0 0 ≠ rpV2Version →
        w'.mem.fgSessionId = 0 ∧ w'.mem.fgCapabilities = 0)
      (hstored : payload.getD 0 0 = rpV2Version →
        w'.mem.fgSessionId = rpV2GetU32 (payload.drop 4) ∧ w'.mem.fgCapabilities = payload.getD 1 0)

section
variable {desc : Option Nat} {w w' : Solo} {r : Int}

theorem unlessFailed_some {p q : P (Option Int)} {e : Int} (h : Ends p w (some e) w') :
    Ends (unlessFailed p q) w (some e) w' :=
  h.bind .ret

theorem unlessFailed_none {p q : P (Option Int)} {w₁ : Solo} {x : Option Int} (h : Ends p w none w₁)
    (hq : Ends q w₁ x w') : Ends (unlessFailed p q) w x w' :=
  h.bind hq

theorem Listened.roomy (h : Listened w w') : w'.mem.Roomy ↔ w.mem.Roomy := by
  obtain ⟨devices, hmem⟩ := h.mem
  rw [hmem]
  exact Iff.rfl

theorem helloRead_listens : Listens helloRead := by
  apply (scanForByte_listens _).bind
  intro found
  split
  case isTrue => exact Listens.pure _
  apply Listens.load.bind
  intro desc
  apply (raspikeComReceiveTimeout_listens _ _).bind
  intro r
  cases r with
  | error e => exact Listens.pure _
  | ok header =>
  apply (Listens.pure _).bind
  intro header
  dsimp only
  split
  case isTrue => exact Listens.pure _
  exact Listens.load.bind fun desc => raspikeComReceiveTimeout_listens _ _

/-- an init that is given up leaves the library disconnected -/
theorem GivenUp.down (h : GivenUp w w') (hh : w.mem.fgHandshakeComplete = false)
    (hv : w.mem.fgUseProtocolV2 = false) : Disconnected w'.mem :=
  ⟨h.desc, h.status, h.handshake.trans hh, h.v2.trans hv⟩

theorem GivenUp.roomy (h : GivenUp w w') : w'.mem.Roomy ↔ w.mem.Roomy := by
  rw [Mem.Roomy, Mem.Roomy, h.com]

/-- how a failed init leaves the library -/
structure FailedInit (desc : Option Nat) (w w' : Solo) (x : Option Int) (w₁ : Solo) : Prop where
  stage : Ends (initHandshake desc) w x w₁
  own : w'.own = noneHeld
  down : Disconnected w'.mem
  room : w'.mem.Roomy ↔ w₁.mem.Roomy
  failing : Failing desc w x w₁ w'

/-- the HELLO of an init that fails -/
theorem hello_failed {w₁ : Solo} (hdesc : desc ≠ none) (hstage : Ends (initHandshake desc) w none w₁)
    (hfree : w₁.own = noneHeld) (hbegun : Begun w₁.mem) (hr : r < 0)
    (he : Ends (do
      let ret ← receiveLegacyHello
      if ret < 0 then initFailed ret else
      modify fun m => { m with fgHandshakeComplete := true }
      raspikeUsbSetMode .normal
      return 0 : P Int) w₁ r w') : FailedInit desc w w' none w₁ := by
  obtain ⟨ret, w₃, hhello, hrest⟩ := Ends.of_bind he rfl
  rw [receiveLegacyHello_eq] at hhello
  obtain ⟨read, w₂, hread, hend⟩ := Ends.of_bind hhello rfl
  have hlistened := helloRead_listens.ends hread
  have hbegun₂ := hlistened.kept.begun hbegun
  have hgiven : w₃.own = noneHeld → ret < 0 ∧ GivenUp w₃ w' := by
    intro hfree₃
    by_cases hret : ret < 0
    · rw [if_pos hret] at hrest
      exact ⟨hret, ((initFailed_finishes hfree₃ ret).ends hrest).2⟩
    · rw [if_neg hret] at hrest
      have hzero := (connected_finishes (congrFun hfree₃ _)).ends hrest
      omega
  cases read with
  | error e =>
    cases hend
    obtain ⟨-, hg⟩ := hgiven (hlistened.own.trans hfree)
    exact ⟨hstage, hg.own, hg.down hbegun₂.handshake hbegun₂.v2, hg.roomy.trans hlistened.roomy,
      .unread hdesc rfl _ _ hread (hg.session.trans hbegun₂.session)
        (hg.capabilities.trans hbegun₂.capabilities)⟩
  | ok payload =>
    have hstored := (helloTake_finishes payload w₂).ends hend
    obtain ⟨hret, hg⟩ := hgiven (hstored.own.trans (hlistened.own.trans hfree))
    have hno : ¬ HelloOk rpPortNone payload := fun hok => by
      have hzero := hstored.accepted.mpr hok
      omega
    by_cases hversion : payload.getD 0 0 = rpV2Version
    · obtain ⟨b, hb, hmem⟩ := hstored.stored hversion
      have hv2 : b = false := (hb.resolve_left (Int.ne_of_lt hret)).trans hbegun₂.v2
      have hroomy : w₃.mem.Roomy ↔ w₂.mem.Roomy := by
        rw [hmem]
        exact Iff.rfl
      refine ⟨hstage, hg.own, hg.down ?_ ?_, hg.roomy.trans (hroomy.trans hlistened.roomy),
        .read hdesc rfl payload w₂ hread hno (fun h => (h hversion).elim) fun _ => ⟨?_, ?_⟩⟩
      · rw [hmem]
        exact hbegun₂.handshake
      · rw [hmem]
        exact hv2
      · rw [hg.session, hmem]
      · rw [hg.capabilities, hmem]
    · obtain rfl := hstored.otherwise hversion
      exact ⟨hstage, hg.own, hg.down hbegun₂.handshake hbegun₂.v2, hg.roomy.trans hlistened.roomy,
        .read hdesc rfl payload w₃ hread hno (fun _ => ⟨hg.session.trans hbegun₂.session,
          hg.capabilities.trans hbegun₂.capabilities⟩) fun h => (hversion h).elim⟩

theorem raspikeProtInit_failed (hd : Disconnected w.mem) (hfree : w.own = noneHeld)
    (he : Ends (raspikeProtInit desc) w r w') (hr : r < 0) : ∃ x w₁, FailedInit desc w w' x w₁ := by
  cases desc with
  | none =>
    cases he
    exact ⟨some (-EINVAL), w, unlessFailed_some (unlessFailed_some .ret), hfree, hd, Iff.rfl,
      .refused rfl _ rfl rfl⟩
  | some d =>
  rw [raspikeProtInit_eq] at he
  obtain ⟨x, w₁, hbegin, hrest⟩ := Ends.of_bind he rfl
  have hb := (initBegin_finishes hd.desc hfree).ends hbegin
  cases x with
  | some e =>
    cases hrest
    cases hcalloc : w.mem.callocFails with
    | false => cases (hb.goesOn hcalloc).1
    | true =>
      obtain ⟨-, hdesc₁, hstatus₁⟩ := hb.fails hcalloc
      exact ⟨some r, w', unlessFailed_some hbegin, hb.own,
        ⟨hdesc₁, hstatus₁, hb.begun.handshake, hb.begun.v2⟩, Iff.rfl,
        .early nofun _ rfl hb.begun.session hb.begun.capabilities⟩
  | none =>
  obtain ⟨ret, w₂, hshake, hrest⟩ := Ends.of_bind hrest rfl
  obtain ⟨hfree₂, hkept⟩ := performHandshake_keeps hshake hb.own
  have hbegun₂ := hkept.begun hb.begun
  have hearly : ∀ e, Ends (initHandshake (some d)) w (some e) w₂ → GivenUp w₂ w' →
      ∃ x w₁, FailedInit (some d) w w' x w₁ := fun e hstage hg =>
    ⟨some e, w₂, hstage, hg.own, hg.down hbegun₂.handshake hbegun₂.v2, hg.roomy,
      .early nofun _ rfl (hg.session.trans hbegun₂.session)
        (hg.capabilities.trans hbegun₂.capabilities)⟩
  by_cases hret : ret < 0
  · rw [if_pos hret] at hrest
    obtain ⟨-, hg⟩ := (initFailed_finishes hfree₂ ret).ends hrest
    refine hearly ret (unlessFailed_none hbegin (hshake.bind ?_)) hg
    rw [if_pos hret]
    exact .ret
  rw [if_neg hret] at hrest
  obtain ⟨supported, w₃, hload, hrest⟩ := Ends.of_bind hrest rfl
  cases hload with
  | act hload =>
  cases hload
  have hchecked : ∀ x, Ends (if !(versionMatches w₂.mem) then pure (some (-EPROTONOSUPPORT)) else pure none :
      P (Option Int)) w₂ x w₂ → Ends (initHandshake (some d)) w x w₂ := by
    intro x hx
    refine unlessFailed_none hbegin (hshake.bind ?_)
    rw [if_neg hret]
    exact .act hx
  by_cases hmatches : versionMatches w₂.mem = true
  · have hnone : Ends (initHandshake (some d)) w none w₂ := by
      apply hchecked
      rw [hmatches]
      exact .ret
    refine ⟨none, w₂, hello_failed nofun hnone hfree₂ hbegun₂ hr ?_⟩
    change Ends (if (!versionMatches w₂.mem) = true then _ else _) _ _ _ at hrest
    rw [hmatches] at hrest
    exact hrest
  · have hwrong : versionMatches w₂.mem = false := Bool.eq_false_iff.mpr hmatches
    change Ends (if (!versionMatches w₂.mem) = true then _ else _) _ _ _ at hrest
    rw [hwrong] at hrest
    obtain ⟨-, hg⟩ := (initFailed_finishes hfree₂ _).ends hrest
    refine hearly (-EPROTONOSUPPORT) (hchecked _ ?_) hg
    rw [hwrong]
    exact .ret

/-- what is left of the HELLO, in terms of the device -/
theorem FailedInit.told {x : Option Int} {w₁ : Solo} (h : FailedInit desc w w' x w₁)
    (hdown : w.mem.fgDesc = none) (hfree : w.own = noneHeld) :
    (w'.mem.fgSessionId = 0 ∧ w'.mem.fgCapabilities = 0) ↔
      (desc = none → w.mem.fgSessionId = 0 ∧ w.mem.fgCapabilities = 0) ∧
        ∀ d payload, desc = some d → w.mem.callocFails = false →
          (w.mem.peer d).offers = some payload → ¬ Leftover payload := by
  have hstages : ∀ {d}, desc = some d → (w.mem.callocFails = true → x ≠ none ∧ w₁.mem.com = w.mem.com) ∧
      (w.mem.callocFails = false → Negotiated d (w.mem.peer d) x w₁) := fun hd =>
    (initHandshake_told hdown hfree).ends _ _ (hd ▸ h.stage)
  cases h.failing with
  | refused hdesc e hx hw =>
    subst hw
    refine ⟨fun hzero => ⟨fun _ => hzero, fun d payload hd => ?_⟩, fun hclean => hclean.1 hdesc⟩
    cases hdesc.symm.trans hd
  | early hdesc e hx hs hc =>
    refine ⟨fun _ => ⟨fun hnone => (hdesc hnone).elim, fun d payload hd hcalloc ho => ?_⟩,
      fun _ => ⟨hs, hc⟩⟩
    -- the handshake has failed, so nothing is offered
    have hno := mt ((hstages hd).2 hcalloc).version.mpr (by rw [hx]; exact Option.some_ne_none e)
    rw [Peer.offers_eq, if_neg hno] at ho
    cases ho
  | unread hdesc hx e w₂ hread hs hc =>
    refine ⟨fun _ => ⟨fun hnone => (hdesc hnone).elim, fun d payload hd hcalloc ho => ?_⟩,
      fun _ => ⟨hs, hc⟩⟩
    have hok := ((helloRead_told (hx ▸ (hstages hd).2 hcalloc)).ends _ _ hread payload).mpr ho
    cases hok
  | read hdesc hx payload w₂ hread hno hother hstored =>
    obtain ⟨d, hd⟩ := Option.ne_none_iff_exists'.mp hdesc
    have hcalloc : w.mem.callocFails = false := by
      by_contra hfails
      exact ((hstages hd).1 (Bool.not_eq_false _ ▸ hfails)).1 hx
    have hthis := (helloRead_told (hx ▸ (hstages hd).2 hcalloc)).ends _ _ hread
    constructor
    · rintro ⟨hs, hc⟩
      refine ⟨fun hnone => (hdesc hnone).elim, fun d' payload' hd' _ ho hleft => ?_⟩
      cases hd.symm.trans hd'
      cases (hthis payload').mpr ho
      obtain ⟨hsession, hcapabilities⟩ := hstored hleft.version
      rcases hleft.tells with htells | htells
      · exact htells (hcapabilities.symm.trans hc)
      · exact htells (hsession.symm.trans hs)
    · rintro ⟨-, hclean⟩
      by_cases hversion : payload.getD 0 0 = rpV2Version
      · obtain ⟨hsession, hcapabilities⟩ := hstored hversion
        have hsilent := hclean d payload hd hcalloc ((hthis payload).mp rfl)
        rw [hsession, hcapabilities]
        by_contra hzero
        refine hsilent ⟨hversion, hno, ?_⟩
        rw [not_and_or] at hzero
        exact hzero.symm
      · exact hother hversion

/-- the room that is left, in terms of the device -/
theorem FailedInit.left {x : Option Int} {w₁ : Solo} (h : FailedInit desc w w' x w₁)
    (hdown : w.mem.fgDesc = none) (hfree : w.own = noneHeld) : w'.mem.Roomy ↔
      (desc = none ∨ w.mem.callocFails = true → w.mem.Roomy) ∧
        ∀ d, desc = some d → w.mem.callocFails = false → (w.mem.peer d).HasRoom rpHandshakeAttempts := by
  rw [h.room]
  cases desc with
  | none =>
    have hstage := h.stage
    cases hstage
    refine ⟨fun hroom => ⟨fun _ => hroom, fun d hd => ?_⟩, fun hroom => hroom.1 (.inl rfl)⟩
    cases hd
  | some d =>
    obtain ⟨hfails, hasks⟩ := (initHandshake_told hdown hfree).ends _ _ h.stage
    cases hcalloc : w.mem.callocFails with
    | true =>
      have hsame : w₁.mem.Roomy ↔ w.mem.Roomy := by
        rw [Mem.Roomy, Mem.Roomy, (hfails hcalloc).2]
      refine ⟨fun hroom => ⟨fun _ => hsame.mp hroom, fun _ _ hc => ?_⟩, fun hroom => hsame.mpr (hroom.1 (.inr rfl))⟩
      cases hc
    | false =>
      have hroomy : w₁.mem.Roomy ↔ (w.mem.peer d).HasRoom rpHandshakeAttempts :=
        (hasks hcalloc).faces.roomy.trans (Play.handshake_room _ (by decide) _)
      constructor
      · intro hroom
        refine ⟨fun hnot => ?_, fun d' hd' _ => ?_⟩
        · rcases hnot with hnot | hnot <;> cases hnot
        · cases hd'
          exact hroomy.mp hroom
      · exact fun hroom => hroomy.mpr (hroom.2 d rfl rfl)

/-- a library without a connection, a session and capabilities, in terms of its calls -/
theorem unconnected_iff (hd : Disconnected w.mem) (hfree : w.own = noneHeld) : Unconnected w ↔
    (w.mem.fgSessionId = 0 ∧ w.mem.fgCapabilities = 0) ∧ w.mem.Roomy := by
  constructor
  · intro h
    refine ⟨?_, ?_⟩
    · obtain ⟨r, w', he, s, hs, hsession, hcapabilities⟩ := h.stats
      obtain ⟨s', hs', hsession', hcapabilities'⟩ :=
        (raspikeLinkGetStats_finishes (congrFun hfree _)).ends he
      cases hs.symm.trans hs'
      exact ⟨hsession'.symm.trans hsession, hcapabilities'.symm.trans hcapabilities⟩
    · exact (raspikeProtInit_again plainDevice_answers hd.desc hfree).mp
        (h.again 0 _ plainDevice_answers)
  · rintro ⟨⟨hsession, hcapabilities⟩, hroom⟩
    refine ⟨hd, ?_, ?_, ?_, ?_, ?_, ?_⟩
    · apply finish_mono (raspikeLinkGetStats_finishes (congrFun hfree _))
      rintro r _ ⟨s, hs, hsame, hsame'⟩
      exact ⟨s, hs, hsame.trans hsession, hsame'.trans hcapabilities⟩
    · intro port cmd buf size
      apply numbered_refused hd.desc hfree
      intro sequence w₁ hdown₁ hfree₁
      exact finish_mono (sendFrame_refused hdown₁ (congrFun hfree₁ _) _ _ _ _ _ _ _) fun _ _ h => h.1
    · intro port cmd buf size
      apply numbered_refused hd.desc hfree
      intro sequence w₁ hdown₁ hfree₁
      exact finish_mono (sendFrame_refused hdown₁ (congrFun hfree₁ _) _ _ _ _ _ _ _) fun _ _ h => h.1
    · intro port cmd data size hport
      exact raspikeRequest_refused hd.desc hfree hd.v2 hport cmd data size
    · exact raspikeProtReceive_refused hd.desc hfree
    · intro d s hs
      exact (raspikeProtInit_again hs hd.desc hfree).mpr hroom

/-- **An init that fails** leaves the library disconnected exactly if the device offers no HELLO that is
refused and has capabilities or a session, unless the request of the next handshake finds no room. -/
theorem failed_init (hd : Disconnected w.mem) (hfree : w.own = noneHeld)
    (he : Ends (raspikeProtInit desc) w r w') (hr : r < 0) : Unconnected w' ↔ Clean desc w := by
  obtain ⟨x, w₁, h⟩ := raspikeProtInit_failed hd hfree he hr
  rw [unconnected_iff h.down h.own, h.told hd.desc hfree, h.left hd.desc hfree]
  constructor
  · rintro ⟨⟨hgiven, hhello⟩, hunasked, hroom⟩
    exact ⟨hgiven, hhello, hunasked, hroom⟩
  · intro hclean
    exact ⟨⟨hclean.given, hclean.hello⟩, hclean.unasked, hclean.room⟩

end

/-! ## a HELLO without framing, at the negotiation -/

/-- nothing is connected, and the hub answers with `bareHello` -/
def bareWorld : Solo := Solo.facing
  ⟨{ freshMem [] [] with
    fgDesc := none, fgStatus := none, fgHandshakeComplete := false, fgUseProtocolV2 := false },
    noneHeld, []⟩ 0 (answering bareHello)

theorem bareWorld_down : Disconnected bareWorld.mem := ⟨rfl, rfl, rfl, rfl⟩

theorem bareWorld_roomy : bareWorld.mem.Roomy := nofun

theorem bareWorld_begins : Finishes (initBegin (some 0)) bareWorld fun x w' => x = none ∧ Asking 0 w' ∧
    (w'.mem.com.desc 0).AnswersWith bareHello ∧ w'.mem.Roomy := by
  have hanswers : (answering bareHello).AnswersWith bareHello := answering_answers rfl
  apply finish_mono (initBegin_facing hanswers rfl rfl)
  rintro x w₁ ⟨hx, ha, hsame, hroomy⟩
  exact ⟨hx, ha, hsame ▸ hanswers, hroomy.mpr bareWorld_roomy⟩

theorem bareWorld_fails : Finishes (raspikeProtInit (some 0)) bareWorld fun r _ => r < 0 := by
  rw [raspikeProtInit_eq]
  apply finish_seq bareWorld_begins
  rintro _ w₁ ⟨rfl, ha, hs, hroom⟩
  apply finish_mono (initNegotiate_answered ha hs hroom)
  exact fun _ _ h => h.2 (bareHello_not_ok _)

theorem failed_init_bare : ∃ r w', Ends (raspikeProtInit (some 0)) bareWorld r w' ∧ r < 0 ∧
    (Unconnected w' ↔ Clean (some 0) bareWorld) := by
  obtain ⟨r, w', he, hr⟩ := bareWorld_fails
  exact ⟨r, w', he, hr, failed_init bareWorld_down rfl he hr⟩

theorem bareWorld_offers : (bareWorld.mem.peer 0).offers = some bareHello := by
  decide

/-- **The session of a refused HELLO** stays. -/
theorem refused_hello_stays : ∃ r w', Disconnected bareWorld.mem ∧ bareWorld.own = noneHeld ∧
    Ends (raspikeProtInit (some 0)) bareWorld r w' ∧ r < 0 ∧ ¬ Unconnected w' := by
  obtain ⟨r, w', he, hr⟩ := bareWorld_fails
  refine ⟨r, w', bareWorld_down, rfl, he, hr, fun hun => ?_⟩
  obtain ⟨x, w₁, h⟩ := raspikeProtInit_failed bareWorld_down rfl he hr
  obtain ⟨-, hclean⟩ := (h.told rfl rfl).mp ((unconnected_iff h.down h.own).mp hun).1
  exact hclean 0 bareHello rfl rfl bareWorld_offers ⟨rfl, bareHello_not_ok _, .inr (by decide)⟩

end RaspikeArt
