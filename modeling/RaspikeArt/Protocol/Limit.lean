import RaspikeArt.Model.Hub
import RaspikeArt.Model.Passes
import RaspikeArt.Transport.Consumed

/-!
# The payload limit of the hub

The HELLO of the hub announces a limit; the senders know another one, `RP_V2_MAX_PAYLOAD`.

* `underWay ss`       the bytes that the thread hands over in its current `raspike_com_send`;
* `TooLong limit`    they begin a v2 frame with a payload over the limit;
* `Hands limit p`    `p` hands over no such bytes; one lemma per function that sends;
* `announced ss`     the limit in the HELLO that `raspike_prot_init` has accepted;
* `payload_limit`    a thread whose payloads stay within the limit sends no frame over it.
-/

namespace RaspikeArt
open Threads

/-- the bytes of the `raspike_com_send` that the thread is in -/
def underWay : List OwnStep → Option (List Byte)
  | [] => none
  | s :: ss => match s.label with
    | some (.io _ (.send _)) => some []
    | some (.wrote _ bs) | some (.queued _ bs) => (underWay ss).map (· ++ bs)
    | some _ => none
    | none => underWay ss

def TooLong (limit : Nat) (bs : List Byte) : Prop :=
  bs.getD 0 0 = rpV2Start ∧ limit < (bs.getD 5 0).toNat

instance (limit : Nat) (bs : List Byte) : Decidable (TooLong limit bs) := inferInstanceAs (Decidable (_ ∧ _))

def Limited (limit : Nat) (x : Option (List Byte)) : Prop := ∀ bs, x = some bs → ¬ TooLong limit bs

theorem limited_none (limit : Nat) : Limited limit none := nofun

/-- what the thread is handing over is within the limit -/
def InLimit (limit : Nat) (ss : List OwnStep) : Prop := Limited limit (underWay ss)

section
variable {limit : Nat}

/-- a part of a frame is as long as the frame says -/
theorem tooLong_take {bs : List Byte} {k : Nat} (h : TooLong limit (bs.take k)) : TooLong limit bs := by
  have hget : ∀ i, (bs.take k).getD i 0 = if i < k then bs.getD i 0 else 0 := by
    intro i
    rw [List.getD_eq_getElem?_getD, List.getElem?_take, List.getD_eq_getElem?_getD]
    split <;> rfl
  obtain ⟨hstart, hsize⟩ := h
  rw [hget] at hstart hsize
  by_cases hk : 5 < k
  · rw [if_pos hk] at hsize
    rw [if_pos (by omega)] at hstart
    exact ⟨hstart, hsize⟩
  · rw [if_neg hk] at hsize
    exact absurd hsize (Nat.not_lt_zero limit)

theorem v2Frame_limited (port cmd flags : Byte) (sequence session : U32) {payload : List Byte}
    (h : payload.length ≤ limit) : ¬ TooLong limit (v2Frame port cmd flags sequence session payload) := by
  rintro ⟨-, hsize⟩
  have hbyte : limit < (BitVec.ofNat 8 payload.length).toNat := hsize
  rw [BitVec.toNat_ofNat] at hbyte
  have := Nat.mod_le payload.length (2 ^ 8)
  omega

theorem legacyFrame_limited (port cmd : Byte) (payload : List Byte) :
    ¬ TooLong limit (legacyFrame port cmd payload) := by
  rintro ⟨hstart, -⟩
  have hne : rpCmdStart ≠ rpV2Start := by decide
  exact hne hstart

/-! ## what the functions hand over -/

/-- no own step hands over too much -/
def limiting (limit : Nat) : Local CondVar Event Mem :=
  recording (fun _ => True) fun ss s => InLimit limit (s :: ss)

def Hands {α : Type} (limit : Nat) (p : P α) : Prop := ∀ ss, InLimit limit ss →
  along (limiting limit) p (fun _ => InLimit limit) ss

/-- a label that is no input or output ends the send; without a label nothing is handed over -/
theorem sending_step {s : OwnStep} {ss : List OwnStep} (h : ∀ e, s.label = some e → ∀ d, e.kind ≠ .io d)
    (hss : InLimit limit ss) : InLimit limit (s :: ss) := by
  unfold InLimit underWay
  split
  case h_1 d buf hs => exact (h _ hs d rfl).elim
  case h_2 d bs hs => exact (h _ hs d rfl).elim
  case h_3 d bs hs => exact (h _ hs d rfl).elim
  · exact limited_none limit
  · exact hss

/-- the kinds of everything but input and output -/
def otherKinds : Set Kind := {k | ∀ d, k ≠ .io d}

theorem mem_other {k : Kind} (h : ∀ d, k ≠ .io d) : k ∈ otherKinds := h

theorem hands_passes (limit : Nat) : Passes (fun _ p => Hands limit p) otherKinds Set.univ where
  pure _ := fun _ h => h
  bind hp hq := fun ss h => along_seq (hp ss h) fun a ss' h' => hq a ss' h'
  does := by
    intro α p hp ss hss
    refine along_all (P := InLimit limit) ?_ ?_ hp Prog.Wakes.trivial Prog.Yields.trivial hss
      fun _ _ _ h => h
    · intro e f ss' m hacc h _
      have hstep : InLimit limit (.act m (e m) (f m) :: ss') := by
        obtain ⟨k, hk, hstep⟩ := hacc m
        exact sending_step (fun x hx => hstep.label x hx ▸ hk) h
      exact ⟨hstep, hstep⟩
    · exact fun _ ss' _ h => ⟨h, h⟩

section
variable {x : Option (List Byte)} {d : Nat} {buf : List Byte} {ss : List OwnStep}

/-- what has been handed over, of a whole `buf` -/
def HandedOver (x : Option (List Byte)) (buf : List Byte) (ss : List OwnStep) : Prop :=
  ∃ k, underWay ss = x.map (· ++ buf.take k)

theorem unlabelled_hands {α : Type} {f : Mem → α × Mem} {Q : α → List OwnStep → Prop}
    (hss : InLimit limit ss) (h : ∀ a ss', underWay ss' = underWay ss → Q a ss') :
    along (limiting limit) (.act (fun _ => none) f .ret : P α) Q ss :=
  along_act fun _ _ => ⟨hss, h _ _ rfl⟩

theorem clockLate_hands (hss : InLimit limit ss) :
    along (limiting limit) (clockLate d .tx) (fun _ ss' => underWay ss' = underWay ss) ss :=
  unlabelled_hands hss fun _ _ h => h

theorem waitFd_hands (hss : InLimit limit ss) :
    along (limiting limit) (waitFd d .tx) (fun _ ss' => underWay ss' = underWay ss) ss := by
  apply along_loop (fun _ ss' => underWay ss' = underWay ss) rfl
  intro _ ss₁ h₁
  apply along_seq (B := fun _ ss' => underWay ss' = underWay ss)
  · have hss₁ : InLimit limit ss₁ := fun bs hbs => hss bs (h₁ ▸ hbs)
    exact unlabelled_hands hss₁ fun _ _ h => h.trans h₁
  intro r ss₂ h₂
  split
  case h_1 e =>
    apply along_pure
    split <;> exact h₂
  all_goals exact h₂

theorem writeFd_hands {k : Nat} (hx : ∀ k, Limited limit (x.map (· ++ buf.take k)))
    (hss : underWay ss = x.map (· ++ buf.take k)) :
    along (limiting limit) (writeFd d (buf.drop k)) (fun r ss' => match r with
      | .ok n => underWay ss' = x.map (· ++ buf.take (k + n))
      | .error _ => underWay ss' = x.map (· ++ buf.take k)) ss := by
  have hpart : ∀ n m m', underWay (.act m (some (.wrote d ((buf.drop k).take n))) m' :: ss) =
      x.map (· ++ buf.take (k + n)) := by
    intro n m m'
    show (underWay ss).map _ = _
    rw [hss]
    cases x with
    | none => rfl
    | some bs =>
      show some (bs ++ buf.take k ++ (buf.drop k).take n) = some (bs ++ buf.take (k + n))
      rw [List.append_assoc, List.take_add]
  have hall : (buf.drop k).take (buf.drop k).length = buf.drop k := List.take_length
  have hgood : ∀ {ss' n}, underWay ss' = x.map (· ++ buf.take n) → InLimit limit ss' :=
    fun h bs hbs => hx _ bs (h ▸ hbs)
  apply along_act
  intro m _
  split
  case h_1 e r htx => exact ⟨hgood hss, hss⟩
  case h_2 n r htx =>
    have hwrote := hpart (min n (buf.drop k).length) m
    rw [← List.take_eq_take_min] at hwrote
    exact ⟨hgood (hwrote _), hwrote _⟩
  case h_3 =>
    have hwrote := hpart (buf.drop k).length m
    rw [hall] at hwrote
    exact ⟨hgood (hwrote _), hwrote _⟩

theorem HandedOver.inLimit (hx : ∀ k, Limited limit (x.map (· ++ buf.take k))) (h : HandedOver x buf ss) :
    InLimit limit ss := by
  obtain ⟨k, hk⟩ := h
  exact fun bs hbs => hx k bs (hk ▸ hbs)

theorem writeAllFd_hands (hx : ∀ k, Limited limit (x.map (· ++ buf.take k)))
    (hss : underWay ss = x.map (· ++ buf.take 0)) :
    along (limiting limit) (writeAllFd d buf) (fun _ => HandedOver x buf) ss := by
  apply along_loop (fun rest ss' => ∃ k, rest = buf.drop k ∧ underWay ss' = x.map (· ++ buf.take k))
    ⟨0, rfl, hss⟩
  rintro rest ss₁ ⟨k, rfl, h₁⟩
  show along _ (if buf.drop k = [] then _ else _) _ _
  split
  case isTrue => exact ⟨k, h₁⟩
  apply along_seq (clockLate_hands (HandedOver.inLimit hx ⟨k, h₁⟩))
  intro late ss₂ h₂
  have h₂' := h₂.trans h₁
  split
  case isTrue => exact ⟨k, h₂'⟩
  apply along_seq (waitFd_hands (HandedOver.inLimit hx ⟨k, h₂'⟩))
  intro ready ss₃ h₃
  have h₃' := h₃.trans h₂'
  split
  case isTrue => exact ⟨k, h₃'⟩
  apply along_seq (writeFd_hands hx h₃')
  intro r ss₄ h₄
  split
  · exact ⟨k + 0, h₄⟩
  case h_2 n _ => exact ⟨k + n, List.drop_drop .., h₄⟩
  case h_3 e =>
    split
    · exact ⟨k, rfl, h₄⟩
    · exact ⟨k, h₄⟩

theorem raspikeComSend_hands (desc : Option Nat) (hbuf : ¬ TooLong limit buf) :
    Hands limit (raspikeComSend desc buf) := by
  intro ss hss
  cases desc with
  | none => exact hss
  | some d =>
  have hx : ∀ k, Limited limit ((some []).map (· ++ buf.take k)) := by
    rintro k _ ⟨⟩ h
    exact hbuf (tooLong_take h)
  have hstart : ∀ {ss'}, underWay ss' = some [] → InLimit limit ss' := fun h bs hbs =>
    hx 0 bs (show some [] = some bs from h.symm.trans hbs)
  apply along_seq (B := fun _ ss' => underWay ss' = some [])
  · exact along_act fun m _ => ⟨hstart rfl, rfl⟩
  intro _ ss₁ h₁
  apply along_seq (B := fun _ ss' => underWay ss' = some []) (along_lock h₁)
  intro _ ss₂ h₂
  apply along_seq (B := fun _ ss' => underWay ss' = some [])
  · exact unlabelled_hands (hstart h₂) fun _ _ h => h.trans h₂
  intro mode ss₃ h₃
  apply along_seq (B := fun _ ss' => underWay ss' = some []) (along_unlock h₃)
  intro _ ss₄ h₄
  split
  case isTrue =>
    unfold bufferedWrite
    split
    case isTrue => exact hstart h₄
    apply along_seq (B := fun _ ss' => underWay ss' = some []) (along_lock h₄)
    intro _ ss₅ h₅
    apply along_seq (B := fun _ ss' => underWay ss' = some [])
    · exact unlabelled_hands (hstart h₅) fun _ _ h => h.trans h₅
    intro size ss₆ h₆
    split
    case isTrue => exact along_seq (along_unlock (hstart h₆)) fun _ _ h => h
    have hqueued : ∀ m m', InLimit limit (.act m (some (.queued d buf)) m' :: ss₆) := by
      intro m m' bs hbs
      have hbs' : (underWay ss₆).map (· ++ buf) = some bs := hbs
      rw [h₆] at hbs'
      cases hbs'
      exact hbuf
    apply along_seq (B := fun _ => InLimit limit)
    · exact along_act fun m _ => ⟨hqueued m _, hqueued m _⟩
    intro _ ss₇ h₇
    exact along_seq (along_unlock h₇) fun _ _ h => h
  case isFalse =>
    apply along_seq (B := fun _ ss' => underWay ss' = some [])
    · exact unlabelled_hands (hstart h₄) fun _ _ h => h.trans h₄
    intro fd ss₅ h₅
    split
    case isTrue => exact hstart h₅
    exact along_mono (fun _ _ h => h.inLimit hx) (writeAllFd_hands hx h₅)

/-- a flush is no send: it empties the buffer of earlier ones -/
theorem raspikeComFlush_hands (desc : Option Nat) : Hands limit (raspikeComFlush desc) := by
  intro ss hss
  cases desc with
  | none => exact hss
  | some d =>
  have hrest : ∀ {ss'}, underWay ss' = none → InLimit limit ss' := fun h bs hbs => by
    cases h.symm.trans hbs
  apply along_seq (B := fun _ ss' => underWay ss' = none)
  · exact along_act fun m _ => ⟨limited_none limit, rfl⟩
  intro _ ss₁ h₁
  apply along_seq (B := fun _ ss' => underWay ss' = none) (along_lock h₁)
  intro _ ss₂ h₂
  apply along_seq (B := fun _ ss' => underWay ss' = none)
  · apply along_seq (B := fun _ ss' => underWay ss' = none)
    · exact unlabelled_hands (hrest h₂) fun _ _ h => h.trans h₂
    intro buf ss₃ h₃
    split
    case isTrue => exact h₃
    apply along_seq (B := fun _ ss' => underWay ss' = none)
    · exact unlabelled_hands (hrest h₃) fun _ _ h => h.trans h₃
    intro fd ss₄ h₄
    split
    case isTrue => exact h₄
    apply along_seq (writeAllFd_hands (x := none) (fun _ => limited_none limit) h₄)
    rintro ret ss₅ ⟨k, h₅⟩
    split
    case isTrue => exact h₅
    apply along_seq (B := fun _ ss' => underWay ss' = none)
    · exact along_act fun m _ => ⟨limited_none limit, rfl⟩
    exact fun _ _ h => h
  intro ret ss₃ h₃
  exact along_seq (along_unlock (hrest h₃)) fun _ _ h => h

end

/-! ## the senders -/

/-- a payload that `send_v2_frame` does not refuse is within the limit -/
def Fits (limit : Nat) (port : Byte) (payload : Buf) (size : Int) : Prop :=
  raspikeIsValidPort port → payload.isSome → size ≤ rpV2MaxPayload → size ≤ limit

theorem fits_zero (limit : Nat) (port : Byte) : Fits limit port none 0 := nofun

section
variable {port : Byte} {payload : Buf} {size : Int}

theorem sendFrame_hands (h : Fits limit port payload size) (cmd : Byte)
    (sequence : U32) (flags : Byte) (flushNow : Bool) :
    Hands limit (sendFrame port cmd payload size sequence flags flushNow) := by
  have hF := hands_passes limit
  have hload : ∀ {β : Type} (f : Mem → β), Hands limit (load f) := fun f => hF.does (Does.load (mem_other nofun))
  have hmark : ∀ e : Event, e.kind = .send → Hands limit (tick e) := fun e he => by
    apply hF.does
    apply Does.tick (k := .send) (mem_other nofun) he (fun _ => rfl)
    intro d
    cases e <;> first | rfl | cases he
  apply hF.bind (hmark _ rfl)
  intro _
  apply hF.bind (hF.does (Does.lock (Set.mem_univ _)))
  intro _
  apply hF.bind (hmark _ rfl)
  intro _
  apply hF.bind (hF.does (Does.orElse (Does.load (mem_other nofun)) (Does.load (mem_other nofun))))
  intro down
  split
  case isTrue =>
    apply hF.bind (hF.does (Does.unlock (Set.mem_univ _)))
    exact fun _ => hF.bind (hmark _ rfl) fun _ => hF.pure _
  apply hF.bind
  · apply hF.bind (hload _)
    intro v2
    apply hF.bind
    · split
      · unfold sendV2Frame
        split
        case isTrue => exact hF.pure _
        case isFalse hok =>
        apply hF.bind
        · apply hF.does
          exact Does.labelled .frame (mem_other nofun) (fun _ => rfl) (fun _ => rfl) (fun _ => rfl) fun _ _ => rfl
        intro session
        apply hF.bind (hload _)
        intro desc
        apply raspikeComSend_hands
        apply v2Frame_limited
        have hle : (payload.take size).length ≤ size.toNat := List.length_take_le ..
        simp only [Bool.or_eq_true, decide_eq_true_eq, not_or, Bool.not_eq_true', Bool.not_eq_false] at hok
        obtain ⟨⟨⟨hport, hneg⟩, hmax⟩, -⟩ := hok
        cases payload with
        | none =>
          show (([] : List Byte).take size.toNat).length ≤ limit
          rw [List.take_nil]
          exact Nat.zero_le limit
        | some bs =>
          have hfit : size ≤ limit := h hport rfl (by omega)
          omega
      · unfold sendLegacyFrame
        split
        case isTrue => exact hF.pure _
        apply hF.bind (hload _)
        exact fun desc => raspikeComSend_hands desc (legacyFrame_limited port cmd _)
    intro ret
    split
    case isFalse => exact hF.pure _
    apply hF.bind (hload _)
    intro desc
    exact hF.bind (raspikeComFlush_hands desc) fun _ => hF.pure _
  intro ret
  apply hF.bind (hF.does (Does.unlock (Set.mem_univ _)))
  intro _
  apply hF.bind
  · split
    · exact hF.does (statsIncrement_all (mem_other nofun) (Set.mem_univ _) _)
    · exact hF.pure _
  exact fun _ => hF.bind (hmark _ rfl) fun _ => hF.pure _

theorem nextSequence_hands : Hands limit nextSequence :=
  (hands_passes limit).does (nextSequence_all (mem_other nofun) (mem_other nofun) (Set.mem_univ _))

theorem raspikeProtSend_hands (h : Fits limit port payload size) (cmd : Byte) :
    Hands limit (raspikeProtSend port cmd payload size) :=
  (hands_passes limit).bind nextSequence_hands fun _ => sendFrame_hands h _ _ _ _

theorem raspikeProtSendPriority_hands (h : Fits limit port payload size) (cmd : Byte) :
    Hands limit (raspikeProtSendPriority port cmd payload size) :=
  (hands_passes limit).bind nextSequence_hands fun _ => sendFrame_hands h _ _ _ _

theorem requestAttempts_hands (h : Fits limit port payload size) (i : Port) (cmd : Byte)
    (sequence : U32) (n : Nat) (result : Int) :
    Hands limit (requestAttempts i port cmd payload size sequence n result) := by
  have hF := hands_passes limit
  induction n generalizing result with
  | zero => exact hF.pure _
  | succ n ih =>
    apply hF.bind (hF.does (Does.lock (Set.mem_univ _)))
    intro _
    apply hF.bind (hF.does (Does.load (mem_other nofun)))
    intro stillPending
    apply hF.bind (hF.does (Does.unlock (Set.mem_univ _)))
    intro _
    split
    case isTrue => exact hF.pure _
    apply hF.bind (sendFrame_hands h _ _ _ _)
    intro sent
    split
    case isTrue =>
      apply hF.bind _ fun _ => hF.pure _
      exact hF.does (Does.tick (k := .gaveUp) (mem_other nofun) rfl (fun _ => rfl) fun _ => rfl)
    apply hF.bind (hF.does (requestWait_all (mem_other nofun) (mem_other nofun) (Set.mem_univ _) _ _ _))
    intro waited
    split
    case isTrue => exact hF.pure _
    apply hF.bind
    · split
      · exact hF.does (statsIncrement_all (mem_other nofun) (Set.mem_univ _) _)
      · exact hF.pure _
    exact fun _ => ih _

theorem raspikeRequest_hands (h : Fits limit port payload size) (cmd : Byte) :
    Hands limit (raspikeRequest port cmd payload size) := by
  have hF := hands_passes limit
  unfold raspikeRequest
  split
  case isTrue => exact hF.pure _
  split
  case h_1 => exact hF.pure _
  case h_2 i _ =>
  apply hF.bind (hF.does (Does.lock (Set.mem_univ _)))
  intro _
  apply hF.bind
  · exact hF.does (requestBegin_all (mem_other nofun) (mem_other nofun) (mem_other nofun)
      (Set.mem_univ _) (Set.mem_univ _) cmd)
  intro sequence
  apply hF.bind (hF.does (Does.load (mem_other nofun)))
  intro v2
  apply hF.bind (requestAttempts_hands h _ _ _ _ _)
  intro waited
  exact hF.does (requestFinish_all (mem_other nofun) (mem_other nofun) (Set.mem_univ _) (Set.mem_univ _)
    (Set.mem_univ _) _ _ _ _)

end

/-! ## the calls -/

/-- a call of the library, the display functions of the hub among them -/
inductive ApiOp where
  | call (c : Call)
  | hub (c : HubCall)

namespace ApiOp

def run : ApiOp → P Unit
  | call c => runCall c
  | hub c => do
    let _ ← c.body

/-- no connection is begun, and a payload that is not refused stays within the limit -/
def Within (limit : Nat) : ApiOp → Prop
  | call (.init _) => False
  | call c => c.Pays (Fits limit)
  | hub c => c.size ≤ rpV2MaxPayload → c.size ≤ limit

end ApiOp

theorem sendHubCommand_hands {size : Nat} (h : size ≤ rpV2MaxPayload → size ≤ limit) (command : Byte)
    (data : Buf) : Hands limit (sendHubCommand command data size) := by
  have hF := hands_passes limit
  unfold sendHubCommand
  split
  case isTrue => exact hF.pure _
  apply hF.bind (raspikeProtSendPriority_hands (fun _ _ hsize => by omega) _)
  intro result
  split
  case isTrue => exact hF.pure _
  split
  case isTrue => exact hF.pure _
  split <;> exact hF.pure _

theorem hubText_hands {command : Byte} {front : List Byte} {text : Buf} {size : Nat}
    (hsize : front.length + ((text.getD []).takeWhile (· ≠ 0)).length + 1 = size)
    (h : size ≤ rpV2MaxPayload → size ≤ limit) : Hands limit (hubText command front text) := by
  have hF := hands_passes limit
  unfold hubText
  split
  case h_1 => exact hF.pure _
  case h_2 text =>
  dsimp only
  split
  case isTrue => exact hF.pure _
  case isFalse hlen =>
    have hwhole : strnlen text (rpV2MaxPayload - front.length - 1 + 1) = (text.takeWhile (· ≠ 0)).length := by
      unfold strnlen at hlen ⊢
      omega
    apply sendHubCommand_hands
    rw [hwhole]
    exact hsize ▸ h

theorem hub_hands {c : HubCall} (h : (ApiOp.hub c).Within limit) : Hands limit c.body := by
  have hF := hands_passes limit
  cases c with
  | image bits =>
    cases bits with
    | none => exact hF.pure _
    | some bits => exact sendHubCommand_hands h _ _
  | text s onTime offTime => exact hubText_hands rfl h
  | textScroll s delay => exact hubText_hands rfl h
  | _ => exact sendHubCommand_hands h _ _

theorem shutdown_hands : Hands limit raspikeProtShutdown := by
  have hF := hands_passes limit
  apply raspikeProtShutdown_passes hF _ (Set.subset_univ _) (fun d => raspikeComFlush_hands (some d))
  · exact hF.does (setUseV2_all (mem_other nofun) false)
  · exact hF.does (setSession_all (mem_other nofun) 0)
  · rintro k hk - - d rfl
    simp [shutdownKinds] at hk

theorem receive_hands : Hands limit raspikeProtReceive := by
  apply (hands_passes limit).does
  apply raspikeProtReceive_all _ (Set.subset_univ _) (fun d => mem_other nofun) (mem_other nofun) (Set.mem_univ _)
  rintro k hk d rfl
  simp [commandKinds] at hk

theorem call_hands {c : Call} (h : (ApiOp.call c).Within limit) : Hands limit c.body := by
  have hF := hands_passes limit
  have hdevice : Passes (fun _ p => Hands limit p) deviceKinds deviceMutexes := by
    refine ⟨hF.pure, hF.bind, fun hp => hF.does (hp.mono ?_ (Set.subset_univ _))⟩
    rintro k hk d rfl
    simp [deviceKinds] at hk
  have hclient : c.isClient → Hands limit c.body := fun hc => by
    apply payload_passes hdevice (Fits limit) (fits_zero limit)
      (fun port cmd buf size h => raspikeProtSend_hands h cmd)
      (fun port cmd buf size h => raspikeProtSendPriority_hands h cmd)
      (fun port cmd data size h => raspikeRequest_hands h cmd) hc
    cases c with
    | init => exact h.elim
    | _ => exact h
  cases c with
  | init => exact h.elim
  | shutdown => exact hF.bind shutdown_hands fun _ => hF.pure _
  | receive => exact hF.bind receive_hands fun _ => hF.pure _
  | _ => exact hclient rfl

theorem apiOp_hands {op : ApiOp} (h : op.Within limit) : Hands limit op.run := by
  have hF := hands_passes limit
  have hmark : ∀ e : Event, e.kind = .call → Hands limit (tick e) := fun e he => by
    apply hF.does
    apply Does.tick (k := .call) (mem_other nofun) he (fun _ => rfl)
    intro d
    cases e <;> first | rfl | cases he
  cases op with
  | call c =>
    apply hF.bind (hmark _ rfl)
    exact fun _ => hF.bind (call_hands h) fun r => hmark _ rfl
  | hub c => exact hF.bind (hub_hands h) fun _ => hF.pure _

theorem client_hands {ops : List ApiOp} (h : ∀ op ∈ ops, op.Within limit) :
    Hands limit (forEach ops ApiOp.run) := by
  have hF := hands_passes limit
  induction ops with
  | nil => exact hF.pure _
  | cons op ops ih =>
    apply hF.bind (apiOp_hands (h op List.mem_cons_self))
    exact fun _ => ih fun op' hop => h op' (List.mem_cons_of_mem _ hop)

end

/-! ## the HELLO -/

/-- the descriptor of the receive that the thread has begun last -/
def lastInput : List OwnStep → Option Nat
  | [] => none
  | s :: ss => match s.label with
    | some (.io d .receive) => some d
    | _ => lastInput ss

/-- the limit in the last twelve bytes that the thread has received -/
def announced (ss : List OwnStep) : Nat :=
  match lastInput ss with
  | none => 0
  | some d =>
    (rpV2GetU16 (((consumedBytes d ss).drop
      ((consumedBytes d ss).length - rpV2HelloPayloadSize)).drop 2)).toNat

theorem announced_eq {d : Nat} {ss ss' : List OwnStep} {payload : List Byte} (h : Reads d ss payload ss')
    (hlast : lastInput ss' = some d) (hlen : payload.length = rpV2HelloPayloadSize) :
    announced ss' = (rpV2GetU16 (payload.drop 2)).toNat := by
  unfold announced
  rw [hlast]
  dsimp only
  rw [h.consumed, List.length_append, hlen, Nat.add_sub_cancel, List.drop_left]

theorem lastInput_step {s : OwnStep} {ss : List OwnStep} (h : ∀ d, s.label ≠ some (.io d .receive)) :
    lastInput (s :: ss) = lastInput ss := by
  rw [lastInput]
  split
  case h_1 d hs => exact absurd hs (h d)
  case h_2 => rfl

theorem lastInput_begin {s : OwnStep} {ss : List OwnStep} {d : Nat} (h : s.label = some (.io d .receive)) :
    lastInput (s :: ss) = some d := by
  rw [lastInput, h]

/-- an access that takes nothing from a device -/
theorem announced_act {m m' : Mem} {x : Option Event} {ss : List OwnStep}
    (hx : ∀ d, x ≠ some (.io d .receive)) (hcom : m'.com.desc = m.com.desc) :
    announced (.act m x m' :: ss) = announced ss := by
  unfold announced
  rw [lastInput_step (s := .act m x m') hx]
  split
  case h_1 => rfl
  case h_2 d _ =>
    have hsame : consumedBytes d (.act m x m' :: ss) = consumedBytes d ss := by
      have harriving : m.arriving d = [] ++ m'.arriving d := by
        rw [Mem.arriving, Mem.arriving, hcom]
        rfl
      rw [consumedBytes, takenBy_eq harriving, List.append_nil]
    rw [hsame]

/-- the thread does not come back from a call -/
def connecting : Local CondVar Event Mem := recording (fun _ => True) fun _ s => Unreturned s

section
variable {ss : List OwnStep}

theorem connecting_passes :
    Passes (fun _ p => ∀ ss, along connecting p (fun _ _ => True) ss) {k | k ≠ .call} Set.univ where
  pure _ := fun _ => trivial
  bind hp hq := fun ss => along_seq (hp ss) fun a ss' _ => hq a ss'
  does := by
    intro α p hp ss
    refine along_all (P := fun _ => True) ?_ ?_ hp Prog.Wakes.trivial Prog.Yields.trivial trivial
      fun _ _ _ _ => trivial
    · intro e f ss' m hacc _ _
      refine ⟨?_, trivial⟩
      intro c r he
      obtain ⟨k, hk, hstep⟩ := hacc m
      exact hk (hstep.label _ he).symm
    · exact fun _ _ _ _ => ⟨nofun, trivial⟩

theorem connecting_before {α β : Type} {p : P α} {q : α → P β} {Q : β → List OwnStep → Prop}
    (hp : Does {k | k ≠ .call} Set.univ p) (hq : ∀ a ss', along connecting (q a) Q ss') :
    along connecting (p >>= q) Q ss :=
  along_seq (connecting_passes.does hp ss) fun a ss' _ => hq a ss'

theorem connecting_act {α β : Type} {e : Mem → Option Event} {f : Mem → α × Mem} {q : α → P β}
    {Q : β → List OwnStep → Prop} (he : ∀ m c r, e m ≠ some (.returned c r))
    (hq : ∀ a ss', along connecting (q a) Q ss') :
    along connecting ((.act e f .ret : P α) >>= q) Q ss :=
  along_bind fun m _ => ⟨he m, hq _ _⟩

theorem connecting_kinds : negotiateKinds ⊆ {k | k ≠ .call} := by
  rintro k hk rfl
  exact hk

theorem connecting_link : linkKinds ⊆ {k | k ≠ .call} := linkKinds_negotiate.trans connecting_kinds

/-- an access that takes nothing from a device, and keeps the limit -/
theorem act_announced {α : Type} {e : Mem → Option Event} {f : Mem → α × Mem} {n : Nat}
    (he : ∀ m c r, e m ≠ some (.returned c r)) (hin : ∀ m d, e m ≠ some (.io d .receive))
    (hcom : ∀ m, (f m).2.com.desc = m.com.desc) (h : announced ss = n) :
    along connecting (.act e f .ret : P α) (fun _ ss' => announced ss' = n) ss :=
  along_act fun m _ => ⟨he m, (announced_act (hin m) (hcom m)).trans h⟩

theorem load_announced {β : Type} {f : Mem → β} {n : Nat} (h : announced ss = n) :
    along connecting (load f : P β) (fun _ ss' => announced ss' = n) ss :=
  act_announced (fun _ _ _ => nofun) (fun _ _ => nofun) (fun _ => rfl) h

theorem modify_announced {f : Mem → Mem} {n : Nat} (hcom : ∀ m, (f m).com.desc = m.com.desc)
    (h : announced ss = n) : along connecting (modify f : P Unit) (fun _ ss' => announced ss' = n) ss :=
  act_announced (fun _ _ _ => nofun) (fun _ _ => nofun) hcom h

/-- what is received last comes from the descriptor of this receive -/
theorem raspikeComReceiveTimeout_input (d : Nat) {size : Nat} (hsize : size ≠ 0) :
    along connecting (raspikeComReceiveTimeout (some d) size) (fun _ ss' => lastInput ss' = some d) ss := by
  have hdoes : Does {.quiet, .input d} Set.univ (raspikeComReceiveTimeout (some d) size) :=
    raspikeComReceiveTimeout_all (.inl rfl) (by rintro _ ⟨⟩; exact .inr rfl) size
  unfold raspikeComReceiveTimeout at hdoes ⊢
  dsimp only at hdoes ⊢
  rw [if_neg hsize] at hdoes ⊢
  apply along_seq (B := fun _ ss' => lastInput ss' = some d)
  · exact along_act fun _ _ => ⟨fun _ _ => nofun, rfl⟩
  intro _ ss₁ h₁
  refine along_all (P := fun ss' => lastInput ss' = some d) ?_ ?_ (hdoes.2 ()) Prog.Wakes.trivial
    Prog.Yields.trivial h₁ fun _ _ _ h => h
  · intro e f ss' m hacc hlast _
    obtain ⟨k, hk, hstep⟩ := hacc m
    constructor
    · intro c r he
      have hkind := hstep.label _ he
      obtain rfl | rfl := hk <;> cases hkind
    · by_cases hbegin : ∃ d', e m = some (.io d' .receive)
      · obtain ⟨d', he⟩ := hbegin
        have hkind := hstep.label _ he
        obtain rfl | rfl := hk
        · cases hkind
        · cases hkind
          exact lastInput_begin he
      · exact (lastInput_step (s := .act m (e m) (f m)) fun d' he => hbegin ⟨d', he⟩).trans hlast
  · exact fun _ _ _ h => ⟨nofun, h⟩

/-- a refused HELLO gives an error; an accepted one announces room for a whole status -/
def Announced (r : Int) (ss : List OwnStep) : Prop := r < 0 ∨ spikeStatusSize ≤ announced ss

theorem receiveLegacyHello_announces : along connecting receiveLegacyHello Announced ss := by
  have hk : Kind.quiet ∈ {k | k ≠ Kind.call} := nofun
  have hneg : ∀ {r : Int} {ss}, r < 0 → along connecting (pure r : P Int) Announced ss :=
    fun h => .inl h
  apply connecting_before (scanForByte_all connecting_link _)
  intro found ss₁
  split
  case isTrue hfound => exact hneg hfound
  apply connecting_before (Does.load hk)
  intro desc ss₂
  apply along_seq (along_yields (connecting_passes.does (comReceive_all connecting_link desc 3) ss₂)
    (raspikeComReceiveTimeout_fails desc 3))
  rintro (e | header) ss₃ ⟨-, herr⟩
  · exact hneg (herr e rfl)
  show along _ (if header.getD 0 0 ≠ rpCmdIdLinkHello ∨ _ then _ else _) _ _
  split
  case isTrue => exact hneg (by decide)
  apply connecting_before (Does.load hk)
  rintro (_ | d) ss₄
  · exact hneg (by decide)
  have hquiet : ∀ (ss : List OwnStep) s, Own.Receiving d s → Unreturned s := by
    rintro _ s (h | h) c r he
    · cases h.symm.trans he
    · cases h.symm.trans he
  have hread : along connecting (raspikeComReceiveTimeout (some d) rpV2HelloPayloadSize) (fun r ss' =>
      ∃ bs, Reads d ss₄ bs ss' ∧ bs.length ≤ rpV2HelloPayloadSize ∧
        ∀ bs', r = .ok bs' → bs' = bs ∧ bs.length = rpV2HelloPayloadSize) ss₄ :=
    raspikeComReceiveTimeout_reads hquiet
  apply along_seq (along_and hread (along_yields (raspikeComReceiveTimeout_input d (by decide))
    (raspikeComReceiveTimeout_fails (some d) rpV2HelloPayloadSize)))
  rintro (e | payload) ss₅ ⟨⟨bs, hreads, -, hok⟩, hlast, herr⟩
  · exact hneg (herr e rfl)
  obtain ⟨rfl, hlen⟩ := hok payload rfl
  have hlimit := announced_eq hreads hlast hlen
  show along _ (if payload.getD 0 0 ≠ rpV2Version then _ else _) _ _
  split
  case isTrue => exact hneg (by decide)
  apply along_seq (B := fun _ ss' => announced ss' = (rpV2GetU16 (payload.drop 2)).toNat)
  · exact act_announced (fun _ _ _ => nofun) (fun _ _ => nofun) (fun _ => rfl) hlimit
  intro _ ss₆ h₆
  apply along_seq (B := fun _ ss' => announced ss' = (rpV2GetU16 (payload.drop 2)).toNat)
  · exact act_announced (fun _ _ _ => nofun) (fun _ _ => nofun) (fun _ => rfl) h₆
  intro _ ss₇ h₇
  apply along_seq (B := fun refused ss' => refused = true ∨ spikeStatusSize ≤ announced ss')
  · apply along_seq (load_announced h₇)
    rintro (_ | _) ss₈ h₈
    · apply along_seq (load_announced h₈)
      rintro (_ | _) ss₉ h₉
      · show _ ∨ _
        rw [h₉, decide_eq_true_iff]
        exact Nat.lt_or_ge _ _
      · exact .inl rfl
    · exact .inl rfl
  intro refused ss₈ h₈
  split
  case isTrue => exact hneg (by decide)
  case isFalse hrefused =>
    apply along_seq
    · exact act_announced (fun _ _ _ => nofun) (fun _ _ => nofun) (fun _ => rfl) rfl
    intro _ ss₉ h₉
    exact .inr (h₉ ▸ h₈.resolve_left hrefused)

theorem initFailed_announces {error : Int} (h : error < 0) :
    along connecting (initFailed error) (fun r ss' => r = 0 → spikeStatusSize ≤ announced ss') ss := by
  have hk {k : Kind} (h : k ∈ negotiateKinds) : k ∈ {k | k ≠ Kind.call} := connecting_kinds h
  apply along_seq (connecting_passes.does (freeStatus_all (hk trivial)) ss)
  intro _ ss₁ _
  apply along_seq (B := fun _ _ => True)
  · exact connecting_passes.does (Does.modify .statusPtr (hk trivial) rfl fun m => ⟨⟨_, rfl⟩, fun _ => rfl⟩) ss₁
  intro _ ss₂ _
  apply along_seq (connecting_passes.does (clearDesc_all connecting_kinds (Set.subset_univ _)) ss₂)
  intro _ ss₃ _ hzero
  omega

theorem initNegotiate_announces :
    along connecting initNegotiate (fun r ss' => r = 0 → spikeStatusSize ≤ announced ss') ss := by
  have hk {k : Kind} (h : k ≠ .call) : k ∈ {k | k ≠ Kind.call} := h
  apply along_seq (handshakeAttempts_passes connecting_link connecting_passes
    (fun desc buf => connecting_passes.does
      (raspikeComSend_all (hk nofun) (fun _ _ => hk nofun) (Set.mem_univ _) buf))
    (fun desc => connecting_passes.does
      (raspikeComFlush_all (hk nofun) (fun _ _ => hk nofun) (Set.mem_univ _))) _ _ ss)
  intro ret ss₁ _
  split
  case isTrue hret => exact initFailed_announces hret
  apply along_seq (connecting_passes.does (Does.load (hk nofun)) ss₁)
  intro supported ss₂ _
  split
  case isTrue => exact initFailed_announces (by decide)
  apply along_seq receiveLegacyHello_announces
  intro ret ss₃ h₃
  split
  case isTrue hret => exact initFailed_announces hret
  case isFalse hret =>
    have hlimit : spikeStatusSize ≤ announced ss₃ := h₃.resolve_left hret
    apply along_seq
    · exact modify_announced (fun _ => rfl) rfl
    intro _ ss₄ h₄
    apply along_seq (B := fun _ ss' => announced ss' = announced ss₃)
    · unfold raspikeUsbSetMode
      apply along_seq (B := fun _ ss' => announced ss' = announced ss₃)
      · exact h₄
      intro _ ss₅ h₅
      apply along_seq
      · exact modify_announced (fun _ => rfl) h₅
      exact fun _ _ h => along_unlock h
    intro _ ss₅ h₅ _
    exact h₅ ▸ hlimit

/-- an init that succeeds has read the limit of its HELLO -/
theorem raspikeProtInit_announces (desc : Option Nat) :
    along connecting (raspikeProtInit desc) (fun r ss' => r = 0 → spikeStatusSize ≤ announced ss') ss := by
  have hk {k : Kind} (h : k ≠ .call) : k ∈ {k | k ≠ Kind.call} := h
  have hm : Mutex.fgLifecycle ∈ Set.univ := Set.mem_univ _
  unfold raspikeProtInit
  split
  case isTrue => exact nofun
  apply connecting_before (Does.lock hm)
  intro _ ss₁
  apply connecting_before (Does.load (hk nofun))
  intro busy ss₂
  split
  case isTrue =>
    apply connecting_before (Does.unlock hm)
    exact fun _ _ => nofun
  refine connecting_act (fun _ _ _ => nofun) fun _ ss₃ => ?_
  refine connecting_act (fun _ _ _ => nofun) fun _ ss₄ => ?_
  refine connecting_act (fun _ _ _ => nofun) fun _ ss₅ => ?_
  apply connecting_before (setUseV2_all (hk nofun) false)
  intro _ ss₆
  apply connecting_before (setSession_all (hk nofun) 0)
  intro _ ss₇
  apply connecting_before (setCapabilities_all (hk nofun) 0)
  intro _ ss₈
  refine connecting_act (fun _ _ _ => nofun) fun _ ss₉ => ?_
  apply connecting_before (Does.unlock hm)
  intro _ ss₁₀
  refine connecting_act (fun _ _ _ => nofun) fun _ ss₁₁ => ?_
  refine connecting_act (fun _ _ _ => nofun) fun _ ss₁₂ => ?_
  apply connecting_before (setRuntimeTelemetry_all (hk nofun) _)
  intro _ ss₁₃
  apply connecting_before (callocStatus_all (by simp))
  intro status ss₁₄
  split
  case isTrue =>
    apply connecting_before (clearDesc_all connecting_kinds (Set.subset_univ _))
    exact fun _ _ => nofun
  apply connecting_before (initPorts_all (hk nofun) (hk nofun) (hk nofun) (hk nofun)
    (fun _ => Set.mem_univ _) fun _ => Set.mem_univ _)
  exact fun _ _ => initNegotiate_announces

end

/-- the first call of a thread is an init; it has taken these steps, and returned 0 -/
def Connects {T : Type} [DecidableEq T] (t : T) (c : Sys T) (ss : List OwnStep) (c' : Sys T) : Prop :=
  ∃ (desc : Option Nat) (q : Unit → P Unit) (m m' : Mem), c.thr t = runCall (.init desc) >>= q ∧
    Follows t c (.act m (some (.returned (.init desc) (.int 0))) m' :: ss) c' ∧ ∀ s ∈ ss, Unreturned s

/-- **The limit of the hub.**  The HELLO that an init accepts leaves room for a whole status.  A thread
that connects nothing, and whose payloads are within this limit or refused, never hands over a v2 frame
with a longer one. -/
theorem payload_limit {T : Type} [DecidableEq T] {t₀ : T} {c₀ c : Sys T} {ss₀ : List OwnStep}
    (h : Connects t₀ c₀ ss₀ c) : spikeStatusSize ≤ announced ss₀ ∧
      ∀ (t : T) (c₁ c' : Sys T) (ops : List ApiOp) (ss : List OwnStep), c₁.thr t = forEach ops ApiOp.run →
        (∀ op ∈ ops, op.Within (announced ss₀)) → Follows t c₁ ss c' → InLimit (announced ss₀) ss := by
  obtain ⟨desc, q, m, m', hc₀, hf₀, hfirst⟩ := h
  constructor
  · have hinit : along connecting (tick (.call (.init desc)) >>= fun _ => raspikeProtInit desc)
        (fun r ss' => r = 0 → spikeStatusSize ≤ announced ss') [] :=
      connecting_act (fun _ _ _ => nofun) fun _ _ => raspikeProtInit_announces desc
    obtain ⟨r, heq, hr⟩ := call_returned (f := Ret.int) rfl hc₀ hf₀ hfirst (fun _ _ h => h) trivial
      (fun _ _ _ _ => trivial) hinit
    cases heq
    exact hr rfl
  · intro t c₁ c' ops ss hc₁ hops hf
    have hhands : along (limiting (announced ss₀)) (c₁.thr t) (fun _ => InLimit (announced ss₀)) [] :=
      hc₁ ▸ client_hands hops [] (limited_none _)
    have hgives := hf.gives hhands (recording_relies fun _ _ _ _ => trivial)
    cases ss with
    | nil => exact limited_none _
    | cons s ss =>
      have hafter : (limiting (announced ss₀)).after [] ss = ss :=
        (recording_after [] ss).trans (List.append_nil ss)
      have hstep : InLimit (announced ss₀) (s :: (limiting (announced ss₀)).after [] ss) := hgives.2
      exact hafter ▸ hstep

/-- a device with the expected version, in front of its HELLO; the limit is 136 bytes -/
def negotiating : List Byte :=
  [rpCmdInit, rpCmdInitMagic, 0, 8, 4] ++
    legacyFrame rpPortNone rpCmdIdLinkHello [rpV2Version, rpV2CapFraming, 136, 0, 9, 0, 0, 0, 0, 0, 0, 0]

/-- one thread connects, the other sends a payload -/
def connectThenSend (payload : List Byte) : Sys Bool where
  mem := { freshMem [.data negotiating] [] with fgDesc := none, fgStatus := none }
  own := fun _ => none
  trace := []
  thr
    | false => runCall (.init (some 0)) >>= fun _ => pure ()
    | true => forEach [.call (.send 0 96 (some payload) payload.length)] ApiOp.run

/-- the own steps of the thread that connects, but the last -/
def connectSteps (payload : List Byte) : List OwnStep := (ownSteps false 161 (connectThenSend payload)).tail

theorem connectThenSend_connects {payload : List Byte} {c : Sys Bool}
    (he : exec (connectThenSend payload) (steps 161 false) = some c)
    (hlast : (ownSteps false 161 (connectThenSend payload)).head?.map Own.label =
      some (some (.returned (.init (some 0)) (.int 0))))
    (hfirst : (connectSteps payload).all fun s => !Event.isReturned s.label) :
    Connects false (connectThenSend payload) (connectSteps payload) c := by
  obtain ⟨m, m', hf, hss⟩ := ownSteps_returned he hlast hfirst
  exact ⟨some 0, fun _ => pure (), m, m', rfl, hf, hss⟩

theorem payload_limit_send : ∃ c c' ss, Connects false (connectThenSend [1, 2, 3]) (connectSteps [1, 2, 3]) c ∧
    exec c (steps 24 true) = some c' ∧ Follows true (connectThenSend [1, 2, 3]) ss c' ∧
      underWay ss ≠ none ∧ InLimit 136 ss := by
  obtain ⟨c, hc⟩ : ∃ c, exec (connectThenSend [1, 2, 3]) (steps 161 false) = some c :=
    Option.isSome_iff_exists.mp (by decide +kernel)
  have hconnects : Connects false (connectThenSend [1, 2, 3]) (connectSteps [1, 2, 3]) c :=
    connectThenSend_connects hc (by decide +kernel) (by decide +kernel)
  have hlimit : announced (connectSteps [1, 2, 3]) = 136 := by decide +kernel
  have hrun : ∀ c ∈ exec (connectThenSend [1, 2, 3]) (steps 161 false),
      (exec c (steps 24 true)).isSome ∧ underWay (ownSteps true 24 c) ≠ none := by decide +kernel
  obtain ⟨hsome, hsending⟩ := hrun c hc
  obtain ⟨c', hc'⟩ := Option.isSome_iff_exists.mp hsome
  have hf : Follows true (connectThenSend [1, 2, 3]) (ownSteps true 24 c) c' :=
    (exec_follows hc').after_others (fun ch hch => by simp [List.eq_of_mem_replicate hch]) hc
  refine ⟨c, c', _, hconnects, hc', hf, hsending, ?_⟩
  have hops : ∀ op ∈ [ApiOp.call (.send 0 96 (some [1, 2, 3]) 3)], op.Within (announced (connectSteps [1, 2, 3])) := by
    intro op hop
    rw [List.mem_singleton.mp hop, hlimit]
    intro _ _ _
    decide
  exact hlimit ▸ (payload_limit hconnects).2 true (connectThenSend [1, 2, 3]) c' _ _ rfl hops hf

/-- The senders do not look at the limit of the hub. -/
theorem payload_over_limit : ¬ ∀ (T : Type) [DecidableEq T] (t₀ t : T) (c₀ c c' : Sys T)
    (ss₀ ss : List OwnStep) (ops : List ApiOp), Connects t₀ c₀ ss₀ c → c₀.thr t = forEach ops ApiOp.run →
    Follows t c₀ ss c' → Reach c c' → InLimit (announced ss₀) ss := by
  intro h
  obtain ⟨c, hc⟩ : ∃ c, exec (connectThenSend (List.replicate 200 0)) (steps 161 false) = some c :=
    Option.isSome_iff_exists.mp (by decide +kernel)
  have hconnects : Connects false (connectThenSend (List.replicate 200 0)) (connectSteps (List.replicate 200 0)) c :=
    connectThenSend_connects hc (by decide +kernel) (by decide +kernel)
  have hlimit : announced (connectSteps (List.replicate 200 0)) = 136 := by decide +kernel
  have hrun : ∀ c ∈ exec (connectThenSend (List.replicate 200 0)) (steps 161 false),
      (exec c (steps 24 true)).isSome ∧
        (underWay (ownSteps true 24 c)).any fun bs => decide (TooLong 136 bs) := by decide +kernel
  obtain ⟨hsome, hlong⟩ := hrun c hc
  obtain ⟨c', hc'⟩ := Option.isSome_iff_exists.mp hsome
  have hf : Follows true (connectThenSend (List.replicate 200 0)) (ownSteps true 24 c) c' :=
    (exec_follows hc').after_others (fun ch hch => by simp [List.eq_of_mem_replicate hch]) hc
  obtain ⟨bs, hbs, htooLong⟩ := (Option.any_eq_true _ _).mp hlong
  have hin := h Bool false true _ c c' _ _ _ hconnects rfl hf (exec_reach hc')
  rw [hlimit] at hin
  exact hin bs hbs (of_decide_eq_true htooLong)

end RaspikeArt
