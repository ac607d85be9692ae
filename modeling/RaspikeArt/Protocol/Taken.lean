import RaspikeArt.Protocol.Frames
import RaspikeArt.Threads.Reads
import RaspikeArt.Transport.Consumed

/-!
# Frames, part 3: the bytes of a frame

* `present ss`        the own steps of a thread since the entry check of its receive;
* `takenNow d ss`     what these have taken from the device of `d`;
* `ReadFrom d t c₀ c r`   in its present receive `t` has read the frame `r`, which is all it had taken then;
* `hasRead_readFrom`      a frame that a connected library has read in a run is such a frame.
-/

set_option linter.unusedSectionVars false

namespace RaspikeArt
open Threads

def Raw.bytes : Raw → List Byte
  | .v2 bytes => bytes
  | .legacy bytes => bytes

/-! ## what a receive has taken -/

/-- the steps since the entry check of the present receive, newest first -/
def present (ss : List OwnStep) : List OwnStep := ss.takeWhile fun s => !Own.enters s

def takenNow (d : Nat) (ss : List OwnStep) : List Byte := consumedBytes d (present ss)

theorem present_append {xs : List OwnStep} (h : ∀ s ∈ xs, Own.enters s = false) (ss : List OwnStep) :
    present (xs ++ ss) = xs ++ present ss :=
  List.takeWhile_append_of_pos fun s hs => by rw [h s hs]; rfl

theorem Reads.now {d : Nat} {ss ss' : List OwnStep} {bs : List Byte} (h : Reads d ss bs ss') :
    takenNow d ss' = takenNow d ss ++ bs := by
  obtain ⟨xs, rfl, rfl, hxs⟩ := h.steps
  rw [takenNow, present_append hxs]
  exact consumed_append ..

/-- a frame is what has been taken -/
def framedStep (d : Nat) (ss : List OwnStep) (s : OwnStep) : Prop :=
  ∀ r : Raw, Own.label s = some r.event → r.bytes = takenNow d ss

/-- the receiver reads from `d` -/
def framed (d : Nat) : Local CondVar Event Mem := recording (Only d) (framedStep d)

section
variable {d : Nat} {ss : List OwnStep}

theorem framed_quiet {s : OwnStep} (h : ∀ r : Raw, Own.label s ≠ some r.event) (ss : List OwnStep) :
    framedStep d ss s := fun r hr => (h r hr).elim

theorem framed_receiving (ss : List OwnStep) (s : OwnStep) (h : Own.Receiving d s) : framedStep d ss s := by
  apply framed_quiet
  intro r hr
  obtain h | h := h <;> rw [h] at hr <;> cases r <;> cases hr

theorem raw_kind (r : Raw) : r.event.kind = .recv := by
  cases r <;> rfl

/-- programs that read no frame -/
theorem framed_does {α : Type} {p : P α} (hp : Does {k | k ≠ .recv} Set.univ p) :
    along (framed d) p (fun _ _ => True) ss := by
  apply along_all (P := fun _ => True) ?_ ?_ hp Prog.Wakes.trivial
    Prog.Yields.trivial trivial fun _ _ _ _ => trivial
  · intro e f ss₁ m hacc _ _
    refine ⟨framed_quiet (fun r hr => ?_) _, trivial⟩
    obtain ⟨k, hk, hstep⟩ := hacc m
    have hkind := hstep.label r.event hr
    rw [raw_kind] at hkind
    exact hk hkind.symm
  · exact fun _ _ _ _ => ⟨framed_quiet (fun r hr => by cases hr) _, trivial⟩

theorem framed_passes : Passes (fun _ p => ∀ ss, along (framed d) p (fun _ _ => True) ss)
    {k | k ≠ .recv} Set.univ where
  pure _ _ := trivial
  bind hp hq ss := along_seq (hp ss) fun a ss' _ => hq a ss'
  does hp _ := framed_does hp

theorem processCommand_framed (port cmd flags : Byte) (sequence session : U32) (buf : List Byte) :
    along (framed d) (processCommand port cmd flags sequence session buf) (fun _ _ => True) ss := by
  refine processCommand_passes (framed_passes.mono ?_ (Set.subset_univ _)) ?_ (fun buf ss => ?_) (fun f ss => ?_)
    (fun i s session buf ss => ?_) port cmd flags sequence session buf ss
  · simp [dispatchKinds, Set.subset_def]
  · intro _ _ _ _ _ _ ss
    apply along_act
    intro m _
    exact ⟨framed_quiet (fun r hr => by cases r <;> cases hr) _, trivial⟩
  · exact framed_does (processHelloPayload_all (by simp [helloKinds, Set.subset_def]) (Set.subset_univ _) buf)
  · exact framed_does (updateStatus_all (by simp) (by simp) (Set.mem_univ _) f)
  · exact framed_does (processAck_all (by simp) (by simp) (Set.mem_univ _) (Set.mem_univ _) s session buf)

theorem counted_framed (s : Stat) (r : Int) :
    along (framed d) (do statsIncrement s; return r : P Int) (fun _ _ => True) ss :=
  framed_does ((statsIncrement_all (by simp) (Set.mem_univ _) s).bind fun _ => Does.pure r)

/-- what is skipped is no frame -/
theorem skipped_framed (size : Nat) (r : Int) : along (framed d) (do
    let _ ← discardReceiveBytes size
    statsIncrement .framingErrors
    return r : P Int) (fun _ _ => True) ss :=
  framed_does <| (discardReceiveBytes_all (by simp) (fun _ => by simp) size).bind fun _ =>
    (statsIncrement_all (by simp) (Set.mem_univ _) _).bind fun _ => Does.pure r

theorem receiveV2Frame_framed (hss : takenNow d ss = [rpV2Start]) :
    along (framed d) receiveV2Frame (fun _ _ => True) ss := by
  apply receive_reads framed_receiving
  rintro (e | header) ss₁ h₁
  · trivial
  obtain ⟨h₁, -⟩ := h₁ header rfl
  show along _ (receiveV2Body header) _ _
  unfold receiveV2Body
  dsimp only
  split
  case isTrue => exact skipped_framed _ _
  split
  case isTrue => exact skipped_framed _ _
  apply receive_reads framed_receiving
  rintro (e | rest) ss₂ h₂
  · trivial
  obtain ⟨h₂, -⟩ := h₂ rest rfl
  show along _ (receiveV2Checked header rest) _ _
  unfold receiveV2Checked
  dsimp only
  split
  case isTrue => exact counted_framed _ _
  apply along_seq (B := fun _ _ => True)
  · apply along_act
    intro m _
    refine ⟨fun r hr => ?_, trivial⟩
    cases r with
    | legacy bytes => cases hr
    | v2 bytes =>
      cases hr
      show rpV2Start :: header ++ rest = takenNow d ss₂
      rw [(h₁.trans h₂).now, hss]
      rfl
  · exact fun _ ss₃ _ => processCommand_framed ..

theorem receiveLegacyFrame_framed (hss : takenNow d ss = [rpCmdStart]) :
    along (framed d) receiveLegacyFrame (fun _ _ => True) ss := by
  apply receive_reads framed_receiving
  rintro (e | header) ss₁ h₁
  · trivial
  obtain ⟨h₁, -⟩ := h₁ header rfl
  show along _ (receiveLegacyBody header) _ _
  unfold receiveLegacyBody
  dsimp only
  split
  case isTrue => exact counted_framed _ _
  apply along_seq (B := fun r ss' => ∀ payload, r = .ok payload → Reads d ss₁ payload ss')
  · split
    case isTrue =>
      apply along_mono ?_ (receive_takes framed_receiving)
      exact fun r ss₂ h₂ payload hp => (h₂ payload hp).1
    case isFalse =>
      apply along_pure
      rintro _ ⟨⟩
      exact Reads.refl d ss₁
  rintro (e | payload) ss₂ h₂
  · trivial
  apply along_seq (B := fun _ _ => True)
  · apply along_act
    intro m _
    refine ⟨fun r hr => ?_, trivial⟩
    cases r with
    | v2 bytes => cases hr
    | legacy bytes =>
      cases hr
      show rpCmdStart :: header ++ payload = takenNow d ss₂
      rw [(h₁.trans (h₂ payload rfl)).now, hss]
      rfl
  intro _ ss₃ _
  apply along_seq (framed_does (statsIncrement_all (by simp) (Set.mem_univ _) _))
  intro _ ss₄ _
  apply along_seq (framed_does (Does.load (by simp)))
  exact fun _ ss₅ _ => processCommand_framed ..

theorem receiveFrame_framed (hss : takenNow d ss = []) :
    along (framed d) receiveFrame (fun _ _ => True) ss := by
  apply receive_reads framed_receiving
  rintro (e | start) ss₁ h₁
  · trivial
  obtain ⟨h₁, hlen⟩ := h₁ start rfl
  obtain ⟨b, rfl⟩ := List.length_eq_one_iff.mp hlen
  have hnow : takenNow d ss₁ = [b] := by
    rw [h₁.now, hss]
    rfl
  apply along_seq (B := fun _ _ => True)
  · show along _ (receiveStarted b) _ _
    unfold receiveStarted
    split
    case isTrue hv2 =>
      subst hv2
      exact receiveV2Frame_framed hnow
    split
    case isTrue hlegacy =>
      subst hlegacy
      exact receiveLegacyFrame_framed hnow
    · exact counted_framed _ _
  · intro result ss₂ _
    apply along_seq (B := fun _ _ => True)
    · split
      · exact framed_does (statsIncrement_all (by simp) (Set.mem_univ _) _)
      · trivial
    · exact fun _ _ _ => trivial

theorem receiveDone_framed : along (framed d) receiveDone (fun _ _ => True) ss := by
  apply framed_does
  refine (Does.lock (Set.mem_univ _)).bind fun _ => Does.bind ?_ fun _ => (Does.load (by simp)).bind fun active =>
    Does.bind ?_ fun _ => Does.unlock (Set.mem_univ _)
  · exact Does.labelled .receivers (by simp) (fun _ => rfl) (fun m => ⟨_, rfl⟩) (fun _ => rfl) fun _ _ => rfl
  · split
    · exact Does.broadcast
    · exact Does.pure _

theorem raspikeProtReceive_framed : along (framed d) raspikeProtReceive (fun _ _ => True) ss := by
  apply along_seq (B := fun _ _ => True) (along_lock trivial)
  intro _ ss₁ _
  apply along_seq (framed_does (Does.orElse (Does.load (by simp))
    (Does.orElse (Does.load (by simp)) (Does.load (by simp)))))
  intro down ss₂ _
  split
  case isTrue => exact along_seq (B := fun _ _ => True) (along_unlock trivial) fun _ _ _ => trivial
  apply along_seq (B := fun _ ss' => takenNow d ss' = [])
  · exact along_act fun m _ => ⟨framed_quiet (fun r hr => by cases r <;> cases hr) _, rfl⟩
  intro _ ss₃ h₃
  apply along_seq (B := fun _ ss' => takenNow d ss' = []) (along_unlock h₃)
  intro _ ss₄ h₄
  apply along_seq (receiveFrame_framed h₄)
  intro result ss₅ _
  apply along_seq receiveDone_framed
  exact fun _ _ _ => trivial

/-! ## in a run -/

theorem body_framed {c : Call} (hc : ∀ desc, c ≠ .init desc) :
    ∀ ss, along (framed d) c.body (fun _ _ => True) ss := by
  have hreq : requestKinds ⊆ {k | k ≠ .recv} := by
    rintro k hk rfl
    exact hk
  have hdev : deviceKinds ⊆ {k | k ≠ .recv} := by
    rintro k hk rfl
    simp [deviceKinds] at hk
  have hclient : c.isClient → ∀ ss, along (framed d) c.body (fun _ _ => True) ss :=
    body_passes (framed_passes.mono hdev (Set.subset_univ _))
      (fun port cmd buf size _ => framed_does (raspikeProtSend_all hreq (Set.subset_univ _) port cmd buf size))
      (fun port cmd buf size _ => framed_does (raspikeProtSendPriority_all hreq (Set.subset_univ _) port cmd buf size))
      (fun port cmd data size _ => framed_does (raspikeRequest_all hreq (Set.subset_univ _) port cmd data size))
  cases c with
  | init desc => exact (hc desc rfl).elim
  | shutdown =>
    refine fun ss => framed_does ((raspikeProtShutdown_all ?_ (Set.subset_univ _) fun _ => by simp).bind fun _ =>
      Does.pure _)
    rintro k hk rfl
    simp [shutdownKinds] at hk
  | receive => exact fun ss => along_seq raspikeProtReceive_framed fun _ _ _ => trivial
  | _ => exact hclient rfl

theorem client_framed {calls : List Call} (hc : ∀ c ∈ calls, ∀ desc, c ≠ .init desc) :
    along (framed d) (client calls) (fun _ _ => True) ss := by
  refine client_passes (F := fun _ p => ∀ ss, along (framed d) p (fun _ _ => True) ss)
    (framed_passes.mono ?_ (Set.subset_univ _)) (fun c hmem => body_framed (hc c hmem)) ss
  simp

end

section
variable {T : Type} [DecidableEq T] {d₀ : Nat} {m : Mem} {t : T}

/-- in its present receive the thread has read the frame -/
def HasRead (tr : Trace T) (t : T) (r : Raw) : Prop :=
  ∃ as bs, tr = as ++ (t, r.event) :: bs ∧ (t, .receiverIn) ∉ as

/-- and it is what the thread had taken from the device of `d` in this receive -/
def ReadFrom (d : Nat) (t : T) (c₀ c : Sys T) (r : Raw) : Prop :=
  ∃ xs s ss, Follows t c₀ (xs ++ s :: ss) c ∧ (∀ x ∈ xs, Own.enters x = false) ∧
    Own.label s = some r.event ∧ r.bytes = takenNow d ss

/-- **The bytes of a frame** are those that its receive has taken. -/
theorem hasRead_readFrom (hm : Connected d₀ m) {calls : T → List Call} (hc : NoInit calls) {c : Sys T}
    (hr : Reach (start m calls) c) {r : Raw} (h : HasRead c.trace t r) : ReadFrom d₀ t (start m calls) c r := by
  obtain ⟨ss, hf⟩ := hr.follows t
  have honly : ∀ m x m', Own.act m x m' ∈ ss → Only d₀ m := by
    refine hf.memory (R := Only d₀) fun c₁ hr₁ d' hd => ?_
    obtain ⟨gs, hI⟩ := lifetime_refines hm.idle hc hr₁
    rw [hI.desc] at hd
    split at hd
    · cases hd
    · exact (Option.some.inj hd).symm
  have hrel : (framed d₀).Relies [] ss := recording_relies honly
  have hgives := hf.gives (client_framed (hc t)) hrel
  obtain ⟨as, bs, htr, has⟩ := h
  have hlabels := hf.labels rfl
  rw [htr, ownLabels_append, ownLabels_self] at hlabels
  obtain ⟨xs, ss', rfl, hxs, hss'⟩ := List.filterMap_eq_append_iff.mp hlabels
  obtain ⟨ys, s, zs, rfl, hys, hs, -⟩ := List.filterMap_eq_cons_iff.mp hss'
  rw [← List.append_assoc] at hf hgives
  refine ⟨xs ++ ys, s, zs, hf, fun x hx => ?_, hs, ?_⟩
  · obtain hx | hx := List.mem_append.mp hx
    · unfold Own.enters
      cases hlabel : x.label with
      | none => rfl
      | some e =>
        have hown : e ∈ ownLabels t as := hxs ▸ List.mem_filterMap.mpr ⟨x, hx, hlabel⟩
        cases e with
        | receiverIn => exact (has (mem_ownLabels.mp hown)).elim
        | _ => rfl
    · unfold Own.enters
      rw [hys x hx]
      rfl
  · have hafter : (framed d₀).after [] zs = zs := (recording_after [] zs).trans (List.append_nil zs)
    have hstep : framedStep d₀ ((framed d₀).after [] zs) s := (Local.gives_append.mp hgives).1.2
    rw [hafter] at hstep
    exact hstep r hs

end

end RaspikeArt
