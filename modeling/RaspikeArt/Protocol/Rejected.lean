import RaspikeArt.Model.Effects
import RaspikeArt.Threads.Local
import RaspikeArt.Transport.Listening
import RaspikeArt.Transport.Device
import RaspikeArt.Model.Connected

/-!
# A frame that is refused

Whatever the other threads do, a `raspike_prot_receive` that answers a negative number has only read
from the device and counted.

* `OnlyHeard m m'`    the memories differ in link counters and in the input that has been read;
* `Own.Harmless`      an own step does no more, but for the count of receivers when the call enters and leaves;
* `vetted`            the guarantee that a function of the receiver gives, and what it knows of its
                      steps so far;
* `Vetted r ss`       a negative result comes from harmless steps only: one lemma per function;
* `rejected_input`    so it is for every run in which a thread calls `raspike_prot_receive`.
-/

namespace RaspikeArt
open Threads

/-- `m` with these link counters, and with this input left for the devices -/
def Mem.heard (m : Mem) (s : LinkStats) (rx : Nat → List RxItem) : Mem :=
  { m with fgLinkStats := s, com := { m.com with desc := fun d => { m.com.desc d with rx := rx d } } }

/-- nothing else has changed than link counters, and input that has been read -/
def OnlyHeard (m m' : Mem) : Prop := m' = m.heard m'.fgLinkStats fun d => (m'.com.desc d).rx

theorem OnlyHeard.refl (m : Mem) : OnlyHeard m m := rfl

theorem OnlyHeard.trans {m m₁ m' : Mem} (h : OnlyHeard m m₁) (h' : OnlyHeard m₁ m') : OnlyHeard m m' := by
  refine Eq.trans h' ?_
  rw [h]
  rfl

theorem OnlyHeard.withRx (m : Mem) (rx : Nat → List RxItem) : OnlyHeard m (m.withRx rx) := rfl

/-- the count of receivers, moved as the label says -/
def Mem.counted (m : Mem) : Option Event → Mem
  | some .receiverIn => { m with fgActiveReceivers := m.fgActiveReceivers + 1 }
  | some .receiverOut => { m with fgActiveReceivers := m.fgActiveReceivers - 1 }
  | _ => m

def harmlessWake (c : CondVar) : Prop := ∀ i, c ≠ .port i

def Own.Harmless : OwnStep → Prop
  | .act m x m' => OnlyHeard (m.counted x) m'
  | .wake c => harmlessWake c

def Harmless (ss : List OwnStep) : Prop := ∀ s ∈ ss, Own.Harmless s

/-- an access that only reads from a device and counts -/
def HarmlessAcc (e : Mem → Option Event) (f : Mem → Mem) : Prop :=
  ∀ m, OnlyHeard (m.counted (e m)) (f m) ∧ ∀ c r, e m ≠ some (.returned c r)

/-- the thread may find any memory, and does not come back from a call -/
def vetted : Local CondVar Event Mem :=
  recording (fun _ => True) fun _ s => ∀ c r, s.label ≠ some (.returned c r)

theorem vetted_after (ss : List OwnStep) : vetted.after [] ss = ss :=
  (recording_after [] ss).trans (List.append_nil ss)

/-! ## what the functions do -/

section
variable {α : Type} {ks : Set Kind} {ss : List OwnStep}

/-- an access that is not an API label keeps the guarantee -/
theorem acc_unreturned {e : Mem → Option Event} {f : Mem → Mem} (h : Acc ks e f)
    (hks : Kind.call ∉ ks) (m : Mem) : ∀ c r, e m ≠ some (.returned c r) := by
  intro c r he
  obtain ⟨k, hk, hstep⟩ := h m
  have hkind : Kind.call = k := hstep.label _ he
  exact hks (hkind ▸ hk)

/-- the program only reads from devices and counts, and wakes no request -/
structure Idles (p : P α) : Prop where
  accesses : p.All HarmlessAcc fun _ => True
  wakes : p.Wakes harmlessWake

/-- it keeps harmless steps harmless, whatever else is known of them -/
theorem along_harmless {p : P α} (hp : Idles p) {B : List OwnStep → Prop}
    (hB : ∀ ss s, Own.Harmless s → B ss → B (s :: ss)) (h : B ss) : along vetted p (fun _ => B) ss := by
  apply along_all ?_ ?_ hp.accesses hp.wakes Prog.Yields.trivial h fun _ _ _ h => h
  · intro e f g m hacc hg _
    obtain ⟨hheard, hcall⟩ := hacc m
    exact ⟨hcall, hB _ _ hheard hg⟩
  · intro c g hc hg
    exact ⟨nofun, hB _ _ hc hg⟩

/-- a function that does harm, of which the result is known -/
theorem along_answers {p : P α} {R : α → Prop} (hp : Does {k | k ≠ .call} Set.univ p) (hy : p.Yields R) :
    along vetted p (fun a _ => R a) ss := by
  apply along_all (P := fun _ => True) ?_ ?_ hp Prog.Wakes.trivial hy
    trivial fun a _ h _ => h
  · intro e f g m hacc _ _
    exact ⟨acc_unreturned hacc (fun h => h rfl) m, trivial⟩
  · exact fun _ _ _ _ => ⟨nofun, trivial⟩

/-! ### programs that idle -/

section
variable {β : Type}

theorem Idles.bind {p : P α} {q : α → P β} (hp : Idles p) (hq : ∀ a, Idles (q a)) : Idles (p >>= q) :=
  ⟨hp.accesses.bind fun a => (hq a).accesses, hp.wakes.bind fun a => (hq a).wakes⟩

theorem Idles.pure (a : α) : Idles (pure a : P α) := ⟨True.intro, True.intro⟩

theorem Idles.act {e : Mem → Option Event} {f : Mem → α × Mem}
    (h : HarmlessAcc e fun m => (f m).2) : Idles (.act e f .ret : P α) :=
  ⟨⟨h, fun _ => True.intro⟩, Prog.Wakes.act⟩

/-- an access that leaves no label -/
theorem Idles.hear {f : Mem → α × Mem} (h : ∀ m, OnlyHeard m (f m).2) :
    Idles (.act (fun _ => none) f .ret : P α) :=
  Idles.act fun m => ⟨h m, by rintro _ _ ⟨⟩⟩

theorem Idles.load (f : Mem → α) : Idles (load f : P α) := Idles.hear fun m => .refl m

theorem Idles.tick {e : Event} (hc : ∀ m : Mem, m.counted (some e) = m) (he : ∀ c r, e ≠ .returned c r) :
    Idles (tick e : P Unit) :=
  Idles.act fun m => ⟨(hc m).symm ▸ .refl m, fun c r hl => he c r (Option.some.inj hl)⟩

theorem Idles.lock (l : Mutex) : Idles (lock l : P Unit) := ⟨⟨True.intro, True.intro⟩, True.intro⟩

theorem Idles.unlock (l : Mutex) : Idles (unlock l : P Unit) := ⟨⟨True.intro, True.intro⟩, True.intro⟩

/-- what only listens -/
theorem Idles.of_listens {p : P α} (hp : Listens p) : Idles p := by
  refine ⟨hp.accesses.mono ?_ fun _ h => h.elim, hp.quiet.mono fun _ h => h.elim⟩
  intro e f hf m
  obtain ⟨⟨rx, hrx⟩, hlabel⟩ := hf m
  rw [hrx]
  cases hx : e m with
  | none => exact ⟨.withRx m rx, by rintro _ _ ⟨⟩⟩
  | some x =>
    obtain ⟨d, rfl⟩ := hlabel x hx
    exact ⟨.withRx m rx, by rintro _ _ ⟨⟩⟩

theorem statsIncrement_idles (s : Stat) : Idles (statsIncrement s) := by
  apply (Idles.lock _).bind
  intro _
  apply (Idles.hear fun m => ?_).bind fun _ => Idles.unlock _
  exact (rfl : OnlyHeard m (m.bump s))

theorem receiveDone_idles : Idles receiveDone := by
  apply (Idles.lock _).bind
  intro _
  apply Idles.bind (Idles.act fun m => ?_)
  · intro _
    apply (Idles.load _).bind
    intro active
    apply Idles.bind _ fun _ => Idles.unlock _
    split
    · exact ⟨True.intro, by rintro _ ⟨⟩, True.intro⟩
    · exact Idles.pure _
  · exact ⟨rfl, by rintro _ _ ⟨⟩⟩

end

/-! ### steps of no harm -/

section
variable {B : List OwnStep → Prop} (hB : ∀ ss s, Own.Harmless s → B ss → B (s :: ss)) (h : B ss)
include hB h

theorem along_idle {f : Mem → α} {Q : α → List OwnStep → Prop} (hQ : ∀ a ss, B ss → Q a ss) :
    along vetted (load f : P α) Q ss :=
  along_act fun m _ => ⟨nofun, hQ _ _ (hB _ (.act m none m) (.refl m) h)⟩

theorem statsIncrement_along (s : Stat) : along vetted (statsIncrement s) (fun _ => B) ss :=
  along_harmless (statsIncrement_idles s) hB h

theorem receive_along (desc : Option Nat) (size : Nat) :
    along vetted (raspikeComReceiveTimeout desc size) (fun _ => B) ss :=
  along_harmless (.of_listens (raspikeComReceiveTimeout_listens desc size)) hB h

theorem discard_along (size : Nat) : along vetted (discardReceiveBytes size) (fun _ => B) ss :=
  along_harmless (.of_listens (discardReceiveBytes_listens size)) hB h

/-- a frame that is counted and refused -/
theorem counted_along {Q : Int → List OwnStep → Prop} (s : Stat) (r : Int) (hQ : ∀ ss, B ss → Q r ss) :
    along vetted (do statsIncrement s; return r) Q ss :=
  along_seq (statsIncrement_along hB h s) fun _ ss hss => along_pure (hQ ss hss)

end

end

/-! ## the receiver -/

/-- a negative result comes from harmless steps only -/
def Vetted (r : Int) (ss : List OwnStep) : Prop := r < 0 → Harmless ss

theorem harmless_cons {ss : List OwnStep} {s : OwnStep} (h : Own.Harmless s) (hs : Harmless ss) :
    Harmless (s :: ss) := List.forall_mem_cons.mpr ⟨h, hs⟩

/-- what answers 0 may do anything -/
theorem answers_along {p : P Int} {ss : List OwnStep} (hp : Does {k | k ≠ .call} Set.univ p)
    (hy : p.Yields (· = 0)) : along vetted p Vetted ss :=
  along_mono (fun _ _ hr hneg => absurd (hr ▸ hneg) (by decide)) (along_answers hp hy)

theorem updateStatus_yields (f : SpikeStatus → SpikeStatus) : (updateStatus f).Yields (· = 0) := by
  apply Prog.Yields.bind Prog.Yields.trivial
  intro _ _
  apply Prog.Yields.bind Prog.Yields.trivial
  intro _ _
  apply Prog.Yields.bind Prog.Yields.trivial
  intro _ _
  apply Prog.Yields.bind Prog.Yields.trivial
  exact fun _ _ => rfl

section
variable {ss : List OwnStep} (h : Harmless ss)
include h

theorem load_along {α : Type} {f : Mem → α} : along vetted (load f : P α) (fun _ => Harmless) ss :=
  along_idle (fun _ _ hs h => harmless_cons hs h) h fun _ _ h => h

theorem ackMatches_along (dev : RPPortDevice) (sequence session : U32) (ackCmd : Int) :
    along vetted (ackMatches dev sequence session ackCmd) (fun _ => Harmless) ss := by
  unfold ackMatches
  split
  case isFalse => exact h
  apply along_orElse
  apply along_mono _ (load_along h)
  intro b ss h
  split
  case isTrue => exact h
  split
  case isTrue => exact load_along h
  case isFalse => exact h

theorem refused_along (s : Stat) (r : Int) :
    along vetted (do statsIncrement s; return r) Vetted ss :=
  counted_along (fun _ _ hs h => harmless_cons hs h) h s r fun _ h _ => h

theorem processAck_along (i : Port) (sequence session : U32) (buf : List Byte) :
    along vetted (processAck i sequence session buf) Vetted ss := by
  apply along_seq (B := fun _ => Harmless) (along_lock h)
  intro _ ss h
  apply along_seq (load_along h)
  intro dev ss h
  apply along_seq (ackMatches_along h dev sequence session _)
  intro isCurrent ss h
  have hack : ∀ {k : Kind}, k ≠ .call → k ∈ ({k | k ≠ .call} : Set Kind) := fun h => h
  cases isCurrent with
  | true =>
    apply answers_along
    · apply Does.bind (acceptAck_all (hack nofun) i _ _ _ _)
      intro _
      apply Does.bind (Does.unlock (Set.mem_univ _))
      exact fun _ => Does.pure _
    · apply Prog.Yields.bind Prog.Yields.trivial
      intro _ _
      apply Prog.Yields.bind Prog.Yields.trivial
      exact fun _ _ => rfl
  | false =>
    apply along_seq (statsIncrement_along (fun _ _ hs h => harmless_cons hs h) h .staleAcks)
    intro _ ss h
    apply along_seq (B := fun _ => Harmless) (along_unlock h)
    exact fun _ _ h _ => h

theorem processCommand_along (port cmd flags : Byte) (sequence session : U32) (buf : List Byte) :
    along vetted (processCommand port cmd flags sequence session buf) Vetted ss := by
  have hall : ∀ {k : Kind}, k ≠ .call → k ∈ ({k | k ≠ .call} : Set Kind) := fun h => h
  have hkinds : commandKinds ⊆ {k | k ≠ .call} := by
    rintro k hk rfl
    simp [commandKinds] at hk
  have hclean : ∀ {r : Int} {ss}, Harmless ss → along vetted (pure r : P Int) Vetted ss := fun h _ => h
  apply along_seq (B := fun _ => Harmless)
  · exact along_act fun m _ => ⟨by rintro _ _ ⟨⟩, harmless_cons (s := .act m _ m) (.refl m) h⟩
  intro _ ss h
  split
  case isTrue =>
    apply answers_along
    · exact Does.bind (processHelloPayload_all (helloKinds_command.trans hkinds) (Set.subset_univ _) buf) fun _ => Does.pure _
    · exact Prog.Yields.bind Prog.Yields.trivial fun _ _ => rfl
  split
  case isTrue => exact refused_along h _ _
  apply along_seq (B := fun _ => Harmless)
  · apply along_seq (load_along h)
    intro v2 ss h
    split
    · exact load_along h
    · exact h
  intro stale ss h
  split
  case isTrue => exact refused_along h _ _
  split
  case isTrue =>
    split
    case isTrue => exact hclean h
    exact answers_along (updateStatus_all (hall (by simp)) (hall (by simp)) (Set.mem_univ _) _)
      (updateStatus_yields _)
  split
  case isTrue =>
    split
    case isTrue => exact hclean h
    apply answers_along
    · apply Does.bind (Does.lock (Set.mem_univ _))
      intro _
      apply Does.bind (setRuntimeTelemetry_all (hall (by simp)) _)
      intro _
      apply Does.bind (Does.unlock (Set.mem_univ _))
      exact fun _ => Does.pure _
    · apply Prog.Yields.bind Prog.Yields.trivial
      intro _ _
      apply Prog.Yields.bind Prog.Yields.trivial
      intro _ _
      apply Prog.Yields.bind Prog.Yields.trivial
      exact fun _ _ => rfl
  split
  case isTrue =>
    split
    case isTrue => exact hclean h
    exact answers_along (updateStatus_all (hall (by simp)) (hall (by simp)) (Set.mem_univ _) _)
      (updateStatus_yields _)
  split
  case isTrue =>
    split
    case isTrue => exact hclean h
    split
    case h_1 => exact hclean h
    case h_2 i _ => exact processAck_along h i sequence session buf
  split
  case isTrue => exact hclean h
  case isFalse => exact hclean h

theorem received_along (desc : Option Nat) (size : Nat) :
    along vetted (raspikeComReceiveTimeout desc size) (fun _ => Harmless) ss :=
  receive_along (fun _ _ hs h => harmless_cons hs h) h desc size

theorem mark_along {e : Event} (hc : ∀ m : Mem, m.counted (some e) = m) (he : ∀ c r, e ≠ .returned c r) :
    along vetted (tick e : P Unit) (fun _ => Harmless) ss :=
  along_harmless (Idles.tick hc he) (fun _ _ hs h => harmless_cons hs h) h

theorem receiveLegacyFrame_along : along vetted receiveLegacyFrame Vetted ss := by
  have hclean : ∀ {r : Int} {ss}, Harmless ss → along vetted (pure r : P Int) Vetted ss := fun h _ => h
  apply along_seq (load_along h)
  intro desc ss h
  apply along_seq (received_along h desc 3)
  rintro (e | header) ss h
  · exact hclean h
  show along vetted (receiveLegacyBody header) Vetted ss
  unfold receiveLegacyBody
  dsimp only
  split
  case isTrue => exact refused_along h _ _
  apply along_seq (B := fun _ => Harmless)
  · split
    case isTrue =>
      apply along_seq (load_along h)
      intro desc ss h
      exact received_along h desc _
    case isFalse => exact h
  rintro (e | payload) ss h
  · exact hclean h
  dsimp only
  apply along_seq (B := fun _ => Harmless)
  · exact mark_along h (fun _ => rfl) (by rintro _ _ ⟨⟩)
  intro _ ss h
  apply along_seq (statsIncrement_along (fun _ _ hs h => harmless_cons hs h) h .rxLegacyFrames)
  intro _ ss h
  apply along_seq (load_along h)
  intro session ss h
  exact processCommand_along h _ _ _ _ _ _

theorem receiveV2Frame_along : along vetted receiveV2Frame Vetted ss := by
  have hclean : ∀ {r : Int} {ss}, Harmless ss → along vetted (pure r : P Int) Vetted ss := fun h _ => h
  have hdiscarded : ∀ {ss size r}, Harmless ss → along vetted (do
      let _ ← discardReceiveBytes size
      statsIncrement .framingErrors
      return r) Vetted ss := by
    intro ss size r h
    apply along_seq (discard_along (fun _ _ hs h => harmless_cons hs h) h size)
    intro _ ss h
    exact refused_along h _ r
  apply along_seq (load_along h)
  intro desc ss h
  apply along_seq (received_along h desc _)
  rintro (e | header) ss h
  · exact hclean h
  show along vetted (receiveV2Body header) Vetted ss
  unfold receiveV2Body
  dsimp only
  split
  case isTrue => exact hdiscarded h
  split
  case isTrue => exact hdiscarded h
  apply along_seq (load_along h)
  intro desc ss h
  apply along_seq (received_along h desc _)
  rintro (e | rest) ss h
  · exact hclean h
  show along vetted (receiveV2Checked header rest) Vetted ss
  unfold receiveV2Checked
  dsimp only
  split
  case isTrue => exact refused_along h _ _
  apply along_seq (B := fun _ => Harmless)
  · exact mark_along h (fun _ => rfl) (by rintro _ _ ⟨⟩)
  intro _ ss h
  exact processCommand_along h _ _ _ _ _ _

theorem receiveFrame_along : along vetted receiveFrame Vetted ss := by
  have hclean : ∀ {r : Int} {ss}, Harmless ss → along vetted (pure r : P Int) Vetted ss := fun h _ => h
  apply along_seq (load_along h)
  intro desc ss h
  apply along_seq (received_along h desc 1)
  rintro (e | start) ss h
  · exact hclean h
  apply along_seq (B := Vetted)
  · unfold receiveStarted
    split
    case isTrue => exact receiveV2Frame_along h
    split
    case isTrue => exact receiveLegacyFrame_along h
    case isFalse => exact refused_along h _ _
  intro result ss hv
  apply along_seq (B := fun _ => Vetted result)
  · split
    case isTrue => exact statsIncrement_along (fun _ _ hs h hneg => harmless_cons hs (h hneg)) hv .rxFrames
    case isFalse => exact hv
  exact fun _ _ hv => hv

theorem raspikeProtReceive_along : along vetted raspikeProtReceive Vetted ss := by
  have hclean : ∀ {r : Int} {ss}, Harmless ss → along vetted (pure r : P Int) Vetted ss := fun h _ => h
  apply along_seq (B := fun _ => Harmless) (along_lock h)
  intro _ ss h
  apply along_seq (B := fun _ => Harmless)
  · apply along_orElse
    apply along_mono _ (load_along h)
    intro stop ss h
    split
    case isTrue => exact h
    apply along_orElse
    apply along_mono _ (load_along h)
    intro gone ss h
    split
    case isTrue => exact h
    exact load_along h
  intro down ss h
  split
  case isTrue =>
    apply along_seq (B := fun _ => Harmless) (along_unlock h)
    exact fun _ _ h => hclean h
  apply along_seq (B := fun _ => Harmless)
  · exact along_act fun m _ => ⟨nofun, harmless_cons (s := .act m (some .receiverIn) _) rfl h⟩
  intro _ ss h
  apply along_seq (B := fun _ => Harmless) (along_unlock h)
  intro _ ss h
  apply along_seq (receiveFrame_along h)
  intro result ss hv
  apply along_seq (along_harmless receiveDone_idles (fun _ _ hs h hneg => harmless_cons hs (h hneg)) hv)
  exact fun _ _ hv => hv

end

/-! ## a call -/

theorem OnlyHeard.active {m m' : Mem} (h : OnlyHeard m m') (a : Int) :
    OnlyHeard { m with fgActiveReceivers := a } { m' with fgActiveReceivers := a } := by
  have hlater : { m' with fgActiveReceivers := a } =
      { m.heard m'.fgLinkStats fun d => (m'.com.desc d).rx with fgActiveReceivers := a } :=
    congrArg (fun x : Mem => { x with fgActiveReceivers := a }) h
  exact hlater

theorem Mem.counted_eq (m : Mem) (x : Option Event) :
    m.counted x = { m with fgActiveReceivers := (m.counted x).fgActiveReceivers } := by
  unfold Mem.counted
  split <;> rfl

theorem harmless_chained {m m' : Mem} {ss : List OwnStep} (h : Harmless ss) (hc : Chained m ss m') :
    OnlyHeard { m with fgActiveReceivers := m'.fgActiveReceivers } m' := by
  induction ss generalizing m' with
  | nil =>
    cases hc
    exact .refl m
  | cons s ss ih =>
    obtain ⟨hs, hss⟩ := List.forall_mem_cons.mp h
    cases s with
    | act a x b =>
      obtain ⟨hchain, rfl⟩ := hc
      have hstep : OnlyHeard (a.counted x) m' := hs
      have hcount : m'.fgActiveReceivers = (a.counted x).fgActiveReceivers := by
        rw [hstep]
        rfl
      refine OnlyHeard.trans ((ih hss hchain).active m'.fgActiveReceivers) ?_
      rw [hcount, ← Mem.counted_eq]
      exact hstep
    | wake c => exact ih hss hc

/-- a program that is not the entry or the exit of a receiver -/
theorem settle_active {α : Type} {p : P α} (hp : Does {k | k ≠ .receivers} Set.univ p) {w : Solo} :
    Settles p w fun _ w' => w'.mem.fgActiveReceivers = w.mem.fgActiveReceivers := by
  refine settle_all (R := fun m => m.fgActiveReceivers = w.mem.fgActiveReceivers) ?_ hp rfl
  intro e f m hacc hm
  obtain ⟨k, hk, hstep⟩ := hacc m
  exact (hstep.touches.rest.active hk).trans hm

theorem receiveDone_active {w : Solo} : Settles receiveDone w fun _ w' =>
    w'.mem.fgActiveReceivers = w.mem.fgActiveReceivers - 1 := by
  apply settle_bind
  apply settle_lock
  intro _
  apply settle_bind
  apply settle_act
  apply settle_bind
  apply settle_load
  apply settle_bind
  have hend : ∀ {w₁ : Solo}, w₁.mem.fgActiveReceivers = w.mem.fgActiveReceivers - 1 →
      Settles (unlock .fgLifecycle : P Unit) w₁ fun _ w' =>
        w'.mem.fgActiveReceivers = w.mem.fgActiveReceivers - 1 := fun h => settle_unlock h
  split
  · apply settle_broadcast
    exact hend rfl
  · apply settle_pure
    exact hend rfl

/-- the call leaves as it has entered -/
theorem raspikeProtReceive_active {w : Solo} :
    Settles raspikeProtReceive w fun _ w' => w'.mem.fgActiveReceivers = w.mem.fgActiveReceivers := by
  have hother : ∀ k ≠ Kind.receivers, k ∈ ({k | k ≠ .receivers} : Set Kind) := fun _ h => h
  have hquiet := hother .quiet (by rintro ⟨⟩)
  apply settle_bind
  apply settle_lock
  intro _
  apply settle_seq (settle_active ?_)
  · intro down w₁ hdown
    split
    case isTrue =>
      apply settle_bind
      exact settle_unlock (settle_pure hdown)
    apply settle_bind
    apply settle_act
    apply settle_bind
    apply settle_unlock
    apply settle_seq (settle_active ?_)
    · intro result w₂ hread
      apply settle_seq receiveDone_active
      intro _ w₃ hleft
      apply settle_pure
      have hin : w₂.mem.fgActiveReceivers = w₁.mem.fgActiveReceivers + 1 := hread
      have hstart : w₁.mem.fgActiveReceivers = w.mem.fgActiveReceivers := hdown
      omega
    · refine receiveFrame_all (fun k hk => hother k ?_) (Set.subset_univ _) fun d => hother _ (by rintro ⟨⟩)
      rintro rfl
      simp [commandKinds] at hk
  · exact (Does.load hquiet).orElse ((Does.load hquiet).orElse (Does.load hquiet))

/-- **A refused frame** leaves the state alone: whatever the other threads do meanwhile, a call of
`raspike_prot_receive` that returns a negative number has only made harmless steps; with no other
thread at work the whole memory is as it was before the call, but for link counters and the input that
has been read. -/
theorem rejected_input :
    (∀ (T : Type) [DecidableEq T] (t : T) (c c' : Sys T) (q : Unit → P Unit) (ss : List OwnStep)
      (m m' : Mem) (r : Int), c.thr t = runCall .receive >>= q →
      Follows t c (.act m (some (.returned .receive (.int r))) m' :: ss) c' →
      (∀ s ∈ ss, ∀ x y, s.label ≠ some (.returned x y)) → r < 0 → Harmless ss) ∧
    ∀ (w w' : Solo) (r : Int), Ends raspikeProtReceive w r w' → r < 0 → OnlyHeard w.mem w'.mem := by
  have hnil : Harmless [] := fun _ hs => absurd hs List.not_mem_nil
  constructor
  · intro T _ t c c' q ss m m' r hc hf hfirst hneg
    have halong : along vetted (tick (.call .receive) >>= fun _ => raspikeProtReceive) Vetted [] := by
      apply along_seq (B := fun _ => Harmless)
      · exact mark_along hnil (fun _ => rfl) (by rintro _ _ ⟨⟩)
      · exact fun _ ss h => raspikeProtReceive_along h
    obtain ⟨a, heq, hv⟩ := call_returned (f := Ret.int) rfl hc hf hfirst (fun _ _ h => h) trivial
      (fun _ _ _ _ => trivial) halong
    cases heq
    exact hv hneg
  · intro w w' r he hneg
    obtain ⟨ss, hchain, -, hsound⟩ := he.along
    obtain ⟨hv, -⟩ := hsound vetted [] Vetted (raspikeProtReceive_along hnil) (recording_relies fun _ _ _ _ => trivial)
    rw [vetted_after] at hv
    have hsame := harmless_chained (hv hneg) hchain
    rwa [raspikeProtReceive_active.ends r w' he] at hsame

/-- a byte that starts no frame arrives -/
def junkStart : Sys Unit := solo (freshMem [.data [0x55]] []) [.api .receive]

theorem rejected_input_junk :
    ∃ c' s ss, exec junkStart (steps 26 ()) = some c' ∧ Follows () junkStart (s :: ss) c' ∧
      s.label = some (.returned .receive (.int (-EAGAIN))) ∧ Harmless ss := by
  obtain ⟨c', he⟩ : ∃ c', exec junkStart (steps 26 ()) = some c' :=
    Option.isSome_iff_exists.mp (by decide +kernel)
  have hlast : (ownSteps () 26 junkStart).head?.map Own.label =
      some (some (.returned .receive (.int (-EAGAIN)))) := by decide +kernel
  obtain ⟨m, m', hf, hfirst⟩ := ownSteps_returned he hlast (by decide +kernel)
  exact ⟨c', _, _, he, hf, rfl,
    rejected_input.1 Unit () _ _ (fun _ => pure ()) _ m m' _ rfl hf hfirst (by decide)⟩

end RaspikeArt
