import RaspikeArt.Lifetime.Descriptor
import RaspikeArt.Transport.Reading
import RaspikeArt.Transport.Handling

/-!
# Transport, part 16: what a thread consumes

The bytes that the own steps of a thread take from the device of `d`, whatever the device answers
and whatever the other threads do.

* `consumedBytes d ss`     the bytes taken, oldest first;
* `Reads d ss bs ss'` the steps between `ss` and `ss'` take `bs`, and none of them begins a receive;
* one lemma per function of the com layer; a successful receive of `n` bytes has taken these `n`.
-/

namespace RaspikeArt
open Threads

/-- what `process_command` is entered with -/
def Own.decoded (s : OwnStep) : Option Decoded := s.label.bind Event.decoded

/-- a receive passes its entry check -/
def Own.enters (s : OwnStep) : Bool := s.label.any Event.enters

/-- the bytes to come on `d` -/
def Mem.arriving (m : Mem) (d : Nat) : List Byte := arrives (m.com.desc d).rx

/-- the bytes that an access has taken from `d` -/
def takenBy (d : Nat) (m m' : Mem) : List Byte :=
  (m.arriving d).take ((m.arriving d).length - (m'.arriving d).length)

def consumedBytes (d : Nat) : List OwnStep → List Byte
  | [] => []
  | .act m _ m' :: ss => consumedBytes d ss ++ takenBy d m m'
  | .wake _ :: ss => consumedBytes d ss

theorem consumed_append (d : Nat) (xs ss : List OwnStep) :
    consumedBytes d (xs ++ ss) = consumedBytes d ss ++ consumedBytes d xs := by
  induction xs with
  | nil => exact (List.append_nil _).symm
  | cons x xs ih =>
    cases x with
    | act m x m' =>
      show consumedBytes d (xs ++ ss) ++ _ = _ ++ (_ ++ _)
      rw [ih, List.append_assoc]
    | wake c => exact ih

theorem takenBy_eq {d : Nat} {m m' : Mem} {bs : List Byte}
    (h : m.arriving d = bs ++ m'.arriving d) : takenBy d m m' = bs := by
  rw [takenBy, h, List.length_append, Nat.add_sub_cancel, List.take_left]

structure Reads (d : Nat) (ss : List OwnStep) (bs : List Byte) (ss' : List OwnStep) : Prop where
  steps : ∃ xs, ss' = xs ++ ss ∧ consumedBytes d xs = bs ∧ ∀ s ∈ xs, Own.enters s = false

theorem Reads.refl (d : Nat) (ss : List OwnStep) : Reads d ss [] ss :=
  ⟨[], rfl, rfl, fun _ hs => absurd hs List.not_mem_nil⟩

theorem Reads.trans {d : Nat} {ss ss₁ ss' : List OwnStep} {bs cs : List Byte} (h : Reads d ss bs ss₁)
    (h' : Reads d ss₁ cs ss') : Reads d ss (bs ++ cs) ss' := by
  obtain ⟨xs, rfl, rfl, hxs⟩ := h.steps
  obtain ⟨ys, rfl, rfl, hys⟩ := h'.steps
  refine ⟨ys ++ xs, (List.append_assoc ..).symm, consumed_append .., fun s hs => ?_⟩
  obtain hs | hs := List.mem_append.mp hs
  · exact hys s hs
  · exact hxs s hs

/-- one access -/
theorem Reads.act {d : Nat} {ss : List OwnStep} {bs : List Byte} {m m' : Mem} {x : Option Event}
    (h : m.arriving d = bs ++ m'.arriving d) (hx : x.any Event.enters = false) :
    Reads d ss bs (.act m x m' :: ss) := by
  refine ⟨[.act m x m'], rfl, ?_, fun s hs => ?_⟩
  · show [] ++ takenBy d m m' = bs
    rw [takenBy_eq h, List.nil_append]
  · rw [List.mem_singleton.mp hs]
    exact hx

theorem Reads.consumed {d : Nat} {ss ss' : List OwnStep} {bs : List Byte} (h : Reads d ss bs ss') :
    consumedBytes d ss' = consumedBytes d ss ++ bs := by
  obtain ⟨xs, rfl, rfl, -⟩ := h.steps
  exact consumed_append ..

/-- an answer of the script is used up -/
theorem setDesc_arriving {m : Mem} {d : Nat} {rx rx' : List RxItem} {bs : List Byte}
    (hrx : (m.com.desc d).rx = rx) (h : arrives rx = bs ++ arrives rx') :
    m.arriving d = bs ++ (m.setDesc d fun s => { s with rx := rx' }).arriving d := by
  simp only [Mem.arriving, Mem.setDesc, Function.update_self, hrx, h]

/-- what one read ends with -/
def ReadOut {ε : Type} (d n : Nat) (ss : List OwnStep) : Except ε (List Byte) → List OwnStep → Prop
  | .ok bs, ss' => Reads d ss bs ss' ∧ bs.length ≤ n
  | .error _, ss' => Reads d ss [] ss'

/-- a step of a receive: it leaves no label but the one at its begin -/
def Own.Receiving (d : Nat) (s : OwnStep) : Prop := s.label = none ∨ s.label = some (.io d .receive)

theorem receiving_decoded {d : Nat} {s : OwnStep} (h : Own.Receiving d s) : Own.decoded s = none := by
  unfold Own.decoded
  obtain h | h := h <;> rw [h] <;> rfl

section
variable {R : Mem → Prop} {A : List OwnStep → OwnStep → Prop} {d : Nat} {ss : List OwnStep}
  (hA : ∀ ss s, Own.Receiving d s → A ss s)
include hA

theorem clockLate_reads : along (recording R A) (clockLate d .rx) (fun _ ss' => Reads d ss [] ss') ss := by
  apply along_act
  intro m _
  refine ⟨hA _ _ (.inl rfl), Reads.act ?_ rfl⟩
  split
  case h_1 r hrx => exact setDesc_arriving hrx rfl
  case h_2 => rfl

theorem waitFd_reads : along (recording R A) (waitFd d .rx) (fun _ ss' => Reads d ss [] ss') ss := by
  apply along_loop (fun _ ss' => Reads d ss [] ss') (Reads.refl d ss)
  intro _ ss₁ h
  apply along_seq (B := fun _ ss' => Reads d ss [] ss')
  · apply along_act
    intro m _
    refine ⟨hA _ _ (.inl rfl), h.trans (Reads.act ?_ rfl)⟩
    split
    case h_1 p r hrx => exact setDesc_arriving hrx rfl
    case h_2 => rfl
    case h_3 => rfl
  intro r ss₂ h₂
  split
  case h_1 e =>
    apply along_pure
    split <;> exact h₂
  all_goals exact h₂

theorem readFd_reads {n : Nat} : along (recording R A) (readFd d n) (ReadOut d n ss) ss := by
  apply along_act
  intro m _
  refine ⟨hA _ _ (.inl rfl), ?_⟩
  split
  case h_1 e r hrx =>
    show Reads d ss [] _
    exact Reads.act (setDesc_arriving hrx rfl) rfl
  case h_2 bs r hrx =>
    show Reads d ss (bs.take n) _ ∧ (bs.take n).length ≤ n
    refine ⟨Reads.act (setDesc_arriving hrx ?_) rfl, List.length_take_le n bs⟩
    exact (leftOver_arrives n bs r).symm
  case h_3 =>
    show Reads d ss [] _
    exact Reads.act rfl rfl

theorem rpUsbReceive_reads {n : Nat} : along (recording R A) (rpUsbReceive d n) (ReadOut d n ss) ss := by
  apply along_seq (B := fun _ ss' => Reads d ss [] ss')
  · exact along_act fun m _ => ⟨hA _ _ (.inl rfl), Reads.act rfl rfl⟩
  intro fd ss₁ h₁
  split
  case isTrue => exact h₁
  unfold readSomeFd
  split
  case isTrue => exact h₁
  apply along_seq (waitFd_reads hA)
  intro ready ss₂ h₂
  have h₂' : Reads d ss [] ss₂ := h₁.trans h₂
  split
  case isTrue => exact h₂'
  apply along_loop (fun _ ss' => Reads d ss [] ss') h₂'
  intro _ ss₃ h₃
  apply along_seq (readFd_reads hA)
  rintro (e | bs) ss₄ h₄
  · have herr : Reads d ss [] ss₄ := h₃.trans h₄
    show along _ (if e.int = EINTR then _ else _) _ _
    split
    case isTrue => exact herr
    split <;> exact herr
  · have hgot : Reads d ss bs ss₄ := h₃.trans h₄.1
    cases bs with
    | nil => exact hgot
    | cons b bs => exact ⟨hgot, h₄.2⟩

/-- a receive that succeeds has taken the bytes it returns -/
theorem raspikeComReceiveTimeout_reads {size : Nat} :
    along (recording R A) (raspikeComReceiveTimeout (some d) size) (fun r ss' => ∃ bs, Reads d ss bs ss' ∧
      bs.length ≤ size ∧ ∀ bs', r = .ok bs' → bs' = bs ∧ bs.length = size) ss := by
  unfold raspikeComReceiveTimeout
  dsimp only
  split
  case isTrue h =>
    subst h
    exact ⟨[], .refl d ss, Nat.le_refl 0, fun bs hbs => by cases hbs; exact ⟨rfl, rfl⟩⟩
  apply along_seq (B := fun _ ss' => Reads d ss [] ss')
  · exact along_act fun m _ => ⟨hA _ _ (.inr rfl), Reads.act rfl rfl⟩
  intro _ ss₁ h₁
  apply along_loop (fun received ss' => Reads d ss received ss' ∧ received.length ≤ size)
    ⟨h₁, Nat.zero_le _⟩
  rintro received ss₂ ⟨h₂, hle⟩
  show along _ (if received.length ≥ size then _ else _) _ _
  split
  case isTrue hfull =>
    refine ⟨received, h₂, hle, ?_⟩
    rintro _ ⟨⟩
    exact ⟨rfl, Nat.le_antisymm hle hfull⟩
  apply along_seq (clockLate_reads hA)
  intro late ss₃ h₃
  have h₃' := h₂.trans h₃
  rw [List.append_nil] at h₃'
  split
  case isTrue => exact ⟨received, h₃', hle, nofun⟩
  apply along_seq (rpUsbReceive_reads hA)
  rintro (e | bs) ss₄ h₄
  · have h₄' := h₃'.trans h₄
    rw [List.append_nil] at h₄'
    show along _ (if e = -EAGAIN ∨ e = -EINTR then _ else _) _ _
    split
    case isTrue => exact ⟨h₄', hle⟩
    case isFalse => exact ⟨received, h₄', hle, nofun⟩
  · refine ⟨h₃'.trans h₄.1, ?_⟩
    rw [List.length_append]
    have := h₄.2
    omega

end

/-- there is one descriptor to read from -/
def Only (d : Nat) (m : Mem) : Prop := ∀ d', m.fgDesc = some d' → d' = d

section
variable {A : List OwnStep → OwnStep → Prop} {d : Nat} {ss : List OwnStep}
  (hA : ∀ ss s, Own.Receiving d s → A ss s)
include hA

/-- a receive on the current descriptor -/
theorem receive_takes {size : Nat} : along (recording (Only d) A) (do
    let desc ← load fun m => m.fgDesc
    raspikeComReceiveTimeout desc size) (fun r ss' => ∀ bs, r = .ok bs → Reads d ss bs ss' ∧ bs.length = size) ss := by
  apply along_seq (B := fun desc ss' => (∀ d', desc = some d' → d' = d) ∧ Reads d ss [] ss')
  · apply along_act
    intro m hm
    exact ⟨hA _ _ (.inl rfl), hm, Reads.act rfl rfl⟩
  rintro (_ | d') ss₁ ⟨hd, h₁⟩
  · rintro bs ⟨⟩
  cases hd d' rfl
  apply along_mono ?_ (raspikeComReceiveTimeout_reads hA)
  rintro r ss₂ ⟨bs, h₂, -, hok⟩ bs' hbs
  obtain ⟨rfl, hlen⟩ := hok bs' hbs
  exact ⟨h₁.trans h₂, hlen⟩

/-- and what comes after it -/
theorem receive_reads {α : Type} {size : Nat} {k : Except Int (List Byte) → P α} {Q : α → List OwnStep → Prop}
    (h : ∀ r ss', (∀ bs, r = .ok bs → Reads d ss bs ss' ∧ bs.length = size) →
      along (recording (Only d) A) (k r) Q ss') :
    along (recording (Only d) A) (do
      let desc ← load fun m => m.fgDesc
      k (← raspikeComReceiveTimeout desc size)) Q ss := by
  have hk := along_seq (receive_takes hA) h
  exact hk

end

/-! ## the errors -/

theorem rpUsbReceive_fails (d n : Nat) : (rpUsbReceive d n).Yields fun r => ∀ e, r = .error e → e < 0 := by
  apply Prog.Yields.bind Prog.Yields.trivial
  intro fd _
  split
  case isTrue =>
    rintro e ⟨⟩
    decide
  unfold readSomeFd
  split
  case isTrue =>
    rintro e ⟨⟩
    decide
  apply Prog.Yields.bind Prog.Yields.trivial
  intro ready _
  split
  case isTrue hready =>
    rintro e ⟨⟩
    exact hready
  refine ⟨fun _ => True, trivial, fun _ _ => ?_⟩
  apply Prog.Yields.bind Prog.Yields.trivial
  intro r _
  split
  · rintro e ⟨⟩
    decide
  · exact nofun
  case h_3 e =>
    split
    case isTrue => trivial
    split
    case isTrue =>
      rintro e ⟨⟩
      decide
    case isFalse =>
      rintro _ ⟨⟩
      exact e.neg_lt

theorem raspikeComReceiveTimeout_fails (desc : Option Nat) (size : Nat) :
    (raspikeComReceiveTimeout desc size).Yields fun r => ∀ e, r = .error e → e < 0 := by
  cases desc with
  | none =>
    rintro e ⟨⟩
    decide
  | some d =>
    unfold raspikeComReceiveTimeout
    dsimp only
    split
    case isTrue => exact nofun
    apply Prog.Yields.bind Prog.Yields.trivial
    intro _ _
    refine ⟨fun _ => True, trivial, fun received _ => ?_⟩
    dsimp only
    split
    case isTrue => exact nofun
    apply Prog.Yields.bind Prog.Yields.trivial
    intro late _
    split
    case isTrue =>
      rintro e ⟨⟩
      decide
    apply (rpUsbReceive_fails d _).bind
    rintro (e | bs) hr
    · dsimp only
      split
      case isTrue => trivial
      case isFalse =>
        rintro _ ⟨⟩
        exact hr e rfl
    · trivial

end RaspikeArt
