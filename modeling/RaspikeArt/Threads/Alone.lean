import RaspikeArt.Threads.Logic

/-!
# Threads, part 5: a thread that runs alone

When only one thread runs, its ghost can be the world itself: in the logic `alone K P` a program is
executed step by step from a world that is known exactly, and `P` is what every world on the way
has to satisfy.

* `alone_act`, `alone_load` ..  one rule per instruction;
* `alone_all`                   a program whose instructions all keep a relation to the first world;
* `alone_via`                   soundness: `P` holds of every world of a run.
-/

set_option linter.unusedSectionVars false

namespace Threads

variable {L C E σ : Type} {α β S : Type} [DecidableEq L]

def alone (K P : World Unit L E σ → Prop) : Logic Unit L C E σ where
  G := World Unit L E σ
  K := K
  I w gs := gs () = w ∧ P w
  A := fun _ _ _ => True

/-- from the world `w` the program `p` ends, if it ends, as `Q` says, and every world on the way
satisfies `P`, provided that it satisfies `K` -/
def Alone (K P : World Unit L E σ → Prop) (p : Prog L C E σ α) (Q : α → World Unit L E σ → Prop)
    (w : World Unit L E σ) : Prop :=
  wp (alone K P) () p Q w

section
variable {K P : World Unit L E σ → Prop} {w : World Unit L E σ}

theorem alone_bind {p : Prog L C E σ α} {q : α → Prog L C E σ β} {Q : β → World Unit L E σ → Prop}
    (h : Alone K P p (fun a w' => Alone K P (q a) Q w') w) : Alone K P (p >>= q) Q w :=
  wp_bind h

theorem alone_mono {p : Prog L C E σ α} {Q Q' : α → World Unit L E σ → Prop}
    (hQ : ∀ a w, Q a w → Q' a w) (h : Alone K P p Q w) : Alone K P p Q' w :=
  wp_mono hQ h

theorem alone_seq {p : Prog L C E σ α} {q : α → Prog L C E σ β} {Q : β → World Unit L E σ → Prop}
    (R : α → World Unit L E σ → Prop) (hp : Alone K P p R w)
    (hq : ∀ a w', R a w' → Alone K P (q a) Q w') : Alone K P (p >>= q) Q w :=
  wp_seq R hp hq

theorem alone_pure {a : α} {Q : α → World Unit L E σ → Prop} (h : Q a w) :
    Alone K P (pure a : Prog L C E σ α) Q w := h

theorem alone_act {e : σ → Option E} {f : σ → β × σ} {Q : β → World Unit L E σ → Prop}
    (h : P w → K (w.act () e f) → P (w.act () e f) ∧ Q (f w.mem).1 (w.act () e f)) :
    Alone K P (.act e f .ret : Prog L C E σ β) Q w := by
  rintro w' gs ⟨hw, hP⟩ hg hK
  obtain rfl : w' = w := hw.symm.trans hg
  exact ⟨w'.act () e f, ⟨Function.update_self .., (h hP hK).1⟩, (h hP hK).2⟩

/-- an access of which the effect in the world at hand is known -/
theorem alone_eval {e : σ → Option E} {f : σ → β × σ} {Q : β → World Unit L E σ → Prop}
    {x : Option E} {b : β} {m : σ} (he : e w.mem = x) (hf : f w.mem = (b, m))
    (h : P w → K { w with mem := m, trace := World.push () x w.trace } →
      P { w with mem := m, trace := World.push () x w.trace } ∧
        Q b { w with mem := m, trace := World.push () x w.trace }) :
    Alone K P (.act e f .ret : Prog L C E σ β) Q w := by
  refine alone_act fun hP hK => ?_
  have hact : w.act () e f = { w with mem := m, trace := World.push () x w.trace } := by
    unfold World.act
    rw [he, hf]
  rw [hact] at hK ⊢
  rw [hf]
  exact h hP hK

theorem alone_load {f : σ → β} {Q : β → World Unit L E σ → Prop} (h : P w → K w → Q (f w.mem) w) :
    Alone K P (load f : Prog L C E σ β) Q w :=
  alone_act fun hP hK => ⟨hP, h hP hK⟩

theorem alone_tick {e : E} {Q : Unit → World Unit L E σ → Prop}
    (h : P w → K { w with trace := ((), e) :: w.trace } →
      P { w with trace := ((), e) :: w.trace } ∧ Q () { w with trace := ((), e) :: w.trace }) :
    Alone K P (tick e : Prog L C E σ Unit) Q w :=
  alone_act h

theorem alone_lock {l : L} {Q : Unit → World Unit L E σ → Prop}
    (h : P w → w.own l = none → P (w.acquire () l) ∧ Q () (w.acquire () l)) :
    Alone K P (lock l : Prog L C E σ Unit) Q w := by
  refine ⟨trivial, ?_⟩
  rintro w' gs ⟨hw, hP⟩ hg hl
  obtain rfl : w' = w := hw.symm.trans hg
  exact ⟨_, ⟨Function.update_self .., (h hP hl).1⟩, (h hP hl).2⟩

theorem alone_unlock {l : L} {Q : Unit → World Unit L E σ → Prop}
    (h : P w → P (w.release l) ∧ Q () (w.release l)) :
    Alone K P (unlock l : Prog L C E σ Unit) Q w := by
  refine ⟨trivial, ?_⟩
  rintro w' gs ⟨hw, hP⟩ hg
  obtain rfl : w' = w := hw.symm.trans hg
  exact ⟨_, ⟨Function.update_self .., (h hP).1⟩, (h hP).2⟩

theorem alone_loop {s : S} {body : S → Prog L C E σ (S ⊕ β)} {Q : β → World Unit L E σ → Prop}
    (J : S → World Unit L E σ → Prop) (hJ : J s w)
    (h : ∀ s w, J s w → Alone K P (body s)
      (fun r w' => match r with | .inl s' => J s' w' | .inr b => Q b w') w) :
    Alone K P (loopFrom s body) Q w :=
  wp_loopFrom J hJ h

theorem alone_forEach {ι : Type} {is : List ι} {body : ι → Prog L C E σ Unit}
    {Q : Unit → World Unit L E σ → Prop} (J : World Unit L E σ → Prop) (hJ : J w)
    (h : ∀ i ∈ is, ∀ w, J w → Alone K P (body i) (fun _ => J) w) (hQ : ∀ w, J w → Q () w) :
    Alone K P (forEach is body) Q w := by
  refine wp_forEach (fun js w => (∀ j ∈ js, j ∈ is) ∧ J w) ⟨fun _ hj => hj, hJ⟩ ?_ fun w h => hQ w h.2
  rintro i js w ⟨hmem, hw⟩
  refine alone_mono (fun _ _ hw' => ⟨fun j hj => hmem j (List.mem_cons_of_mem _ hj), hw'⟩) ?_
  exact h i (hmem i List.mem_cons_self) w hw

/-- a relation to the first world that no instruction of `p` breaks -/
theorem alone_all {okAct : (σ → Option E) → (σ → σ) → Prop} {okLock : L → Prop}
    {R : World Unit L E σ → Prop}
    (hact : ∀ e (f : σ → σ) w, okAct e f → R w → P w →
      K { w with mem := f w.mem, trace := World.push () (e w.mem) w.trace } →
      P { w with mem := f w.mem, trace := World.push () (e w.mem) w.trace } ∧
        R { w with mem := f w.mem, trace := World.push () (e w.mem) w.trace })
    (hacq : ∀ l w, okLock l → w.own l = none → R w → P w → P (w.acquire () l) ∧ R (w.acquire () l))
    (hrel : ∀ l w, okLock l → R w → P w → P (w.release l) ∧ R (w.release l))
    {p : Prog L C E σ α} (hp : p.All okAct okLock) : ∀ {Q : α → World Unit L E σ → Prop} {w},
    R w → (∀ a w', R w' → Q a w') → Alone K P p Q w := by
  induction p with
  | ret a => exact fun hR hQ => hQ a _ hR
  | act e f k ih =>
    intro Q w hR hQ w' gs hI hg hK
    obtain rfl : w' = w := hI.1.symm.trans hg
    obtain ⟨hP', hR'⟩ := hact e _ w' hp.1 hR hI.2 hK
    exact ⟨_, ⟨Function.update_self .., hP'⟩, ih _ (hp.2 _) hR' hQ⟩
  | lock l k ih =>
    intro Q w hR hQ
    refine ⟨trivial, fun w' gs hI hg hl => ?_⟩
    obtain rfl : w' = w := hI.1.symm.trans hg
    obtain ⟨hP', hR'⟩ := hacq l w' hp.1 hl hR hI.2
    exact ⟨_, ⟨Function.update_self .., hP'⟩, ih hp.2 hR' hQ⟩
  | unlock l k ih =>
    intro Q w hR hQ
    refine ⟨trivial, fun w' gs hI hg => ?_⟩
    obtain rfl : w' = w := hI.1.symm.trans hg
    obtain ⟨hP', hR'⟩ := hrel l w' hp.1 hR hI.2
    exact ⟨_, ⟨Function.update_self .., hP'⟩, ih hp.2 hR' hQ⟩
  | wait c l k ih =>
    intro Q w hR hQ
    refine ⟨trivial, fun w' gs hI hg => ?_⟩
    obtain rfl : w' = w := hI.1.symm.trans hg
    obtain ⟨hP', hR'⟩ := hrel l w' hp.1 hR hI.2
    refine ⟨_, ⟨Function.update_self .., hP'⟩, trivial, fun w₂ gs₂ hI₂ hg₂ hl => ?_⟩
    obtain rfl : w₂ = w'.release l := hI₂.1.symm.trans hg₂
    obtain ⟨hP₂, hR₂⟩ := hacq l _ hp.1 hl hR' hI₂.2
    exact ⟨_, ⟨Function.update_self .., hP₂⟩, fun r => ih r (hp.2 r) hR₂ hQ⟩
  | blocked c l k ih =>
    intro Q w hR hQ
    refine ⟨trivial, fun w' gs hI hg hl => ?_⟩
    obtain rfl : w' = w := hI.1.symm.trans hg
    obtain ⟨hP', hR'⟩ := hacq l w' hp.1 hl hR hI.2
    exact ⟨_, ⟨Function.update_self .., hP'⟩, fun r => ih r (hp.2 r) hR' hQ⟩
  | woken l r k ih =>
    intro Q w hR hQ
    refine ⟨trivial, fun w' gs hI hg hl => ?_⟩
    obtain rfl : w' = w := hI.1.symm.trans hg
    obtain ⟨hP', hR'⟩ := hacq l w' hp.1 hl hR hI.2
    exact ⟨_, ⟨Function.update_self .., hP'⟩, ih r (hp.2 r) hR' hQ⟩
  | broadcast c k ih => exact fun hR hQ => ih hp hR hQ
  | loop s body k ihb ihk =>
    intro Q w hR hQ
    refine ⟨fun _ => R, hR, fun s w hR => ihb s (hp.1 s) hR fun r w' hR' => ?_⟩
    cases r with
    | inl s' => exact hR'
    | inr b => exact ihk b (hp.2 b) hR' hQ

end

section
variable [DecidableEq C] {K P : World Unit L E σ → Prop}

/-- **Soundness**: every world of a run of the program satisfies `P`. -/
theorem alone_via {w : World Unit L E σ} {p : Prog L C E σ Unit} {c : Config Unit L C E σ}
    (hP : P w) (h : Alone K P p (fun _ _ => True) w) (hr : Via K ⟨w, fun _ => p⟩ c) : P c.toWorld := by
  have hstart : (alone K P).Holds ⟨w, fun _ => p⟩ fun _ => w := ⟨⟨rfl, hP⟩, fun _ => h⟩
  obtain ⟨gs, ⟨-, hc⟩, -⟩ := (alone K P).reach hstart hr
  exact hc

end

end Threads
