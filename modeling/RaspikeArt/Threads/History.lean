import RaspikeArt.Threads.Run

/-!
# Threads, part 4: histories read by an abstract machine

A `Machine` reads a history entry by entry, oldest first: `next` is its transition function and
`ok` the guard that says which entry it accepts in which state.

* `replay a tr`   the state reached from `a` over the history `tr`;
* `Legal a tr`    every entry of `tr` was accepted;
* `Legal.inv`     an invariant of accepted steps holds after every legal history;
* `Along P tr`    every entry of `tr` satisfies `P`, given the history before it;
* `Reach.history` induction over the history of a run.
-/

namespace Threads

structure Machine (T E A : Type) where
  next : A → T → E → A
  ok : A → T → E → Prop

namespace Machine

variable {T E A : Type}

def replay (M : Machine T E A) (a : A) : List (T × E) → A
  | [] => a
  | (t, e) :: tr => M.next (replay M a tr) t e

def Legal (M : Machine T E A) (a : A) : List (T × E) → Prop
  | [] => True
  | (t, e) :: tr => M.ok (M.replay a tr) t e ∧ Legal M a tr

variable (M : Machine T E A) {a : A}

@[simp] theorem replay_nil (a : A) : M.replay a [] = a := rfl
@[simp] theorem replay_cons (a : A) (t : T) (e : E) (tr : List (T × E)) :
    M.replay a ((t, e) :: tr) = M.next (M.replay a tr) t e := rfl
@[simp] theorem legal_nil (a : A) : M.Legal a [] := trivial
@[simp] theorem legal_cons (a : A) (t : T) (e : E) (tr : List (T × E)) :
    M.Legal a ((t, e) :: tr) ↔ M.ok (M.replay a tr) t e ∧ M.Legal a tr := Iff.rfl

variable {M}

theorem Legal.tail {x : T × E} {tr : List (T × E)} (h : M.Legal a (x :: tr)) : M.Legal a tr := h.2

theorem Legal.suffix {as bs : List (T × E)} (h : M.Legal a (as ++ bs)) : M.Legal a bs := by
  induction as with
  | nil => exact h
  | cons x as ih => exact ih h.tail

/-- the guard of an entry in the middle of a legal history -/
theorem Legal.guard {as bs : List (T × E)} {t : T} {e : E} (h : M.Legal a (as ++ (t, e) :: bs)) :
    M.ok (M.replay a bs) t e :=
  h.suffix.1

theorem Legal.inv {J : A → Prop} (h₀ : J a) (hstep : ∀ b t e, J b → M.ok b t e → J (M.next b t e))
    {tr : List (T × E)} (h : M.Legal a tr) : J (M.replay a tr) := by
  induction tr with
  | nil => exact h₀
  | cons x tr ih => exact hstep _ _ _ (ih h.tail) h.1

/-- a fact that no accepted step undoes -/
theorem Legal.stable {J : A → Prop} (hstep : ∀ b t e, J b → M.ok b t e → J (M.next b t e))
    {as bs : List (T × E)} (h : M.Legal a (as ++ bs)) (hJ : J (M.replay a bs)) :
    J (M.replay a (as ++ bs)) := by
  induction as with
  | nil => exact hJ
  | cons x as ih => exact hstep _ _ _ (ih h.tail) h.1

end Machine

/-! ## a property of every entry -/

variable {T E : Type}

def Along (P : List (T × E) → T → E → Prop) : List (T × E) → Prop
  | [] => True
  | (t, e) :: tr => P tr t e ∧ Along P tr

theorem Along.split {P : List (T × E) → T → E → Prop} {as bs : List (T × E)} {t : T} {e : E}
    (h : Along P (as ++ (t, e) :: bs)) : P bs t e := by
  induction as with
  | nil => exact h.1
  | cons a as ih => exact ih h.2

theorem Along.of_split {P : List (T × E) → T → E → Prop} {tr : List (T × E)}
    (h : ∀ as t e bs, tr = as ++ (t, e) :: bs → P bs t e) : Along P tr := by
  induction tr with
  | nil => trivial
  | cons x tr ih =>
    obtain ⟨t, e⟩ := x
    exact ⟨h [] t e tr rfl, ih fun as u e' bs heq => h ((t, e) :: as) u e' bs (congrArg _ heq)⟩

instance Along.decidable {P : List (T × E) → T → E → Prop} [∀ tr t e, Decidable (P tr t e)] :
    (tr : List (T × E)) → Decidable (Along P tr)
  | [] => isTrue trivial
  | (t, e) :: tr =>
    have := Along.decidable (P := P) tr
    inferInstanceAs (Decidable (P tr t e ∧ Along P tr))

section
variable {L C σ : Type} [DecidableEq T] [DecidableEq L] [DecidableEq C]

/-- what holds of the first history and is kept by every new entry holds of every history -/
theorem Reach.history {c₀ c : Config T L C E σ} {P : List (T × E) → Prop} (hr : Reach c₀ c)
    (h₀ : P c₀.trace) (hstep : ∀ {c c' : Config T L C E σ} {t e}, Reach c₀ c → Reach c₀ c' →
      c'.trace = (t, e) :: c.trace → P c.trace → P ((t, e) :: c.trace)) : P c.trace := by
  induction hr with
  | refl => exact h₀
  | @step c c' ch hr hs ih =>
    rcases step_trace hs with htr | ⟨⟨t, e⟩, htr⟩
    · rwa [htr]
    · rw [htr]
      exact hstep hr (hr.step hs) htr ih

end

end Threads
