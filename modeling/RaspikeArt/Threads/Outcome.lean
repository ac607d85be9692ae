import RaspikeArt.Threads.Finish

/-!
# Threads, part 9: how a thread ends that runs alone, if it ends

`Settles p w Q`: every end of `p` from `w` is as `Q` says.  A program whose loops the outside may
keep going has no `Finishes`, and what it leaves is still known.

* one rule per instruction, as in `Threads.Finish`;
* `settle_loop`     an invariant of the turns of a loop;
* `settle_all`      a fact about the memory that no access of the program changes;
* `Finishes.settles`  a program that ends, ends only that way.
-/

set_option linter.unusedSectionVars false

namespace Threads

variable {L C E σ : Type} {α β : Type} [DecidableEq L]

structure Settles (p : Prog L C E σ α) (w : World Unit L E σ) (Q : α → World Unit L E σ → Prop) :
    Prop where
  ends : ∀ a w', Ends p w a w' → Q a w'

section
variable {w : World Unit L E σ}

theorem Finishes.settles {p : Prog L C E σ α} {Q : α → World Unit L E σ → Prop}
    (h : Finishes p w Q) : Settles p w Q :=
  ⟨fun _ _ he => h.ends he⟩

theorem settle_mono {p : Prog L C E σ α} {Q Q' : α → World Unit L E σ → Prop} (h : Settles p w Q)
    (hQ : ∀ a w', Q a w' → Q' a w') : Settles p w Q' :=
  ⟨fun a w' he => hQ a w' (h.ends a w' he)⟩

/-- the rule of the intermediate assertion -/
theorem settle_seq {p : Prog L C E σ α} {q : α → Prog L C E σ β} {Q : β → World Unit L E σ → Prop}
    {R : α → World Unit L E σ → Prop} (hp : Settles p w R)
    (hq : ∀ a w', R a w' → Settles (q a) w' Q) : Settles (p >>= q) w Q := by
  constructor
  intro b w₂ he
  obtain ⟨a, w₁, h₁, h₂⟩ := Ends.of_bind he rfl
  exact (hq a w₁ (hp.ends a w₁ h₁)).ends b w₂ h₂

theorem settle_bind {p : Prog L C E σ α} {q : α → Prog L C E σ β} {Q : β → World Unit L E σ → Prop}
    (h : Settles p w fun a w' => Settles (q a) w' Q) : Settles (p >>= q) w Q :=
  settle_seq h fun _ _ hq => hq

theorem settle_pure {a : α} {Q : α → World Unit L E σ → Prop} (h : Q a w) :
    Settles (pure a : Prog L C E σ α) w Q := by
  constructor
  intro b w' he
  cases he
  exact h

theorem settle_act {e : σ → Option E} {f : σ → β × σ} {Q : β → World Unit L E σ → Prop}
    (h : Q (f w.mem).1 (w.act () e f)) : Settles (.act e f .ret : Prog L C E σ β) w Q := by
  constructor
  intro b w' he
  cases he with
  | act he =>
    cases he
    exact h

theorem settle_load {f : σ → β} {Q : β → World Unit L E σ → Prop} (h : Q (f w.mem) w) :
    Settles (load f : Prog L C E σ β) w Q :=
  settle_act h

theorem settle_modify {f : σ → σ} {Q : Unit → World Unit L E σ → Prop}
    (h : Q () { w with mem := f w.mem }) : Settles (modify f : Prog L C E σ Unit) w Q :=
  settle_act h

theorem settle_lock {l : L} {Q : Unit → World Unit L E σ → Prop}
    (h : w.own l = none → Q () (w.acquire () l)) : Settles (lock l : Prog L C E σ Unit) w Q := by
  constructor
  intro b w' he
  cases he with
  | lock hl he =>
    cases he
    exact h hl

theorem settle_unlock {l : L} {Q : Unit → World Unit L E σ → Prop} (h : Q () (w.release l)) :
    Settles (unlock l : Prog L C E σ Unit) w Q := by
  constructor
  intro b w' he
  cases he with
  | unlock he =>
    cases he
    exact h

theorem settle_broadcast {c : C} {Q : Unit → World Unit L E σ → Prop} (h : Q () w) :
    Settles (broadcast c : Prog L C E σ Unit) w Q := by
  constructor
  intro b w' he
  cases he with
  | broadcast he =>
    cases he
    exact h

/-- a fact about the memory that no access of the program changes -/
theorem settle_all {okAct : (σ → Option E) → (σ → σ) → Prop} {okLock : L → Prop} {R : σ → Prop}
    (hR : ∀ e f m, okAct e f → R m → R (f m)) {p : Prog L C E σ α} (hp : p.All okAct okLock)
    (h : R w.mem) : Settles p w fun _ w' => R w'.mem := by
  constructor
  intro a w' he
  have hpath := hp.path he
  clear he
  induction hpath with
  | refl => exact h
  | own _ _ ih => exact ih
  | act _ hA ih =>
    obtain ⟨e, f, hok, -, rfl⟩ := hA
    exact hR e f _ hok ih

end

/-! ## loops -/

variable {S : Type}

/-- what a turn of a loop comes to: another turn, or the end -/
def Turned (J : S → World Unit L E σ → Prop) (Q : β → World Unit L E σ → Prop) :
    S ⊕ β → World Unit L E σ → Prop
  | .inl s => J s
  | .inr b => Q b

theorem Ends.of_turn {q : Prog L C E σ β} {w w' : World Unit L E σ} {b : β} (h : Ends q w b w') :
    ∀ {S : Type} {body : S → Prog L C E σ (S ⊕ β)} {J : S → World Unit L E σ → Prop}
      {Q : β → World Unit L E σ → Prop} {p : Prog L C E σ (S ⊕ β)},
      (∀ s w, J s w → Settles (body s) w (Turned J Q)) →
      q = p.bind (Sum.elim (fun s => .loop s body .ret) .ret) → Settles p w (Turned J Q) → Q b w' := by
  induction h with
  | ret =>
    intro S body J Q p hbody hq hp
    cases p with
    | ret r =>
      cases r with
      | inl s => cases hq
      | inr b =>
        cases hq
        exact hp.ends _ _ .ret
    | _ => cases hq
  | act h ih =>
    intro S body J Q p hbody hq hp
    cases p with
    | ret r => cases r <;> cases hq
    | act e f k =>
      cases hq
      exact ih hbody rfl ⟨fun a w' he => hp.ends a w' (.act he)⟩
    | _ => cases hq
  | lock hl h ih =>
    intro S body J Q p hbody hq hp
    cases p with
    | ret r => cases r <;> cases hq
    | lock l k =>
      cases hq
      exact ih hbody rfl ⟨fun a w' he => hp.ends a w' (.lock hl he)⟩
    | _ => cases hq
  | unlock h ih =>
    intro S body J Q p hbody hq hp
    cases p with
    | ret r => cases r <;> cases hq
    | unlock l k =>
      cases hq
      exact ih hbody rfl ⟨fun a w' he => hp.ends a w' (.unlock he)⟩
    | _ => cases hq
  | broadcast h ih =>
    intro S body J Q p hbody hq hp
    cases p with
    | ret r => cases r <;> cases hq
    | broadcast c k =>
      cases hq
      exact ih hbody rfl ⟨fun a w' he => hp.ends a w' (.broadcast he)⟩
    | _ => cases hq
  | loop h ih =>
    intro S body J Q p hbody hq hp
    cases p with
    | ret r =>
      cases r with
      | inr b => cases hq
      | inl s =>
        cases hq
        refine ih hbody ?_ (hbody _ _ (hp.ends _ _ .ret))
        show (body _).bind _ = _
        congr 1
        funext r
        cases r <;> rfl
    | loop s body k =>
      cases hq
      exact ih hbody (Prog.turn_bind ..).symm ⟨fun a w' he => hp.ends a w' (.loop he)⟩
    | _ => cases hq

theorem settle_loop {w : World Unit L E σ} {s : S} {body : S → Prog L C E σ (S ⊕ β)}
    {Q : β → World Unit L E σ → Prop} (J : S → World Unit L E σ → Prop) (hJ : J s w)
    (h : ∀ s w, J s w → Settles (body s) w (Turned J Q)) : Settles (loopFrom s body) w Q := by
  have hstart : Settles (.ret (.inl s) : Prog L C E σ (S ⊕ β)) w (Turned J Q) := settle_pure hJ
  exact ⟨fun b w' he => he.of_turn h rfl hstart⟩

theorem settle_eval {w : World Unit L E σ} {e : σ → Option E} {f : σ → β × σ}
    {Q : β → World Unit L E σ → Prop} {x : Option E} {b : β} {m : σ} (he : e w.mem = x)
    (hf : f w.mem = (b, m)) (h : Q b { w with mem := m, trace := World.push () x w.trace }) :
    Settles (.act e f .ret : Prog L C E σ β) w Q :=
  (finish_eval he hf h).settles

end Threads
