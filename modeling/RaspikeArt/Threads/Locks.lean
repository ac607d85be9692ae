import RaspikeArt.Threads.Logic
import Mathlib.Data.Fintype.Card
import Mathlib.Data.Set.Insert
import Mathlib.Logic.Relation

/-!
# Threads: the mutexes in hand

`p.Obeys D H Q`: the program `p`, started with the mutexes `H` in hand, obeys the discipline `D`.  It
takes no mutex it has already, releases and waits with mutexes it has, and ends with mutexes that
satisfy `Q`; `D` says which accesses it may make with the mutexes it has, and which mutex it may take.

* `Obeys.bind`, `Obeys.locked` ..  one rule for each way to build a program;
* `World.held`                     the mutexes a thread has;
* `Obeys.reach`                    along a run every thread obeys with the mutexes it really has;
* `Config.Blocks`                  a thread waits for a mutex of another;
* `no_cycle`                       mutexes taken in the order of a rank never block in a circle;
* `Config.Alive`                   it can go on, or it sleeps on a condition variable;
* `exists_alive`                   where no circle is, every wait comes down to such a thread.
-/

set_option linter.unusedSectionVars false

namespace Threads

structure Discipline (L E σ : Type) where
  access : Set L → (σ → Option E) → (σ → σ) → Prop
  take : Set L → L → Prop

variable {T L C E σ : Type} {α β S : Type}

def Prog.Obeys (D : Discipline L E σ) :
    {α : Type} → Prog L C E σ α → Set L → (α → Set L → Prop) → Prop
  | _, .ret a, H, Q => Q a H
  | _, .act e f k, H, Q => D.access H e (fun m => (f m).2) ∧ ∀ b, (k b).Obeys D H Q
  | _, .lock l k, H, Q => (l ∉ H ∧ D.take H l) ∧ k.Obeys D (insert l H) Q
  | _, .unlock l k, H, Q => l ∈ H ∧ k.Obeys D (H \ {l}) Q
  | _, .wait _ l k, H, Q => (l ∈ H ∧ D.take (H \ {l}) l) ∧ ∀ r, (k r).Obeys D H Q
  | _, .blocked _ l k, H, Q => (l ∉ H ∧ D.take H l) ∧ ∀ r, (k r).Obeys D (insert l H) Q
  | _, .woken l _ k, H, Q => (l ∉ H ∧ D.take H l) ∧ ∀ r, (k r).Obeys D (insert l H) Q
  | _, .broadcast _ k, H, Q => k.Obeys D H Q
  | _, .loop s body k, H, Q => ∃ J : _ → Set L → Prop, J s H ∧ ∀ s H, J s H →
      (body s).Obeys D H fun r H' => match r with
        | .inl s' => J s' H'
        | .inr b => (k b).Obeys D H' Q

/-- a program that gives its mutexes back as they were -/
abbrev Prog.Keeps (D : Discipline L E σ) (H : Set L) (p : Prog L C E σ α) : Prop :=
  p.Obeys D H fun _ H' => H' = H

namespace Prog.Obeys

variable {D : Discipline L E σ} {H : Set L}

theorem mono {p : Prog L C E σ α} : ∀ {H : Set L} {Q Q' : α → Set L → Prop},
    (∀ a H, Q a H → Q' a H) → p.Obeys D H Q → p.Obeys D H Q' := by
  induction p with
  | ret a => intro H Q Q' hQ h; exact hQ _ _ h
  | act e f k ih => intro H Q Q' hQ h; exact ⟨h.1, fun b => ih b hQ (h.2 b)⟩
  | lock l k ih => intro H Q Q' hQ h; exact ⟨h.1, ih hQ h.2⟩
  | unlock l k ih => intro H Q Q' hQ h; exact ⟨h.1, ih hQ h.2⟩
  | wait c l k ih => intro H Q Q' hQ h; exact ⟨h.1, fun r => ih r hQ (h.2 r)⟩
  | blocked c l k ih => intro H Q Q' hQ h; exact ⟨h.1, fun r => ih r hQ (h.2 r)⟩
  | woken l r k ih => intro H Q Q' hQ h; exact ⟨h.1, fun r => ih r hQ (h.2 r)⟩
  | broadcast c k ih => intro H Q Q' hQ h; exact ih hQ h
  | loop s body k ihb ihk =>
    intro H Q Q' hQ h
    obtain ⟨J, hJ, hbody⟩ := h
    refine ⟨J, hJ, fun s H hs => ihb s (fun r H' hr => ?_) (hbody s H hs)⟩
    cases r with
    | inl s' => exact hr
    | inr b => exact ihk b hQ hr

theorem bind' {p : Prog L C E σ α} {q : α → Prog L C E σ β} {Q : β → Set L → Prop} :
    ∀ {H : Set L}, p.Obeys D H (fun a H' => (q a).Obeys D H' Q) → (p.bind q).Obeys D H Q := by
  induction p with
  | ret a => intro H h; exact h
  | act e f k ih => intro H h; exact ⟨h.1, fun b => ih b (h.2 b)⟩
  | lock l k ih => intro H h; exact ⟨h.1, ih h.2⟩
  | unlock l k ih => intro H h; exact ⟨h.1, ih h.2⟩
  | wait c l k ih => intro H h; exact ⟨h.1, fun r => ih r (h.2 r)⟩
  | blocked c l k ih => intro H h; exact ⟨h.1, fun r => ih r (h.2 r)⟩
  | woken l r k ih => intro H h; exact ⟨h.1, fun r => ih r (h.2 r)⟩
  | broadcast c k ih => intro H h; exact ih h
  | loop s body k ihb ihk =>
    intro H h
    obtain ⟨J, hJ, hbody⟩ := h
    refine ⟨J, hJ, fun s H hs => mono (fun r H' hr => ?_) (hbody s H hs)⟩
    cases r with
    | inl s' => exact hr
    | inr b => exact ihk b hr

theorem seq {p : Prog L C E σ α} {q : α → Prog L C E σ β} {Q : β → Set L → Prop}
    (R : α → Set L → Prop) (hp : p.Obeys D H R) (hq : ∀ a H', R a H' → (q a).Obeys D H' Q) :
    (p >>= q).Obeys D H Q :=
  bind' (mono hq hp)

/-- a function that gives its mutexes back -/
theorem bind {p : Prog L C E σ α} {q : α → Prog L C E σ β} {Q : β → Set L → Prop}
    (hp : p.Keeps D H) (hq : ∀ a, (q a).Obeys D H Q) : (p >>= q).Obeys D H Q := by
  refine seq _ hp fun a H' hH => ?_
  rw [hH]
  exact hq a

theorem pure (a : α) : (Pure.pure a : Prog L C E σ α).Keeps D H := rfl

theorem act {e : σ → Option E} {f : σ → α × σ} (h : D.access H e fun m => (f m).2) :
    (Prog.act e f .ret : Prog L C E σ α).Keeps D H :=
  ⟨h, fun _ => rfl⟩

theorem tick {e : E} (h : D.access H (fun _ => some e) id) :
    (Threads.tick e : Prog L C E σ Unit).Keeps D H :=
  act h

theorem load {f : σ → α} (h : D.access H (fun _ => none) id) :
    (Threads.load f : Prog L C E σ α).Keeps D H :=
  act h

theorem modify {f : σ → σ} (h : D.access H (fun _ => none) f) :
    (Threads.modify f : Prog L C E σ Unit).Keeps D H :=
  act h

theorem broadcast {c : C} : (Threads.broadcast c : Prog L C E σ Unit).Keeps D H := rfl

theorem lock {l : L} {q : Unit → Prog L C E σ α} {Q : α → Set L → Prop} (hl : l ∉ H)
    (ht : D.take H l) (hq : (q ()).Obeys D (insert l H) Q) : (Threads.lock l >>= q).Obeys D H Q :=
  ⟨⟨hl, ht⟩, hq⟩

theorem unlock {l : L} {q : Unit → Prog L C E σ α} {Q : α → Set L → Prop} (hl : l ∉ H)
    (hq : (q ()).Obeys D H Q) : (Threads.unlock l >>= q).Obeys D (insert l H) Q := by
  refine ⟨Set.mem_insert l H, ?_⟩
  rw [Set.insert_sdiff_self_of_notMem hl]
  exact hq

/-- the end of a critical section -/
theorem unlocked {l : L} (hl : l ∉ H) :
    (Threads.unlock l : Prog L C E σ Unit).Obeys D (insert l H) fun _ H' => H' = H := by
  refine ⟨Set.mem_insert l H, ?_⟩
  rw [Set.insert_sdiff_self_of_notMem hl]
  rfl

theorem condWait {c : C} {l : L} (hl : l ∉ H) (ht : D.take H l) :
    (Threads.condWait c l : Prog L C E σ Int).Keeps D (insert l H) := by
  refine ⟨⟨Set.mem_insert l H, ?_⟩, fun r => rfl⟩
  rwa [Set.insert_sdiff_self_of_notMem hl]

theorem loopFrom {s : S} {body : S → Prog L C E σ (S ⊕ β)} {Q : β → Set L → Prop}
    (h : ∀ s, (body s).Obeys D H fun r H' => match r with
      | .inl _ => H' = H
      | .inr b => Q b H') : (Threads.loopFrom s body).Obeys D H Q := by
  refine ⟨fun _ H' => H' = H, rfl, fun s H' hH => ?_⟩
  subst hH
  refine mono (fun r H' hr => ?_) (h s)
  cases r with
  | inl s' => exact hr
  | inr b => exact hr

/-- a loop whose turns all give the mutexes back -/
theorem loopKeeps {s : S} {body : S → Prog L C E σ (S ⊕ β)} (h : ∀ s, (body s).Keeps D H) :
    (Threads.loopFrom s body).Keeps D H := by
  refine loopFrom fun s => mono (fun r H' hr => ?_) (h s)
  cases r with
  | inl s' => exact hr
  | inr b => exact hr

theorem forEach {ι : Type} {is : List ι} {body : ι → Prog L C E σ Unit}
    (h : ∀ i ∈ is, (body i).Keeps D H) : (Threads.forEach is body).Keeps D H := by
  induction is with
  | nil => exact rfl
  | cons i is ih =>
    exact bind (h i List.mem_cons_self) fun _ => ih fun j hj => h j (List.mem_cons_of_mem _ hj)

theorem orElse {x y : Prog L C E σ Bool} (hx : x.Keeps D H) (hy : y.Keeps D H) :
    (Threads.orElse x y).Keeps D H := by
  refine bind hx fun b => ?_
  cases b
  · exact hy
  · exact rfl

/-! ## along a run -/

theorem signal [DecidableEq C] {p : Prog L C E σ α} {Q : α → Set L → Prop} (c : C)
    (h : p.Obeys D H Q) : (p.signal c).Obeys D H Q := by
  cases p with
  | blocked c' l k =>
    by_cases hc : c' = c
    · rw [Prog.signal, if_pos hc]
      exact h
    · rw [Prog.signal, if_neg hc]
      exact h
  | _ => exact h

theorem turn {s : S} {body : S → Prog L C E σ (S ⊕ β)} {k : β → Prog L C E σ α}
    {Q : α → Set L → Prop} (h : (Prog.loop s body k).Obeys D H Q) :
    (Prog.turn body k s).Obeys D H Q := by
  obtain ⟨J, hJ, hbody⟩ := h
  refine bind' (mono (fun r H' hr => ?_) (hbody s H hJ))
  cases r with
  | inl s' => exact ⟨J, hr, hbody⟩
  | inr b => exact hr

end Prog.Obeys

/-- the mutexes a thread has -/
def World.held (w : World T L E σ) (t : T) : Set L := {l | w.own l = some t}

namespace World
variable [DecidableEq L] {w : World T L E σ} {t u : T} {l : L}

theorem mem_held : l ∈ w.held t ↔ w.own l = some t := Iff.rfl

theorem held_acquire : (w.acquire t l).held t = insert l (w.held t) := by
  ext l'
  rw [mem_held, acquire_own, Set.mem_insert_iff, mem_held]
  by_cases h : l' = l
  · simp [h]
  · simp [h]

theorem held_acquire_of_ne (hl : w.own l = none) (hu : u ≠ t) :
    (w.acquire t l).held u = w.held u := by
  ext l'
  rw [mem_held, acquire_own, mem_held]
  by_cases h : l' = l
  · subst h
    simp [hl, Ne.symm hu]
  · simp [h]

theorem held_release : (w.release l).held t = w.held t \ {l} := by
  ext l'
  rw [mem_held, release_own, Set.mem_sdiff, mem_held, Set.mem_singleton_iff]
  by_cases h : l' = l
  · simp [h]
  · simp [h]

theorem held_release_of_ne (hl : l ∈ w.held t) (hu : u ≠ t) : (w.release l).held u = w.held u := by
  rw [held_release]
  apply Set.sdiff_singleton_eq_self
  intro hlu
  exact hu (Option.some.inj (hlu.symm.trans hl))

end World

section
variable [DecidableEq T] [DecidableEq L] [DecidableEq C]

/-- every thread obeys its discipline with the mutexes it has, and ends without one -/
def Orderly (D : T → Discipline L E σ) (c : Config T L C E σ) : Prop :=
  ∀ t, (c.thr t).Obeys (D t) (c.held t) fun _ H => H = ∅

variable {D : T → Discipline L E σ} {c c' : Config T L C E σ}

/-- one thread has moved, and the others have the mutexes they had -/
theorem Orderly.update (h : Orderly D c) {t : T} {w : World T L E σ} {p : Prog L C E σ Unit}
    (hp : p.Obeys (D t) (w.held t) fun _ H => H = ∅) (hothers : ∀ u, u ≠ t → w.held u = c.held u) :
    Orderly D ⟨w, Function.update c.thr t p⟩ := by
  intro u
  show (Function.update c.thr t p u).Obeys (D u) (w.held u) _
  by_cases hu : u = t
  · subst hu
    rwa [Function.update_self]
  · rw [Function.update_of_ne hu, hothers u hu]
    exact h u

theorem Orderly.step (h : Orderly D c) {ch : Choice T} (hs : step c ch = some c') :
    Orderly D c' := by
  cases ch with
  | wake t r =>
    have ht := h t
    simp only [Threads.step] at hs
    split at hs
    case h_1 v l k hk =>
      cases hs
      rw [hk] at ht
      exact h.update ht fun _ _ => rfl
    case h_2 => cases hs
  | run t =>
    have ht := h t
    simp only [Threads.step] at hs
    split at hs
    case h_1 => cases hs
    case h_2 e f k hk =>
      cases hs
      rw [hk] at ht
      exact h.update (ht.2 _) fun _ _ => rfl
    case h_3 l k hk =>
      split at hs
      case isTrue hl =>
        cases hs
        rw [hk] at ht
        refine h.update ?_ fun u hu => World.held_acquire_of_ne hl hu
        rw [World.held_acquire]
        exact ht.2
      case isFalse => cases hs
    case h_4 l k hk =>
      cases hs
      rw [hk] at ht
      refine h.update ?_ fun u hu => World.held_release_of_ne ht.1 hu
      rw [World.held_release]
      exact ht.2
    case h_5 v l k hk =>
      cases hs
      rw [hk] at ht
      refine h.update ?_ fun u hu => World.held_release_of_ne ht.1.1 hu
      rw [World.held_release]
      refine ⟨⟨fun hl => hl.2 rfl, ht.1.2⟩, fun r => ?_⟩
      rw [Set.insert_sdiff_singleton, Set.insert_eq_of_mem ht.1.1]
      exact ht.2 r
    case h_6 => cases hs
    case h_7 l r k hk =>
      split at hs
      case isTrue hl =>
        cases hs
        rw [hk] at ht
        refine h.update ?_ fun u hu => World.held_acquire_of_ne hl hu
        rw [World.held_acquire]
        exact ht.2 r
      case isFalse => cases hs
    case h_8 v k hk =>
      cases hs
      rw [hk] at ht
      intro u
      by_cases hu : u = t
      · subst hu
        have hrest : k.Obeys (D u) (c.held u) fun _ H => H = ∅ := ht
        simpa only [Function.update_self] using hrest
      · simpa only [Function.update_of_ne hu] using (h u).signal v
    case h_9 s body k hk =>
      cases hs
      rw [hk] at ht
      exact h.update ht.turn fun _ _ => rfl

theorem Orderly.reach {c₀ : Config T L C E σ} (h : Orderly D c₀) (hr : Reach c₀ c) :
    Orderly D c := by
  induction hr with
  | refl => exact h
  | step _ hs ih => exact ih.step hs

/-- where every mutex is free -/
theorem Orderly.start (hown : ∀ l, c.own l = none) (h : ∀ t, (c.thr t).Keeps (D t) ∅) :
    Orderly D c := by
  intro t
  have hheld : c.held t = ∅ := Set.eq_empty_of_forall_notMem fun l hl => by
    have hsome : c.own l = some t := hl
    rw [hown] at hsome
    cases hsome
  rw [hheld]
  exact h t

/-- a step that changes the memory, or leaves a label, is an access with the mutexes in hand -/
theorem Orderly.access (h : Orderly D c) {ch : Choice T} (hs : Threads.step c ch = some c') :
    (c'.mem = c.mem ∧ c'.trace = c.trace) ∨ ∃ t e f, ch = .run t ∧ (D t).access (c.held t) e f ∧
      c'.mem = f c.mem ∧ c'.trace = World.push t (e c.mem) c.trace := by
  cases ch with
  | wake t r =>
    simp only [Threads.step] at hs
    split at hs
    · cases hs
      exact .inl ⟨rfl, rfl⟩
    · cases hs
  | run t =>
    have ht := h t
    simp only [Threads.step] at hs
    split at hs
    case h_2 e f k hk =>
      cases hs
      rw [hk] at ht
      exact .inr ⟨t, e, fun m => (f m).2, rfl, ht.1, rfl, rfl⟩
    case h_3 | h_7 =>
      split at hs
      · cases hs
        exact .inl ⟨rfl, rfl⟩
      · cases hs
    case h_1 | h_6 => cases hs
    all_goals
      cases hs
      exact .inl ⟨rfl, rfl⟩

/-! ## waiting for a mutex -/

/-- the mutex that the next instruction takes -/
def Prog.wants : Prog L C E σ α → Option L
  | .lock l _ => some l
  | .woken l _ _ => some l
  | _ => none

/-- the mutex that a sleeper gets back when it is woken -/
def Prog.sleepsUnder : Prog L C E σ α → Option L
  | .blocked _ l _ => some l
  | _ => none

theorem Prog.sleepsUnder_iff {p : Prog L C E σ α} {l : L} :
    p.sleepsUnder = some l ↔ ∃ v k, p = .blocked v l k := by
  constructor
  · intro h
    cases p with
    | blocked v l' k =>
      cases h
      exact ⟨v, k, rfl⟩
    | _ => cases h
  · rintro ⟨v, k, rfl⟩
    rfl

/-- `t` waits for a mutex that `u` has -/
def Config.Blocks (c : Config T L C E σ) (t u : T) : Prop :=
  ∃ l, (c.thr t).wants = some l ∧ c.own l = some u

theorem Orderly.wants (h : Orderly D c) {t : T} {l : L} (hl : (c.thr t).wants = some l) :
    l ∉ c.held t ∧ (D t).take (c.held t) l := by
  have ht := h t
  cases hk : c.thr t with
  | lock l' k | woken l' r k =>
    rw [hk] at ht hl
    cases hl
    exact ht.1
  | _ =>
    rw [hk] at hl
    cases hl

/-- a thread that has a mutex has not ended -/
theorem Orderly.running (h : Orderly D c) {t : T} {l : L} (hl : c.own l = some t) :
    c.thr t ≠ .ret () := by
  intro hend
  have ht := h t
  rw [hend] at ht
  have hempty : c.held t = ∅ := ht
  exact Set.notMem_empty l (hempty ▸ hl)

/-- **Ordered mutexes**: where whoever waits has only mutexes of a lower rank, nobody waits for
himself -/
theorem no_cycle (rank : L → Nat) (h : ∀ t u l l', (c.thr t).wants = some l → c.own l = some u →
    c.own l' = some t → rank l' < rank l) (t : T) : ¬ Relation.TransGen c.Blocks t t := by
  -- along a walk the rank of what is waited for goes up
  have hup : ∀ {t u v}, Relation.TransGen c.Blocks t u → c.Blocks u v → ∀ l l',
      (c.thr t).wants = some l → (c.thr u).wants = some l' → rank l < rank l' := by
    intro t u v htu
    induction htu generalizing v with
    | single hb =>
      intro hv l l' hl hl'
      obtain ⟨l₁, h₁, hown⟩ := hb
      obtain ⟨l₂, h₂, hown'⟩ := hv
      cases hl.symm.trans h₁
      cases hl'.symm.trans h₂
      exact h _ _ _ _ hl' hown' hown
    | tail _ hb ih =>
      intro hv l l' hl hl'
      have hlow := ih hb l
      obtain ⟨l₁, h₁, hown⟩ := hb
      obtain ⟨l₂, h₂, hown'⟩ := hv
      cases hl'.symm.trans h₂
      exact (hlow l₁ hl h₁).trans (h _ _ _ _ hl' hown' hown)
  intro hcycle
  obtain ⟨u, hb, _⟩ := Relation.TransGen.head'_iff.mp hcycle
  obtain ⟨l, hl, _⟩ := id hb
  exact lt_irrefl _ (hup hcycle hb l l hl hl)

/-- the thread can take its next step, or it sleeps on a condition variable -/
def Config.Alive (c : Config T L C E σ) (t : T) : Prop :=
  (∃ c', Threads.step c (.run t) = some c') ∨ ∃ v l k, c.thr t = .blocked v l k

/-- a thread that has not ended waits for another one, if it is not alive -/
theorem Orderly.next (h : Orderly D c) {t : T} (ht : c.thr t ≠ .ret ()) :
    c.Alive t ∨ ∃ u, c.Blocks t u ∧ c.thr u ≠ .ret () := by
  have hwaits : ∀ l, (c.thr t).wants = some l → (c.own l = none → ∃ c', Threads.step c (.run t) = some c') →
      c.Alive t ∨ ∃ u, c.Blocks t u ∧ c.thr u ≠ .ret () := by
    intro l hl hfree
    cases hown : c.own l with
    | none => exact .inl (.inl (hfree hown))
    | some u => exact .inr ⟨u, ⟨l, hl, hown⟩, h.running hown⟩
  cases hk : c.thr t with
  | ret a => exact absurd hk ht
  | blocked v l k => exact .inl (.inr ⟨v, l, k, hk⟩)
  | lock l k | woken l r k =>
    refine hwaits l (by rw [hk]; rfl) fun hfree => ?_
    simp only [Threads.step, hk, hfree]
    exact ⟨_, rfl⟩
  | _ =>
    refine .inl (.inl ?_)
    simp only [Threads.step, hk]
    exact ⟨_, rfl⟩

/-- where nobody waits for himself, every wait comes down to a thread that is alive -/
theorem exists_alive [Finite T] (h : Orderly D c)
    (hcycle : ∀ t, ¬ Relation.TransGen c.Blocks t t) {t : T} (ht : c.thr t ≠ .ret ()) :
    ∃ u, Relation.ReflTransGen c.Blocks t u ∧ c.Alive u := by
  have hwf : WellFounded (Function.swap (Relation.TransGen c.Blocks)) := by
    have : IsTrans T (Function.swap (Relation.TransGen c.Blocks)) :=
      ⟨fun a b d hab hbd => Relation.TransGen.trans hbd hab⟩
    have : Std.Irrefl (Function.swap (Relation.TransGen c.Blocks)) := ⟨hcycle⟩
    exact Finite.wellFounded_of_trans_of_irrefl _
  induction t using hwf.induction with
  | _ t ih =>
    obtain halive | ⟨u, hb, hu⟩ := h.next ht
    · exact ⟨t, .refl, halive⟩
    · obtain ⟨v, hv, halive⟩ := ih u (.single hb) hu
      exact ⟨v, .head hb hv, halive⟩

end

end Threads
