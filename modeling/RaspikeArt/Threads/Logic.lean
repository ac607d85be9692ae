import RaspikeArt.Threads.Run

/-!
# Threads, part 3: a program logic for interleaved runs

A `Logic` fixes what is to hold of every reachable configuration: each thread carries a ghost
value (`G`), `I` relates the world to the ghosts of all threads, and `A` is what a ghost has to
satisfy where its thread takes a lock, waits, or comes back from a wait.  `K` is what may be taken
for granted of a world that an access leads to: a condition on the runs considered, or what another
logic has shown.

`wp t p Q g` is the weakest precondition of the program `p` of thread `t` with ghost `g`: every
instruction of `p`, run in any world that satisfies `I`, keeps `I` for some new ghost of `t`.  The
other threads appear only through `I`, so a function of the program has ONE specification,
whatever runs beside it.

* `wp_bind`, `wp_mono`       the structural rules;
* `wp_load`, `wp_modify` ..  one rule per instruction;
* `wp_forEach`, `wp_loop`    loops, by an invariant on the ghost;
* `Prog.All`, `wp_all`       a program whose instructions all leave `I` alone;
* `Logic.reach`              soundness: `I` holds in every reachable configuration and every
                             thread still satisfies its `wp`.
-/

set_option linter.unusedSectionVars false

namespace Threads

/-- the places of a program where a ghost assertion can be asked for -/
inductive Place (L C : Type) where
  | lock (l : L)
  | unlock (l : L)
  | wait (c : C) (l : L)
  | woken (l : L)

structure Logic (T L C E σ : Type) where
  G : Type
  K : World T L E σ → Prop
  I : World T L E σ → (T → G) → Prop
  A : T → G → Place L C → Prop

variable {T L C E σ : Type} {α β S : Type} [DecidableEq T] [DecidableEq L]

def wp (𝓛 : Logic T L C E σ) (t : T) :
    {α : Type} → Prog L C E σ α → (α → 𝓛.G → Prop) → 𝓛.G → Prop
  | _, .ret a, Q, g => Q a g
  | _, .act e f k, Q, g => ∀ w gs, 𝓛.I w gs → gs t = g → 𝓛.K (w.act t e f) →
      ∃ g', 𝓛.I (w.act t e f) (Function.update gs t g') ∧ wp 𝓛 t (k (f w.mem).1) Q g'
  | _, .lock l k, Q, g => 𝓛.A t g (.lock l) ∧ ∀ w gs, 𝓛.I w gs → gs t = g → w.own l = none →
      ∃ g', 𝓛.I (w.acquire t l) (Function.update gs t g') ∧ wp 𝓛 t k Q g'
  | _, .unlock l k, Q, g => 𝓛.A t g (.unlock l) ∧ ∀ w gs, 𝓛.I w gs → gs t = g →
      ∃ g', 𝓛.I (w.release l) (Function.update gs t g') ∧ wp 𝓛 t k Q g'
  | _, .wait c l k, Q, g => 𝓛.A t g (.wait c l) ∧ ∀ w gs, 𝓛.I w gs → gs t = g →
      ∃ g', 𝓛.I (w.release l) (Function.update gs t g') ∧ 𝓛.A t g' (.woken l) ∧
        ∀ w gs, 𝓛.I w gs → gs t = g' → w.own l = none →
          ∃ g'', 𝓛.I (w.acquire t l) (Function.update gs t g'') ∧ ∀ r, wp 𝓛 t (k r) Q g''
  | _, .blocked _ l k, Q, g => 𝓛.A t g (.woken l) ∧
      ∀ w gs, 𝓛.I w gs → gs t = g → w.own l = none →
        ∃ g', 𝓛.I (w.acquire t l) (Function.update gs t g') ∧ ∀ r, wp 𝓛 t (k r) Q g'
  | _, .woken l r k, Q, g => 𝓛.A t g (.woken l) ∧
      ∀ w gs, 𝓛.I w gs → gs t = g → w.own l = none →
        ∃ g', 𝓛.I (w.acquire t l) (Function.update gs t g') ∧ wp 𝓛 t (k r) Q g'
  | _, .broadcast _ k, Q, g => wp 𝓛 t k Q g
  | _, .loop s body k, Q, g => ∃ J : _ → 𝓛.G → Prop, J s g ∧ ∀ s g, J s g →
      wp 𝓛 t (body s) (fun r g' => match r with
        | .inl s' => J s' g'
        | .inr b => wp 𝓛 t (k b) Q g') g

section
variable {𝓛 : Logic T L C E σ} {t : T}

theorem wp_mono {p : Prog L C E σ α} : ∀ {Q Q' : α → 𝓛.G → Prop} {g : 𝓛.G},
    (∀ a g, Q a g → Q' a g) → wp 𝓛 t p Q g → wp 𝓛 t p Q' g := by
  induction p with
  | ret a => intro Q Q' g hQ h; exact hQ _ _ h
  | act e f k ih =>
    intro Q Q' g hQ h w gs hI hg hK
    obtain ⟨g', h1, h2⟩ := h w gs hI hg hK
    exact ⟨g', h1, ih _ hQ h2⟩
  | lock l k ih =>
    intro Q Q' g hQ h
    refine ⟨h.1, fun w gs hI hg hl => ?_⟩
    obtain ⟨g', h1, h2⟩ := h.2 w gs hI hg hl
    exact ⟨g', h1, ih hQ h2⟩
  | unlock l k ih =>
    intro Q Q' g hQ h
    refine ⟨h.1, fun w gs hI hg => ?_⟩
    obtain ⟨g', h1, h2⟩ := h.2 w gs hI hg
    exact ⟨g', h1, ih hQ h2⟩
  | wait c l k ih =>
    intro Q Q' g hQ h
    refine ⟨h.1, fun w gs hI hg => ?_⟩
    obtain ⟨g', h1, h2, h3⟩ := h.2 w gs hI hg
    refine ⟨g', h1, h2, fun w gs hI hg hl => ?_⟩
    obtain ⟨g'', h4, h5⟩ := h3 w gs hI hg hl
    exact ⟨g'', h4, fun r => ih r hQ (h5 r)⟩
  | blocked c l k ih =>
    intro Q Q' g hQ h
    refine ⟨h.1, fun w gs hI hg hl => ?_⟩
    obtain ⟨g', h1, h2⟩ := h.2 w gs hI hg hl
    exact ⟨g', h1, fun r => ih r hQ (h2 r)⟩
  | woken l r k ih =>
    intro Q Q' g hQ h
    refine ⟨h.1, fun w gs hI hg hl => ?_⟩
    obtain ⟨g', h1, h2⟩ := h.2 w gs hI hg hl
    exact ⟨g', h1, ih r hQ h2⟩
  | broadcast c k ih => intro Q Q' g hQ h; exact ih hQ h
  | loop s body k ihb ihk =>
    intro Q Q' g hQ h
    obtain ⟨J, hJ, hbody⟩ := h
    refine ⟨J, hJ, fun s g hs => ihb s (fun r g' hr => ?_) (hbody s g hs)⟩
    cases r with
    | inl s' => exact hr
    | inr b => exact ihk b hQ hr

theorem wp_bind_iff {p : Prog L C E σ α} {q : α → Prog L C E σ β} :
    ∀ {Q : β → 𝓛.G → Prop} {g : 𝓛.G},
    wp 𝓛 t (p.bind q) Q g ↔ wp 𝓛 t p (fun a g' => wp 𝓛 t (q a) Q g') g := by
  induction p with
  | ret a => intro Q g; rfl
  | act e f k ih => intro Q g; simp only [Prog.bind, wp, ih]
  | lock l k ih => intro Q g; simp only [Prog.bind, wp, ih]
  | unlock l k ih => intro Q g; simp only [Prog.bind, wp, ih]
  | wait c l k ih => intro Q g; simp only [Prog.bind, wp, ih]
  | blocked c l k ih => intro Q g; simp only [Prog.bind, wp, ih]
  | woken l r k ih => intro Q g; simp only [Prog.bind, wp, ih]
  | broadcast c k ih => intro Q g; simp only [Prog.bind, wp, ih]
  | loop s body k ihb ihk => intro Q g; simp only [Prog.bind, wp, ihk]

theorem wp_bind {p : Prog L C E σ α} {q : α → Prog L C E σ β} {Q : β → 𝓛.G → Prop} {g : 𝓛.G}
    (h : wp 𝓛 t p (fun a g' => wp 𝓛 t (q a) Q g') g) : wp 𝓛 t (p >>= q) Q g :=
  wp_bind_iff.mpr h

/-- the rule of the intermediate assertion -/
theorem wp_seq {p : Prog L C E σ α} {q : α → Prog L C E σ β} {Q : β → 𝓛.G → Prop} {g : 𝓛.G}
    (R : α → 𝓛.G → Prop) (hp : wp 𝓛 t p R g) (hq : ∀ a g', R a g' → wp 𝓛 t (q a) Q g') :
    wp 𝓛 t (p >>= q) Q g :=
  wp_bind (wp_mono hq hp)

/-- a function that gives the ghost back as it was -/
theorem wp_call {p : Prog L C E σ α} {q : α → Prog L C E σ β} {Q : β → 𝓛.G → Prop} {g : 𝓛.G}
    (hp : wp 𝓛 t p (fun _ g' => g' = g) g) (hq : ∀ a, wp 𝓛 t (q a) Q g) :
    wp 𝓛 t (p >>= q) Q g :=
  wp_seq _ hp fun a g' hg' => by subst hg'; exact hq a

theorem wp_pure {a : α} {Q : α → 𝓛.G → Prop} {g : 𝓛.G} (h : Q a g) :
    wp 𝓛 t (pure a : Prog L C E σ α) Q g := h

/-! ## one rule per instruction -/

theorem wp_act {e : σ → Option E} {f : σ → β × σ} {Q : β → 𝓛.G → Prop} {g : 𝓛.G}
    (h : ∀ w gs, 𝓛.I w gs → gs t = g → 𝓛.K (w.act t e f) →
      ∃ g', 𝓛.I (w.act t e f) (Function.update gs t g') ∧ Q (f w.mem).1 g') :
    wp 𝓛 t (Prog.act e f .ret) Q g := h

theorem wp_load {f : σ → β} {Q : β → 𝓛.G → Prop} {g : 𝓛.G}
    (h : ∀ w gs, 𝓛.I w gs → gs t = g → 𝓛.K w → Q (f w.mem) g) : wp 𝓛 t (load f) Q g := by
  intro w gs hI hg hK
  refine ⟨g, ?_, h w gs hI hg hK⟩
  rw [← hg, Function.update_eq_self]
  exact hI

theorem wp_lock {l : L} {Q : Unit → 𝓛.G → Prop} {g : 𝓛.G} (hA : 𝓛.A t g (.lock l))
    (h : ∀ w gs, 𝓛.I w gs → gs t = g → w.own l = none →
      ∃ g', 𝓛.I (w.acquire t l) (Function.update gs t g') ∧ Q () g') :
    wp 𝓛 t (lock l) Q g := ⟨hA, h⟩

theorem wp_unlock {l : L} {Q : Unit → 𝓛.G → Prop} {g : 𝓛.G} (hA : 𝓛.A t g (.unlock l))
    (h : ∀ w gs, 𝓛.I w gs → gs t = g →
      ∃ g', 𝓛.I (w.release l) (Function.update gs t g') ∧ Q () g') :
    wp 𝓛 t (unlock l) Q g := ⟨hA, h⟩

/-- a wait is a release and a later acquire; the code `r` of the wake-up is arbitrary -/
theorem wp_condWait {c : C} {l : L} {Q : Int → 𝓛.G → Prop} {g : 𝓛.G} (g₁ : 𝓛.G)
    (hA : 𝓛.A t g (.wait c l)) (hA₁ : 𝓛.A t g₁ (.woken l))
    (h : ∀ w gs, 𝓛.I w gs → gs t = g → 𝓛.I (w.release l) (Function.update gs t g₁))
    (h₁ : ∀ w gs, 𝓛.I w gs → gs t = g₁ → w.own l = none →
      ∃ g', 𝓛.I (w.acquire t l) (Function.update gs t g') ∧ ∀ r, Q r g') :
    wp 𝓛 t (condWait c l) Q g :=
  ⟨hA, fun w gs hI hg => ⟨g₁, h w gs hI hg, hA₁, h₁⟩⟩

theorem wp_broadcast {c : C} {Q : Unit → 𝓛.G → Prop} {g : 𝓛.G} (h : Q () g) :
    wp 𝓛 t (broadcast c : Prog L C E σ Unit) Q g := h

/-! ## loops -/

theorem wp_loopFrom {s : S} {body : S → Prog L C E σ (S ⊕ β)} {Q : β → 𝓛.G → Prop} {g : 𝓛.G}
    (J : S → 𝓛.G → Prop) (hJ : J s g)
    (h : ∀ s g, J s g → wp 𝓛 t (body s)
      (fun r g' => match r with | .inl s' => J s' g' | .inr b => Q b g') g) :
    wp 𝓛 t (loopFrom s body) Q g := by
  refine ⟨J, hJ, fun s g hs => wp_mono (fun r g' hr => ?_) (h s g hs)⟩
  cases r with
  | inl s' => exact hr
  | inr b => exact hr

/-- a counted loop, by an invariant of the elements still to come -/
theorem wp_forEach {ι : Type} {is : List ι} {body : ι → Prog L C E σ Unit}
    {Q : Unit → 𝓛.G → Prop} {g : 𝓛.G} (J : List ι → 𝓛.G → Prop) (hJ : J is g)
    (hstep : ∀ i is g, J (i :: is) g → wp 𝓛 t (body i) (fun _ g' => J is g') g)
    (hend : ∀ g, J [] g → Q () g) : wp 𝓛 t (forEach is body) Q g := by
  induction is generalizing g with
  | nil => exact hend g hJ
  | cons i is ih => exact wp_bind (wp_mono (fun _ g' hg' => ih hg') (hstep i is g hJ))

theorem wp_orElse {x y : Prog L C E σ Bool} {Q : Bool → 𝓛.G → Prop} {g : 𝓛.G}
    (h : wp 𝓛 t x (fun b g' => if b then Q true g' else wp 𝓛 t y Q g') g) :
    wp 𝓛 t (orElse x y) Q g := by
  refine wp_bind (wp_mono (fun b g' hb => ?_) h)
  cases b
  · exact hb
  · exact hb

end

/-! ## programs that leave the invariant alone -/

/-- every access of `p` satisfies `okAct` and every mutex it touches satisfies `okLock` -/
def Prog.All (okAct : (σ → Option E) → (σ → σ) → Prop) (okLock : L → Prop) :
    {α : Type} → Prog L C E σ α → Prop
  | _, .ret _ => True
  | _, .act e f k => okAct e (fun m => (f m).2) ∧ ∀ b, (k b).All okAct okLock
  | _, .lock l k => okLock l ∧ k.All okAct okLock
  | _, .unlock l k => okLock l ∧ k.All okAct okLock
  | _, .wait _ l k => okLock l ∧ ∀ r, (k r).All okAct okLock
  | _, .blocked _ l k => okLock l ∧ ∀ r, (k r).All okAct okLock
  | _, .woken l _ k => okLock l ∧ ∀ r, (k r).All okAct okLock
  | _, .broadcast _ k => k.All okAct okLock
  | _, .loop _ body k => (∀ s, (body s).All okAct okLock) ∧ ∀ b, (k b).All okAct okLock

section
variable {okAct : (σ → Option E) → (σ → σ) → Prop} {okLock : L → Prop}

theorem Prog.All.bind {p : Prog L C E σ α} {q : α → Prog L C E σ β} (hp : p.All okAct okLock)
    (hq : ∀ a, (q a).All okAct okLock) : (p >>= q).All okAct okLock := by
  show (p.bind q).All okAct okLock
  induction p with
  | ret a => exact hq a
  | act e f k ih => exact ⟨hp.1, fun b => ih b (hp.2 b) hq⟩
  | lock l k ih => exact ⟨hp.1, ih hp.2 hq⟩
  | unlock l k ih => exact ⟨hp.1, ih hp.2 hq⟩
  | wait c l k ih => exact ⟨hp.1, fun r => ih r (hp.2 r) hq⟩
  | blocked c l k ih => exact ⟨hp.1, fun r => ih r (hp.2 r) hq⟩
  | woken l r k ih => exact ⟨hp.1, fun r => ih r (hp.2 r) hq⟩
  | broadcast c k ih => exact ih hp hq
  | loop s body k _ ihk => exact ⟨hp.1, fun b => ihk b (hp.2 b) hq⟩

theorem Prog.All.mono {okAct' : (σ → Option E) → (σ → σ) → Prop} {okLock' : L → Prop}
    (ha : ∀ e f, okAct e f → okAct' e f) (hl : ∀ l, okLock l → okLock' l)
    {p : Prog L C E σ α} (hp : p.All okAct okLock) : p.All okAct' okLock' := by
  induction p with
  | ret a => trivial
  | act e f k ih => exact ⟨ha _ _ hp.1, fun b => ih b (hp.2 b)⟩
  | lock l k ih => exact ⟨hl _ hp.1, ih hp.2⟩
  | unlock l k ih => exact ⟨hl _ hp.1, ih hp.2⟩
  | wait c l k ih => exact ⟨hl _ hp.1, fun r => ih r (hp.2 r)⟩
  | blocked c l k ih => exact ⟨hl _ hp.1, fun r => ih r (hp.2 r)⟩
  | woken l r k ih => exact ⟨hl _ hp.1, fun r => ih r (hp.2 r)⟩
  | broadcast c k ih => exact ih hp
  | loop s body k ihb ihk => exact ⟨fun s => ihb s (hp.1 s), fun b => ihk b (hp.2 b)⟩

theorem Prog.All.forEach {ι : Type} {is : List ι} {body : ι → Prog L C E σ Unit}
    (h : ∀ i, (body i).All okAct okLock) : (forEach is body).All okAct okLock := by
  induction is with
  | nil => trivial
  | cons i is ih => exact Prog.All.bind (h i) fun _ => ih

/-! ### along a run -/

theorem Prog.All.signal [DecidableEq C] {p : Prog L C E σ α} (c : C) (hp : p.All okAct okLock) :
    (p.signal c).All okAct okLock := by
  cases p with
  | blocked c' l k =>
    by_cases hc : c' = c
    · rw [Prog.signal, if_pos hc]
      exact hp
    · rw [Prog.signal, if_neg hc]
      exact hp
  | _ => exact hp

/-- a step, for a thread of such accesses: it goes on as one, and if the step is its own, nothing
happens to the memory, or one of the accesses does -/
theorem Prog.All.step_thread [DecidableEq C] {c c' : Config T L C E σ} {ch : Choice T} {t : T}
    (h : (c.thr t).All okAct okLock) (hs : step c ch = some c') :
    (c'.thr t).All okAct okLock ∧ (ch = .run t → (c'.mem = c.mem ∧ c'.trace = c.trace) ∨
      ∃ e f, okAct e f ∧ c'.mem = f c.mem ∧ c'.trace = World.push t (e c.mem) c.trace) := by
  have hup : ∀ u {p : Prog L C E σ Unit}, (u = t → p.All okAct okLock) →
      (Function.update c.thr u p t).All okAct okLock := by
    intro u p hp
    by_cases hu : u = t
    · subst hu
      rw [Function.update_self]
      exact hp rfl
    · rw [Function.update_of_ne (Ne.symm hu)]
      exact h
  cases ch with
  | wake u r =>
    simp only [Threads.step] at hs
    split at hs
    case h_1 v l k hk =>
      cases hs
      exact ⟨hup u fun hu => by subst hu; rwa [hk] at h, by simp⟩
    case h_2 => cases hs
  | run u =>
    simp only [Threads.step] at hs
    split at hs
    case h_1 => cases hs
    case h_2 e f k hk =>
      cases hs
      refine ⟨hup u fun hu => ?_, fun hu => .inr ⟨e, fun m => (f m).2, ?_, rfl, ?_⟩⟩
      · subst hu
        rw [hk] at h
        exact h.2 _
      · cases hu
        rw [hk] at h
        exact h.1
      · cases hu
        rfl
    case h_3 l k hk =>
      split at hs
      case isTrue =>
        cases hs
        exact ⟨hup u fun hu => by subst hu; rw [hk] at h; exact h.2, fun _ => .inl ⟨rfl, rfl⟩⟩
      case isFalse => cases hs
    case h_4 l k hk =>
      cases hs
      exact ⟨hup u fun hu => by subst hu; rw [hk] at h; exact h.2, fun _ => .inl ⟨rfl, rfl⟩⟩
    case h_5 v l k hk =>
      cases hs
      exact ⟨hup u fun hu => by subst hu; rwa [hk] at h, fun _ => .inl ⟨rfl, rfl⟩⟩
    case h_6 => cases hs
    case h_7 l r k hk =>
      split at hs
      case isTrue =>
        cases hs
        exact ⟨hup u fun hu => by subst hu; rw [hk] at h; exact h.2 r, fun _ => .inl ⟨rfl, rfl⟩⟩
      case isFalse => cases hs
    case h_8 v k hk =>
      cases hs
      refine ⟨?_, fun _ => .inl ⟨rfl, rfl⟩⟩
      by_cases hu : t = u
      · subst hu
        rw [hk] at h
        have hrest : k.All okAct okLock := h
        simpa only [Function.update_self] using hrest
      · simpa only [Function.update_of_ne hu] using h.signal v
    case h_9 s body k hk =>
      cases hs
      refine ⟨hup u fun hu => ?_, fun _ => .inl ⟨rfl, rfl⟩⟩
      subst hu
      rw [hk] at h
      apply Prog.All.bind (h.1 s)
      intro r
      cases r with
      | inl s' => exact h
      | inr b => exact h.2 b

/-- a step of a program of such accesses: nothing happens to the memory, or one of them does -/
theorem Prog.All.step [DecidableEq C] {c c' : Config T L C E σ} {ch : Choice T}
    (h : ∀ t, (c.thr t).All okAct okLock) (hs : step c ch = some c') :
    (∀ t, (c'.thr t).All okAct okLock) ∧ ((c'.mem = c.mem ∧ c'.trace = c.trace) ∨
      ∃ t e f, ch = .run t ∧ okAct e f ∧ c'.mem = f c.mem ∧
        c'.trace = World.push t (e c.mem) c.trace) := by
  refine ⟨fun t => (Prog.All.step_thread (h t) hs).1, ?_⟩
  cases ch with
  | wake t r =>
    simp only [Threads.step] at hs
    split at hs
    · cases hs
      exact .inl ⟨rfl, rfl⟩
    · cases hs
  | run t =>
    obtain hsame | ⟨e, f, hok, hmem, htr⟩ := (Prog.All.step_thread (h t) hs).2 rfl
    · exact .inl hsame
    · exact .inr ⟨t, e, f, rfl, hok, hmem, htr⟩

theorem Prog.All.reach [DecidableEq C] {c₀ c : Config T L C E σ}
    (h : ∀ t, (c₀.thr t).All okAct okLock) (hr : Reach c₀ c) (t : T) :
    (c.thr t).All okAct okLock := by
  induction hr generalizing t with
  | refl => exact h t
  | step _ hs ih => exact (Prog.All.step ih hs).1 t

/-- What a logic has to know to step over a program it is not interested in: the accesses and the
mutexes of the program keep the invariant with the same ghosts. -/
structure Logic.Neutral (𝓛 : Logic T L C E σ) (okAct : (σ → Option E) → (σ → σ) → Prop)
    (okLock : L → Prop) (t : T) (g : 𝓛.G) : Prop where
  act : ∀ {e : σ → Option E} {f : σ → σ}, okAct e f → ∀ w gs, 𝓛.I w gs → gs t = g →
    𝓛.K { w with mem := f w.mem, trace := World.push t (e w.mem) w.trace } →
    𝓛.I { w with mem := f w.mem, trace := World.push t (e w.mem) w.trace } gs
  acquire : ∀ {l : L}, okLock l → ∀ w gs, 𝓛.I w gs → gs t = g → w.own l = none →
    𝓛.I (w.acquire t l) gs
  release : ∀ {l : L}, okLock l → ∀ w gs, 𝓛.I w gs → gs t = g → 𝓛.I (w.release l) gs
  places : ∀ {l : L}, okLock l → 𝓛.A t g (.lock l) ∧ 𝓛.A t g (.unlock l) ∧
    (∀ c, 𝓛.A t g (.wait c l)) ∧ 𝓛.A t g (.woken l)

theorem Logic.Neutral.mono {𝓛 : Logic T L C E σ} {t : T} {g : 𝓛.G}
    {okAct' : (σ → Option E) → (σ → σ) → Prop} {okLock' : L → Prop}
    (h : 𝓛.Neutral okAct okLock t g) (ha : ∀ e f, okAct' e f → okAct e f)
    (hl : ∀ l, okLock' l → okLock l) : 𝓛.Neutral okAct' okLock' t g where
  act hacc := h.act (ha _ _ hacc)
  acquire hlock := h.acquire (hl _ hlock)
  release hlock := h.release (hl _ hlock)
  places hlock := h.places (hl _ hlock)

theorem update_self_of_eq {G : Type} {gs : T → G} {t : T} {g : G} (h : gs t = g) :
    Function.update gs t g = gs := by
  rw [← h, Function.update_eq_self]

end

/-! ## what a program returns -/

/-- whatever the memory holds, `p` returns only values that satisfy `R` -/
def Prog.Yields : {α : Type} → Prog L C E σ α → (α → Prop) → Prop
  | _, .ret a, R => R a
  | _, .act _ f k, R => ∀ m, (k (f m).1).Yields R
  | _, .lock _ k, R => k.Yields R
  | _, .unlock _ k, R => k.Yields R
  | _, .wait _ _ k, R => ∀ r, (k r).Yields R
  | _, .blocked _ _ k, R => ∀ r, (k r).Yields R
  | _, .woken _ _ k, R => ∀ r, (k r).Yields R
  | _, .broadcast _ k, R => k.Yields R
  | _, .loop s body k, R => ∃ J : _ → Prop, J s ∧ ∀ s, J s →
      (body s).Yields fun r => match r with
        | .inl s' => J s'
        | .inr b => (k b).Yields R

theorem Prog.Yields.mono {p : Prog L C E σ α} : ∀ {R R' : α → Prop}, (∀ a, R a → R' a) →
    p.Yields R → p.Yields R' := by
  induction p with
  | ret a => intro R R' h hp; exact h a hp
  | act e f k ih => intro R R' h hp m; exact ih _ h (hp m)
  | lock l k ih => intro R R' h hp; exact ih h hp
  | unlock l k ih => intro R R' h hp; exact ih h hp
  | wait c l k ih => intro R R' h hp r; exact ih r h (hp r)
  | blocked c l k ih => intro R R' h hp r; exact ih r h (hp r)
  | woken l r k ih => intro R R' h hp r; exact ih r h (hp r)
  | broadcast c k ih => intro R R' h hp; exact ih h hp
  | loop s body k ihb ihk =>
    intro R R' h hp
    obtain ⟨J, hJ, hbody⟩ := hp
    refine ⟨J, hJ, fun s hs => ihb s (fun r hr => ?_) (hbody s hs)⟩
    cases r with
    | inl s' => exact hr
    | inr b => exact ihk b h hr

theorem Prog.Yields.bind {p : Prog L C E σ α} {q : α → Prog L C E σ β} :
    ∀ {R : α → Prop} {R' : β → Prop}, p.Yields R → (∀ a, R a → (q a).Yields R') →
    (p >>= q).Yields R' := by
  show ∀ {R : α → Prop} {R' : β → Prop}, p.Yields R → (∀ a, R a → (q a).Yields R') →
    (p.bind q).Yields R'
  induction p with
  | ret a => intro R R' hp hq; exact hq a hp
  | act e f k ih => intro R R' hp hq m; exact ih _ (hp m) hq
  | lock l k ih => intro R R' hp hq; exact ih hp hq
  | unlock l k ih => intro R R' hp hq; exact ih hp hq
  | wait c l k ih => intro R R' hp hq r; exact ih r (hp r) hq
  | blocked c l k ih => intro R R' hp hq r; exact ih r (hp r) hq
  | woken l r k ih => intro R R' hp hq r; exact ih r (hp r) hq
  | broadcast c k ih => intro R R' hp hq; exact ih hp hq
  | loop s body k _ ihk =>
    intro R R' hp hq
    obtain ⟨J, hJ, hbody⟩ := hp
    refine ⟨J, hJ, fun s hs => Prog.Yields.mono (fun r hr => ?_) (hbody s hs)⟩
    cases r with
    | inl s' => exact hr
    | inr b => exact ihk b hr hq

theorem Prog.Yields.trivial {p : Prog L C E σ α} : p.Yields fun _ => True := by
  induction p with
  | ret a => exact True.intro
  | act e f k ih => exact fun m => ih _
  | lock l k ih => exact ih
  | unlock l k ih => exact ih
  | wait c l k ih => exact ih
  | blocked c l k ih => exact ih
  | woken l r k ih => exact ih
  | broadcast c k ih => exact ih
  | loop s body k ihb ihk =>
    refine ⟨fun _ => True, True.intro, fun s _ => (ihb s).mono fun r _ => ?_⟩
    cases r with
    | inl s' => exact True.intro
    | inr b => exact ihk b

/-- stepping over a program of which only the result matters -/
theorem wp_yields {okAct : (σ → Option E) → (σ → σ) → Prop} {okLock : L → Prop}
    {𝓛 : Logic T L C E σ} {t : T} {g : 𝓛.G} (hN : 𝓛.Neutral okAct okLock t g)
    {p : Prog L C E σ α} (hp : p.All okAct okLock) : ∀ {R : α → Prop} {Q : α → 𝓛.G → Prop},
    p.Yields R → (∀ a, R a → Q a g) → wp 𝓛 t p Q g := by
  induction p with
  | ret a => intro R Q hy hQ; exact hQ a hy
  | act e f k ih =>
    intro R Q hy hQ w gs hI hg hK
    refine ⟨g, ?_, ih _ (hp.2 _) (hy w.mem) hQ⟩
    rw [update_self_of_eq hg]
    exact hN.act hp.1 w gs hI hg hK
  | lock l k ih =>
    intro R Q hy hQ
    refine ⟨(hN.places hp.1).1, fun w gs hI hg hl => ⟨g, ?_, ih hp.2 hy hQ⟩⟩
    rw [update_self_of_eq hg]
    exact hN.acquire hp.1 w gs hI hg hl
  | unlock l k ih =>
    intro R Q hy hQ
    refine ⟨(hN.places hp.1).2.1, fun w gs hI hg => ⟨g, ?_, ih hp.2 hy hQ⟩⟩
    rw [update_self_of_eq hg]
    exact hN.release hp.1 w gs hI hg
  | wait c l k ih =>
    intro R Q hy hQ
    refine ⟨(hN.places hp.1).2.2.1 c, fun w gs hI hg => ⟨g, ?_, (hN.places hp.1).2.2.2, ?_⟩⟩
    · rw [update_self_of_eq hg]
      exact hN.release hp.1 w gs hI hg
    · intro w gs hI hg hl
      refine ⟨g, ?_, fun r => ih r (hp.2 r) (hy r) hQ⟩
      rw [update_self_of_eq hg]
      exact hN.acquire hp.1 w gs hI hg hl
  | blocked c l k ih =>
    intro R Q hy hQ
    refine ⟨(hN.places hp.1).2.2.2, fun w gs hI hg hl => ⟨g, ?_, fun r => ih r (hp.2 r) (hy r) hQ⟩⟩
    rw [update_self_of_eq hg]
    exact hN.acquire hp.1 w gs hI hg hl
  | woken l r k ih =>
    intro R Q hy hQ
    refine ⟨(hN.places hp.1).2.2.2, fun w gs hI hg hl => ⟨g, ?_, ih r (hp.2 r) (hy r) hQ⟩⟩
    rw [update_self_of_eq hg]
    exact hN.acquire hp.1 w gs hI hg hl
  | broadcast c k ih => intro R Q hy hQ; exact ih hp hy hQ
  | loop s body k ihb ihk =>
    intro R Q hy hQ
    obtain ⟨J, hJ, hbody⟩ := hy
    refine ⟨fun s g' => J s ∧ g' = g, ⟨hJ, rfl⟩, ?_⟩
    rintro s g' ⟨hs, rfl⟩
    refine ihb s (hp.1 s) (hbody s hs) fun r hr => ?_
    cases r with
    | inl s' => exact ⟨hr, rfl⟩
    | inr b => exact ihk b (hp.2 b) hr hQ

/-- stepping over a program whose result does not matter either -/
theorem wp_all {okAct : (σ → Option E) → (σ → σ) → Prop} {okLock : L → Prop}
    {𝓛 : Logic T L C E σ} {t : T} {g : 𝓛.G} (hN : 𝓛.Neutral okAct okLock t g)
    {p : Prog L C E σ α} (hp : p.All okAct okLock) {Q : α → 𝓛.G → Prop} (hQ : ∀ a, Q a g) :
    wp 𝓛 t p Q g :=
  wp_yields hN hp Prog.Yields.trivial fun a _ => hQ a

/-! ## soundness -/

section
variable [DecidableEq C] {𝓛 : Logic T L C E σ}

/-- the invariant holds and every thread satisfies the precondition of the rest of its program -/
def Logic.Holds (𝓛 : Logic T L C E σ) (c : Config T L C E σ) (gs : T → 𝓛.G) : Prop :=
  𝓛.I c.toWorld gs ∧ ∀ t, wp 𝓛 t (c.thr t) (fun _ _ => True) (gs t)

theorem wp_signal {t : T} {p : Prog L C E σ α} {Q : α → 𝓛.G → Prop} {g : 𝓛.G} (c : C)
    (h : wp 𝓛 t p Q g) : wp 𝓛 t (p.signal c) Q g := by
  cases p with
  | blocked c' l k =>
    have hwoken : wp 𝓛 t (Prog.woken l 0 k) Q g := by
      refine ⟨h.1, fun w gs hI hg hl => ?_⟩
      obtain ⟨g', h1, h2⟩ := h.2 w gs hI hg hl
      exact ⟨g', h1, h2 0⟩
    by_cases hc : c' = c
    · rw [Prog.signal, if_pos hc]
      exact hwoken
    · rw [Prog.signal, if_neg hc]
      exact h
  | _ => exact h

/-- one thread moved: the others keep their ghosts and their preconditions -/
theorem Logic.Holds.update {c : Config T L C E σ} {gs : T → 𝓛.G} (h : 𝓛.Holds c gs) {t : T}
    {w : World T L E σ} {p : Prog L C E σ Unit} {g' : 𝓛.G} (hI : 𝓛.I w (Function.update gs t g'))
    (hp : wp 𝓛 t p (fun _ _ => True) g') :
    𝓛.Holds ⟨w, Function.update c.thr t p⟩ (Function.update gs t g') := by
  refine ⟨hI, fun u => ?_⟩
  show wp 𝓛 u (Function.update c.thr t p u) _ (Function.update gs t g' u)
  by_cases hu : u = t
  · subst hu
    rw [Function.update_self, Function.update_self]
    exact hp
  · rw [Function.update_of_ne hu, Function.update_of_ne hu]
    exact h.2 u

theorem Logic.Holds.run {c c' : Config T L C E σ} {gs : T → 𝓛.G} {t : T} (h : 𝓛.Holds c gs)
    (hs : step c (.run t) = some c') (hK : 𝓛.K c'.toWorld) : ∃ gs', 𝓛.Holds c' gs' := by
  have ht := h.2 t
  simp only [step] at hs
  split at hs
  case h_1 => cases hs
  case h_2 e f k hk =>
    cases hs
    rw [hk] at ht
    obtain ⟨g', h1, h2⟩ := ht c.toWorld gs h.1 rfl hK
    exact ⟨_, h.update h1 h2⟩
  case h_3 l k hk =>
    split at hs
    case isTrue hl =>
      cases hs
      rw [hk] at ht
      obtain ⟨g', h1, h2⟩ := ht.2 c.toWorld gs h.1 rfl hl
      exact ⟨_, h.update h1 h2⟩
    case isFalse => cases hs
  case h_4 l k hk =>
    cases hs
    rw [hk] at ht
    obtain ⟨g', h1, h2⟩ := ht.2 c.toWorld gs h.1 rfl
    exact ⟨_, h.update h1 h2⟩
  case h_5 v l k hk =>
    cases hs
    rw [hk] at ht
    obtain ⟨g', h1, h2, h3⟩ := ht.2 c.toWorld gs h.1 rfl
    exact ⟨_, h.update h1 ⟨h2, h3⟩⟩
  case h_6 => cases hs
  case h_7 l r k hk =>
    split at hs
    case isTrue hl =>
      cases hs
      rw [hk] at ht
      obtain ⟨g', h1, h2⟩ := ht.2 c.toWorld gs h.1 rfl hl
      exact ⟨_, h.update h1 h2⟩
    case isFalse => cases hs
  case h_8 v k hk =>
    cases hs
    rw [hk] at ht
    have hrest : wp 𝓛 t k (fun _ _ => True) (gs t) := ht
    refine ⟨gs, h.1, fun u => ?_⟩
    by_cases hu : u = t
    · subst hu
      simpa only [Function.update_self] using hrest
    · simpa only [Function.update_of_ne hu] using wp_signal v (h.2 u)
  case h_9 s body k hk =>
    cases hs
    rw [hk] at ht
    obtain ⟨J, hJ, hbody⟩ := ht
    have hturn : wp 𝓛 t (Prog.turn body k s) (fun _ _ => True) (gs t) := by
      refine wp_bind_iff.mpr (wp_mono (fun r g' hr => ?_) (hbody s (gs t) hJ))
      cases r with
      | inl s' => exact ⟨J, hr, hbody⟩
      | inr b => exact hr
    refine ⟨gs, ?_⟩
    have hI : 𝓛.I c.toWorld (Function.update gs t (gs t)) := by
      rw [Function.update_eq_self]
      exact h.1
    have hup := h.update hI hturn
    rwa [Function.update_eq_self] at hup

theorem Logic.Holds.wake {c c' : Config T L C E σ} {gs : T → 𝓛.G} {t : T} {r : Int}
    (h : 𝓛.Holds c gs) (hs : step c (.wake t r) = some c') : ∃ gs', 𝓛.Holds c' gs' := by
  have ht := h.2 t
  simp only [step] at hs
  split at hs
  case h_1 v l k hk =>
    cases hs
    rw [hk] at ht
    have hwoken : wp 𝓛 t (Prog.woken l r k) (fun _ _ => True) (gs t) := by
      refine ⟨ht.1, fun w gs' hI hg hl => ?_⟩
      obtain ⟨g', h1, h2⟩ := ht.2 w gs' hI hg hl
      exact ⟨g', h1, h2 r⟩
    have hI : 𝓛.I c.toWorld (Function.update gs t (gs t)) := by
      rw [Function.update_eq_self]
      exact h.1
    exact ⟨_, h.update hI hwoken⟩
  case h_2 => cases hs

/-- **Soundness**: what holds at the start holds, for some ghosts, in every reachable
configuration whose run is as assumed. -/
theorem Logic.reach {c₀ c : Config T L C E σ} {gs₀ : T → 𝓛.G} (h₀ : 𝓛.Holds c₀ gs₀)
    (hr : Via 𝓛.K c₀ c) : ∃ gs, 𝓛.Holds c gs := by
  induction hr with
  | refl => exact ⟨gs₀, h₀⟩
  | @step c c' ch _ hs hK ih =>
    obtain ⟨gs, h⟩ := ih
    cases ch with
    | run t => exact h.run hs hK
    | wake t r => exact h.wake hs

end

end Threads
