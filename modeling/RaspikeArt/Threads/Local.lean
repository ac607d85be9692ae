import RaspikeArt.Threads.Finish

/-!
# Threads, part 7: one thread among others

What the thread itself does is a list of `Own` steps, accesses and broadcasts; between two of them
the memory may have become anything that the rely condition allows.

* `Local`              a rely condition `R`, a guarantee `A`, and a ghost that follows the own steps;
* `along 𝓛 p Q g`      run with the ghost `g`, `p` gives the guarantee at every own step, and ends,
                       if it does, as `Q` says; one rule per instruction;
* `recording R A`        the ghost is the list of the own steps;
* `Follows t c ss c'`  a run of the scheduler in which the own steps of `t` are `ss`, newest first;
* `Local.passes`       soundness for such runs; `Ends.along` for a thread that runs alone.
-/

set_option linter.unusedSectionVars false

namespace Threads

inductive Own (C E σ : Type) where
  | act (m : σ) (x : Option E) (m' : σ)
  | wake (c : C)

def Own.label {C E σ : Type} : Own C E σ → Option E
  | .act _ x _ => x
  | .wake _ => none

structure Local (C E σ : Type) where
  G : Type
  R : G → σ → Prop
  A : G → Own C E σ → Prop
  next : G → Own C E σ → G

variable {T L C E σ : Type} {α β S : Type}

def along (𝓛 : Local C E σ) : {α : Type} → Prog L C E σ α → (α → 𝓛.G → Prop) → 𝓛.G → Prop
  | _, .ret a, Q, g => Q a g
  | _, .act e f k, Q, g => ∀ m, 𝓛.R g m → 𝓛.A g (.act m (e m) (f m).2) ∧
      along 𝓛 (k (f m).1) Q (𝓛.next g (.act m (e m) (f m).2))
  | _, .lock _ k, Q, g => along 𝓛 k Q g
  | _, .unlock _ k, Q, g => along 𝓛 k Q g
  | _, .wait _ _ k, Q, g => ∀ r, along 𝓛 (k r) Q g
  | _, .blocked _ _ k, Q, g => ∀ r, along 𝓛 (k r) Q g
  | _, .woken _ r k, Q, g => along 𝓛 (k r) Q g
  | _, .broadcast c k, Q, g => 𝓛.A g (.wake c) ∧ along 𝓛 k Q (𝓛.next g (.wake c))
  | _, .loop s body k, Q, g => ∃ J : _ → 𝓛.G → Prop, J s g ∧ ∀ s g, J s g →
      along 𝓛 (body s) (fun r g' => match r with
        | .inl s' => J s' g'
        | .inr b => along 𝓛 (k b) Q g') g

section
variable {𝓛 : Local C E σ} {g : 𝓛.G}

theorem along_mono {p : Prog L C E σ α} : ∀ {Q Q' : α → 𝓛.G → Prop} {g : 𝓛.G},
    (∀ a g, Q a g → Q' a g) → along 𝓛 p Q g → along 𝓛 p Q' g := by
  induction p with
  | ret a => intro Q Q' g hQ h; exact hQ _ _ h
  | act e f k ih =>
    intro Q Q' g hQ h m hR
    exact ⟨(h m hR).1, ih _ hQ (h m hR).2⟩
  | lock l k ih => intro Q Q' g hQ h; exact ih hQ h
  | unlock l k ih => intro Q Q' g hQ h; exact ih hQ h
  | wait c l k ih => intro Q Q' g hQ h r; exact ih r hQ (h r)
  | blocked c l k ih => intro Q Q' g hQ h r; exact ih r hQ (h r)
  | woken l r k ih => intro Q Q' g hQ h; exact ih r hQ h
  | broadcast c k ih => intro Q Q' g hQ h; exact ⟨h.1, ih hQ h.2⟩
  | loop s body k ihb ihk =>
    intro Q Q' g hQ h
    obtain ⟨J, hJ, hbody⟩ := h
    refine ⟨J, hJ, fun s g hs => ihb s (fun r g' hr => ?_) (hbody s g hs)⟩
    cases r with
    | inl s' => exact hr
    | inr b => exact ihk b hQ hr

theorem along_bind_iff {p : Prog L C E σ α} {q : α → Prog L C E σ β} :
    ∀ {Q : β → 𝓛.G → Prop} {g : 𝓛.G},
    along 𝓛 (p.bind q) Q g ↔ along 𝓛 p (fun a g' => along 𝓛 (q a) Q g') g := by
  induction p with
  | ret a => intro Q g; rfl
  | act e f k ih => intro Q g; simp only [Prog.bind, along, ih]
  | lock l k ih => intro Q g; simp only [Prog.bind, along, ih]
  | unlock l k ih => intro Q g; simp only [Prog.bind, along, ih]
  | wait c l k ih => intro Q g; simp only [Prog.bind, along, ih]
  | blocked c l k ih => intro Q g; simp only [Prog.bind, along, ih]
  | woken l r k ih => intro Q g; simp only [Prog.bind, along, ih]
  | broadcast c k ih => intro Q g; simp only [Prog.bind, along, ih]
  | loop s body k ihb ihk => intro Q g; simp only [Prog.bind, along, ihk]

theorem along_bind {p : Prog L C E σ α} {q : α → Prog L C E σ β} {Q : β → 𝓛.G → Prop}
    (h : along 𝓛 p (fun a g' => along 𝓛 (q a) Q g') g) : along 𝓛 (p >>= q) Q g :=
  along_bind_iff.mpr h

/-- the rule of the intermediate assertion -/
theorem along_seq {p : Prog L C E σ α} {q : α → Prog L C E σ β} {Q : β → 𝓛.G → Prop}
    {B : α → 𝓛.G → Prop} (hp : along 𝓛 p B g) (hq : ∀ a g', B a g' → along 𝓛 (q a) Q g') :
    along 𝓛 (p >>= q) Q g :=
  along_bind (along_mono hq hp)

theorem along_pure {a : α} {Q : α → 𝓛.G → Prop} (h : Q a g) :
    along 𝓛 (pure a : Prog L C E σ α) Q g := h

theorem along_act {e : σ → Option E} {f : σ → β × σ} {Q : β → 𝓛.G → Prop}
    (h : ∀ m, 𝓛.R g m → 𝓛.A g (.act m (e m) (f m).2) ∧
      Q (f m).1 (𝓛.next g (.act m (e m) (f m).2))) :
    along 𝓛 (Prog.act e f .ret : Prog L C E σ β) Q g := h

theorem along_lock {l : L} {Q : Unit → 𝓛.G → Prop} (h : Q () g) :
    along 𝓛 (lock l : Prog L C E σ Unit) Q g := h

theorem along_unlock {l : L} {Q : Unit → 𝓛.G → Prop} (h : Q () g) :
    along 𝓛 (unlock l : Prog L C E σ Unit) Q g := h

theorem along_condWait {c : C} {l : L} {Q : Int → 𝓛.G → Prop} (h : ∀ r, Q r g) :
    along 𝓛 (condWait c l : Prog L C E σ Int) Q g := h

theorem along_broadcast {c : C} {Q : Unit → 𝓛.G → Prop} (hA : 𝓛.A g (.wake c))
    (h : Q () (𝓛.next g (.wake c))) : along 𝓛 (broadcast c : Prog L C E σ Unit) Q g := ⟨hA, h⟩

theorem along_loop {s : S} {body : S → Prog L C E σ (S ⊕ β)} {Q : β → 𝓛.G → Prop}
    (J : S → 𝓛.G → Prop) (hJ : J s g)
    (h : ∀ s g, J s g → along 𝓛 (body s)
      (fun r g' => match r with | .inl s' => J s' g' | .inr b => Q b g') g) :
    along 𝓛 (loopFrom s body) Q g := by
  refine ⟨J, hJ, fun s g hs => along_mono (fun r g' hr => ?_) (h s g hs)⟩
  cases r with
  | inl s' => exact hr
  | inr b => exact hr

theorem along_forEach {ι : Type} {is : List ι} {body : ι → Prog L C E σ Unit}
    {Q : Unit → 𝓛.G → Prop} (J : List ι → 𝓛.G → Prop) (hJ : J is g)
    (hstep : ∀ i is g, J (i :: is) g → along 𝓛 (body i) (fun _ g' => J is g') g)
    (hend : ∀ g, J [] g → Q () g) : along 𝓛 (forEach is body) Q g := by
  induction is generalizing g with
  | nil => exact hend g hJ
  | cons i is ih => exact along_seq (hstep i is g hJ) fun _ g' hg' => ih hg'

theorem along_orElse {x y : Prog L C E σ Bool} {Q : Bool → 𝓛.G → Prop}
    (h : along 𝓛 x (fun b g' => if b then Q true g' else along 𝓛 y Q g') g) :
    along 𝓛 (orElse x y) Q g := by
  apply along_seq h
  intro b g' hb
  cases b with
  | true => exact hb
  | false => exact hb

theorem along_and {p : Prog L C E σ α} : ∀ {Q Q' : α → 𝓛.G → Prop} {g : 𝓛.G},
    along 𝓛 p Q g → along 𝓛 p Q' g → along 𝓛 p (fun a g' => Q a g' ∧ Q' a g') g := by
  induction p with
  | ret a => exact fun hp hp' => ⟨hp, hp'⟩
  | act e f k ih => exact fun hp hp' m hR => ⟨(hp m hR).1, ih _ (hp m hR).2 (hp' m hR).2⟩
  | lock l k ih => exact fun hp hp' => ih hp hp'
  | unlock l k ih => exact fun hp hp' => ih hp hp'
  | wait c l k ih => exact fun hp hp' r => ih r (hp r) (hp' r)
  | blocked c l k ih => exact fun hp hp' r => ih r (hp r) (hp' r)
  | woken l r k ih => exact fun hp hp' => ih r hp hp'
  | broadcast c k ih => exact fun hp hp' => ⟨hp.1, ih hp.2 hp'.2⟩
  | loop s body k ihb ihk =>
    intro Q Q' g hp hp'
    obtain ⟨J, hJ, hbody⟩ := hp
    obtain ⟨J', hJ', hbody'⟩ := hp'
    refine ⟨fun s g => J s g ∧ J' s g, ⟨hJ, hJ'⟩, ?_⟩
    rintro s g ⟨hs, hs'⟩
    apply along_mono _ (ihb s (hbody s g hs) (hbody' s g hs'))
    rintro r g' ⟨hr, hr'⟩
    cases r with
    | inl s' => exact ⟨hr, hr'⟩
    | inr b => exact ihk b hr hr'

/-- with what is known of the result alone -/
theorem along_yields {p : Prog L C E σ α} : ∀ {R : α → Prop} {Q : α → 𝓛.G → Prop} {g : 𝓛.G},
    along 𝓛 p Q g → p.Yields R → along 𝓛 p (fun a g' => Q a g' ∧ R a) g := by
  induction p with
  | ret a => exact fun hp hy => ⟨hp, hy⟩
  | act e f k ih => exact fun hp hy m hR => ⟨(hp m hR).1, ih _ (hp m hR).2 (hy m)⟩
  | lock l k ih => exact fun hp hy => ih hp hy
  | unlock l k ih => exact fun hp hy => ih hp hy
  | wait c l k ih => exact fun hp hy r => ih r (hp r) (hy r)
  | blocked c l k ih => exact fun hp hy r => ih r (hp r) (hy r)
  | woken l r k ih => exact fun hp hy => ih r hp (hy r)
  | broadcast c k ih => exact fun hp hy => ⟨hp.1, ih hp.2 hy⟩
  | loop s body k ihb ihk =>
    intro R Q g hp hy
    obtain ⟨J, hJ, hbody⟩ := hp
    obtain ⟨J', hJ', hbody'⟩ := hy
    refine ⟨fun s g => J s g ∧ J' s, ⟨hJ, hJ'⟩, ?_⟩
    rintro s g ⟨hs, hs'⟩
    apply along_mono _ (ihb s (hbody s g hs) (hbody' s hs'))
    rintro r g' ⟨hr, hr'⟩
    cases r with
    | inl s' => exact ⟨hr, hr'⟩
    | inr b => exact ihk b hr hr'

theorem along_turn {s : S} {body : S → Prog L C E σ (S ⊕ β)} {k : β → Prog L C E σ α}
    {Q : α → 𝓛.G → Prop} (h : along 𝓛 (.loop s body k) Q g) : along 𝓛 (Prog.turn body k s) Q g := by
  obtain ⟨J, hJ, hbody⟩ := h
  apply along_bind_iff.mpr
  apply along_mono _ (hbody s g hJ)
  intro r g' hr
  cases r with
  | inl s' => exact ⟨J, hr, hbody⟩
  | inr b => exact hr

end

/-! ## programs that keep an invariant of the ghost -/

/-- every broadcast of `p` is on a condition variable that satisfies `ok` -/
def Prog.Wakes (ok : C → Prop) : {α : Type} → Prog L C E σ α → Prop
  | _, .ret _ => True
  | _, .act _ _ k => ∀ b, (k b).Wakes ok
  | _, .lock _ k => k.Wakes ok
  | _, .unlock _ k => k.Wakes ok
  | _, .wait _ _ k => ∀ r, (k r).Wakes ok
  | _, .blocked _ _ k => ∀ r, (k r).Wakes ok
  | _, .woken _ _ k => ∀ r, (k r).Wakes ok
  | _, .broadcast c k => ok c ∧ k.Wakes ok
  | _, .loop _ body k => (∀ s, (body s).Wakes ok) ∧ ∀ b, (k b).Wakes ok

theorem Prog.Wakes.bind {ok : C → Prop} {p : Prog L C E σ α} {q : α → Prog L C E σ β}
    (hp : p.Wakes ok) (hq : ∀ a, (q a).Wakes ok) : (p >>= q).Wakes ok := by
  show (p.bind q).Wakes ok
  induction p with
  | ret a => exact hq a
  | act e f k ih => exact fun b => ih b (hp b) hq
  | lock l k ih => exact ih hp hq
  | unlock l k ih => exact ih hp hq
  | wait c l k ih => exact fun r => ih r (hp r) hq
  | blocked c l k ih => exact fun r => ih r (hp r) hq
  | woken l r k ih => exact fun r => ih r (hp r) hq
  | broadcast c k ih => exact ⟨hp.1, ih hp.2 hq⟩
  | loop s body k _ ihk => exact ⟨hp.1, fun b => ihk b (hp.2 b) hq⟩

theorem Prog.Wakes.act {ok : C → Prop} {e : σ → Option E} {f : σ → β × σ} :
    (.act e f .ret : Prog L C E σ β).Wakes ok := fun _ => True.intro

theorem Prog.Wakes.lock {ok : C → Prop} {l : L} : (Threads.lock l : Prog L C E σ Unit).Wakes ok :=
  True.intro

theorem Prog.Wakes.unlock {ok : C → Prop} {l : L} : (Threads.unlock l : Prog L C E σ Unit).Wakes ok :=
  True.intro

theorem Prog.Wakes.loopFrom {ok : C → Prop} {s : S} {body : S → Prog L C E σ (S ⊕ β)}
    (h : ∀ s, (body s).Wakes ok) : (Threads.loopFrom s body).Wakes ok := ⟨h, fun _ => True.intro⟩

theorem Prog.Wakes.trivial {p : Prog L C E σ α} : p.Wakes fun _ => True := by
  induction p with
  | ret a => exact True.intro
  | act e f k ih => exact ih
  | lock l k ih => exact ih
  | unlock l k ih => exact ih
  | wait c l k ih => exact ih
  | blocked c l k ih => exact ih
  | woken l r k ih => exact ih
  | broadcast c k ih => exact ⟨True.intro, ih⟩
  | loop s body k ihb ihk => exact ⟨ihb, ihk⟩

theorem Prog.Wakes.mono {ok ok' : C → Prop} (h : ∀ c, ok c → ok' c) {p : Prog L C E σ α}
    (hp : p.Wakes ok) : p.Wakes ok' := by
  induction p with
  | ret a => exact True.intro
  | act e f k ih => exact fun b => ih b (hp b)
  | lock l k ih => exact ih hp
  | unlock l k ih => exact ih hp
  | wait c l k ih => exact fun r => ih r (hp r)
  | blocked c l k ih => exact fun r => ih r (hp r)
  | woken l r k ih => exact fun r => ih r (hp r)
  | broadcast c k ih => exact ⟨h _ hp.1, ih hp.2⟩
  | loop s body k ihb ihk => exact ⟨fun s => ihb s (hp.1 s), fun b => ihk b (hp.2 b)⟩

/-- an invariant of the ghost that no access and no broadcast of `p` breaks -/
theorem along_all {𝓛 : Local C E σ} {okAct : (σ → Option E) → (σ → σ) → Prop} {okLock : L → Prop}
    {okWake : C → Prop} {P : 𝓛.G → Prop}
    (hact : ∀ e (f : σ → σ) g m, okAct e f → P g → 𝓛.R g m →
      𝓛.A g (.act m (e m) (f m)) ∧ P (𝓛.next g (.act m (e m) (f m))))
    (hwake : ∀ c g, okWake c → P g → 𝓛.A g (.wake c) ∧ P (𝓛.next g (.wake c)))
    {p : Prog L C E σ α} (hp : p.All okAct okLock) (hw : p.Wakes okWake) : ∀ {R : α → Prop}
    {Q : α → 𝓛.G → Prop} {g : 𝓛.G}, p.Yields R → P g → (∀ a g', R a → P g' → Q a g') →
    along 𝓛 p Q g := by
  induction p with
  | ret a => exact fun hy hP hQ => hQ a _ hy hP
  | act e f k ih =>
    intro R Q g hy hP hQ m hR
    obtain ⟨hA, hP'⟩ := hact e _ g m hp.1 hP hR
    exact ⟨hA, ih _ (hp.2 _) (hw _) (hy m) hP' hQ⟩
  | lock l k ih => exact fun hy hP hQ => ih hp.2 hw hy hP hQ
  | unlock l k ih => exact fun hy hP hQ => ih hp.2 hw hy hP hQ
  | wait c l k ih => exact fun hy hP hQ r => ih r (hp.2 r) (hw r) (hy r) hP hQ
  | blocked c l k ih => exact fun hy hP hQ r => ih r (hp.2 r) (hw r) (hy r) hP hQ
  | woken l r k ih => exact fun hy hP hQ => ih r (hp.2 r) (hw r) (hy r) hP hQ
  | broadcast c k ih =>
    intro R Q g hy hP hQ
    obtain ⟨hA, hP'⟩ := hwake c g hw.1 hP
    exact ⟨hA, ih hp hw.2 hy hP' hQ⟩
  | loop s body k ihb ihk =>
    intro R Q g hy hP hQ
    obtain ⟨J, hJ, hbody⟩ := hy
    refine ⟨fun s g => J s ∧ P g, ⟨hJ, hP⟩, ?_⟩
    rintro s g ⟨hs, hg⟩
    apply ihb s (hp.1 s) (hw.1 s) (hbody s hs) hg
    intro r g' hr hg'
    cases r with
    | inl s' => exact ⟨hr, hg'⟩
    | inr b => exact ihk b (hp.2 b) (hw.2 b) hr hg' hQ

theorem Prog.All.trivial {p : Prog L C E σ α} : p.All (fun _ _ => True) fun _ => True := by
  induction p with
  | ret a => exact True.intro
  | act e f k ih => exact ⟨True.intro, ih⟩
  | lock l k ih => exact ⟨True.intro, ih⟩
  | unlock l k ih => exact ⟨True.intro, ih⟩
  | wait c l k ih => exact ⟨True.intro, ih⟩
  | blocked c l k ih => exact ⟨True.intro, ih⟩
  | woken l r k ih => exact ⟨True.intro, ih⟩
  | broadcast c k ih => exact ih
  | loop s body k ihb ihk => exact ⟨ihb, ihk⟩

/-- an invariant of the ghost that no own step breaks -/
theorem along_any [DecidableEq L] {𝓛 : Local C E σ} {P : 𝓛.G → Prop}
    (h : ∀ g s, P g → 𝓛.A g s ∧ P (𝓛.next g s)) {p : Prog L C E σ α} {g : 𝓛.G} (hP : P g) :
    along 𝓛 p (fun _ => P) g :=
  along_all (fun _ _ g _ _ hg _ => h g _ hg) (fun _ g _ hg => h g _ hg) Prog.All.trivial
    Prog.Wakes.trivial Prog.Yields.trivial hP fun _ _ _ hg => hg

namespace Local
variable {𝓛 : Local C E σ}

/-- the ghost after some own steps, newest first -/
def after (𝓛 : Local C E σ) (g : 𝓛.G) : List (Own C E σ) → 𝓛.G
  | [] => g
  | s :: ss => 𝓛.next (𝓛.after g ss) s

/-- the rely condition holds at every own access -/
def Relies (𝓛 : Local C E σ) (g : 𝓛.G) : List (Own C E σ) → Prop
  | [] => True
  | s :: ss => 𝓛.Relies g ss ∧ ∀ m x m', s = .act m x m' → 𝓛.R (𝓛.after g ss) m

/-- the guarantee holds at every own step -/
def Gives (𝓛 : Local C E σ) (g : 𝓛.G) : List (Own C E σ) → Prop
  | [] => True
  | s :: ss => 𝓛.Gives g ss ∧ 𝓛.A (𝓛.after g ss) s

theorem after_append (g : 𝓛.G) (xs ss : List (Own C E σ)) :
    𝓛.after g (xs ++ ss) = 𝓛.after (𝓛.after g ss) xs := by
  induction xs with
  | nil => rfl
  | cons x xs ih => exact congrArg (𝓛.next · x) ih

theorem relies_append {g : 𝓛.G} {xs ss : List (Own C E σ)} :
    𝓛.Relies g (xs ++ ss) ↔ 𝓛.Relies g ss ∧ 𝓛.Relies (𝓛.after g ss) xs := by
  induction xs with
  | nil => exact ⟨fun h => ⟨h, trivial⟩, fun h => h.1⟩
  | cons x xs ih =>
    show 𝓛.Relies g (xs ++ ss) ∧ (∀ m x' m', _ → 𝓛.R (𝓛.after g (xs ++ ss)) m) ↔ _ ∧ _ ∧ _
    rw [ih, after_append, and_assoc]

theorem gives_append {g : 𝓛.G} {xs ss : List (Own C E σ)} :
    𝓛.Gives g (xs ++ ss) ↔ 𝓛.Gives g ss ∧ 𝓛.Gives (𝓛.after g ss) xs := by
  induction xs with
  | nil => exact ⟨fun h => ⟨h, trivial⟩, fun h => h.1⟩
  | cons x xs ih =>
    show 𝓛.Gives g (xs ++ ss) ∧ 𝓛.A (𝓛.after g (xs ++ ss)) x ↔ _ ∧ _ ∧ _
    rw [ih, after_append, and_assoc]

end Local

/-- the ghost is the list of the own steps so far, newest first -/
def recording (R : σ → Prop) (A : List (Own C E σ) → Own C E σ → Prop) : Local C E σ where
  G := List (Own C E σ)
  R _ m := R m
  A := A
  next ss s := s :: ss

section
variable {R : σ → Prop} {A : List (Own C E σ) → Own C E σ → Prop}

theorem recording_after (ss xs : List (Own C E σ)) : (recording R A).after ss xs = xs ++ ss := by
  induction xs with
  | nil => rfl
  | cons x xs ih => exact congrArg (x :: ·) ih

theorem recording_relies {ss xs : List (Own C E σ)} (h : ∀ m x m', .act m x m' ∈ xs → R m) :
    (recording R A).Relies ss xs := by
  induction xs with
  | nil => trivial
  | cons x xs ih =>
    refine ⟨ih fun m x m' hs => h m x m' (List.mem_cons_of_mem _ hs), ?_⟩
    rintro m x' m' rfl
    exact h m x' m' List.mem_cons_self

end

/-- the memory after the last of some own accesses, newest first -/
def lastMem (m : σ) : List (Own C E σ) → σ
  | [] => m
  | .act _ _ m' :: _ => m'
  | .wake _ :: ss => lastMem m ss

/-- the ghost is the memory after the last own access; what the others have made of it since then is
related to it by `Rel` -/
def lately (Rel : σ → σ → Prop) : Local C E σ where
  G := σ
  R := Rel
  A _ _ := True
  next g s := lastMem g [s]

theorem lately_after {Rel : σ → σ → Prop} (m : σ) (ss : List (Own C E σ)) :
    (lately Rel).after m ss = lastMem m ss := by
  induction ss with
  | nil => rfl
  | cons s ss ih =>
    show lastMem ((lately Rel).after m ss) [s] = _
    rw [ih]
    cases s <;> rfl

/-! ## a thread that runs alone -/

section
variable [DecidableEq L]

/-- nobody else changes the memory between the own steps that lead from `m` to `m'` -/
def Chained (m : σ) : List (Own C E σ) → σ → Prop
  | [], m' => m' = m
  | .act m₁ _ m₂ :: ss, m' => Chained m ss m₁ ∧ m' = m₂
  | .wake _ :: ss, m' => Chained m ss m'

theorem Chained.append {m m₁ m' : σ} {xs ss : List (Own C E σ)} (h : Chained m ss m₁)
    (h' : Chained m₁ xs m') : Chained m (xs ++ ss) m' := by
  induction xs generalizing m' with
  | nil =>
    cases h'
    exact h
  | cons x xs ih =>
    cases x with
    | act a x b => exact ⟨ih h'.1, h'.2⟩
    | wake c => exact ih h'

/-- **Soundness**: the run is made of own steps -/
theorem Ends.along {p : Prog L C E σ α} {w w' : World Unit L E σ} {a : α} (h : Ends p w a w') :
    ∃ ss : List (Own C E σ), Chained w.mem ss w'.mem ∧
      (w'.trace = (ss.filterMap Own.label).map (((), ·)) ++ w.trace) ∧
      ∀ (𝓛 : Local C E σ) (g : 𝓛.G) (Q : α → 𝓛.G → Prop), Threads.along 𝓛 p Q g → 𝓛.Relies g ss →
        Q a (𝓛.after g ss) ∧ 𝓛.Gives g ss := by
  induction h with
  | ret => exact ⟨[], rfl, rfl, fun _ _ _ hp _ => ⟨hp, trivial⟩⟩
  | @act β e f k w w' a _ ih =>
    obtain ⟨ss, hchain, htr, hsound⟩ := ih
    have hfirst : Chained (C := C) w.mem [.act w.mem (e w.mem) (f w.mem).2] (f w.mem).2 := ⟨rfl, rfl⟩
    refine ⟨ss ++ [.act w.mem (e w.mem) (f w.mem).2], hfirst.append hchain, ?_, ?_⟩
    · rw [htr, List.filterMap_append, List.map_append, List.append_assoc]
      congr 1
      show World.push () (e w.mem) w.trace = _
      cases he : e w.mem <;> simp [Own.label]
    · intro 𝓛 g Q hp hr
      obtain ⟨hr₁, hr₂⟩ := Local.relies_append.mp hr
      obtain ⟨hA, hk⟩ := hp w.mem (hr₁.2 _ _ _ rfl)
      obtain ⟨hQ, hG⟩ := hsound 𝓛 _ Q hk hr₂
      rw [Local.after_append]
      exact ⟨hQ, Local.gives_append.mpr ⟨⟨trivial, hA⟩, hG⟩⟩
  | lock _ _ ih => exact ih
  | unlock _ ih => exact ih
  | @broadcast c k w w' a _ ih =>
    obtain ⟨ss, hchain, htr, hsound⟩ := ih
    have hfirst : Chained (E := E) w.mem [.wake c] w.mem := rfl
    refine ⟨ss ++ [.wake c], hfirst.append hchain, ?_, ?_⟩
    · rw [htr, List.filterMap_append, List.map_append, List.append_assoc]
      rfl
    · intro 𝓛 g Q hp hr
      obtain ⟨-, hr₂⟩ := Local.relies_append.mp hr
      obtain ⟨hQ, hG⟩ := hsound 𝓛 _ Q hp.2 hr₂
      rw [Local.after_append]
      exact ⟨hQ, Local.gives_append.mpr ⟨⟨trivial, hp.1⟩, hG⟩⟩
  | loop _ ih =>
    obtain ⟨ss, hchain, htr, hsound⟩ := ih
    exact ⟨ss, hchain, htr, fun 𝓛 g Q hp => hsound 𝓛 g Q (along_turn hp)⟩

end

/-! ## a thread among others -/

section
variable [DecidableEq T] [DecidableEq L] [DecidableEq C]

/-- what a step of `t` is to be -/
def ownStep (c : Config T L C E σ) (t : T) : List (Own C E σ) :=
  match c.thr t with
  | .act e f _ => [.act c.mem (e c.mem) (f c.mem).2]
  | .broadcast v _ => [.wake v]
  | _ => []

inductive Follows (t : T) (c : Config T L C E σ) : List (Own C E σ) → Config T L C E σ → Prop
  | refl : Follows t c [] c
  | own {ss : List (Own C E σ)} {c₁ c' : Config T L C E σ} (h : Follows t c ss c₁)
      (hs : step c₁ (.run t) = some c') : Follows t c (ownStep c₁ t ++ ss) c'
  | other {ss : List (Own C E σ)} {c₁ c' : Config T L C E σ} {ch : Choice T} (h : Follows t c ss c₁)
      (hch : ch ≠ .run t) (hs : step c₁ ch = some c') : Follows t c ss c'

/-- a thread at an instruction of a part of its program, with `q` still to come -/
def Midway (q : α → Prog L C E σ Unit) (x : Prog L C E σ Unit) : Prop :=
  ∃ p : Prog L C E σ α, (∀ a, p ≠ .ret a) ∧ x = p.bind q

namespace Local
variable {𝓛 : Local C E σ}

variable {t : T} {q : α → Prog L C E σ Unit} {Q : α → 𝓛.G → Prop}

/-- one step of the thread inside a program that has not ended -/
theorem passes_own {c c' : Config T L C E σ} {p : Prog L C E σ α} {g : 𝓛.G}
    (hs : step c (.run t) = some c') (hc : c.thr t = p.bind q) (hne : ∀ a, p ≠ .ret a)
    (hp : along 𝓛 p Q g) (hr : 𝓛.Relies g (ownStep c t)) :
    ∃ p' : Prog L C E σ α, c'.thr t = p'.bind q ∧ along 𝓛 p' Q (𝓛.after g (ownStep c t)) ∧
      𝓛.Gives g (ownStep c t) := by
  rw [ownStep, hc] at hr ⊢
  simp only [step, hc] at hs
  cases p with
  | ret a => exact (hne a rfl).elim
  | act e f k =>
    cases hs
    obtain ⟨hA, hk⟩ := hp c.mem (hr.2 _ _ _ rfl)
    exact ⟨_, Function.update_self .., hk, trivial, hA⟩
  | lock l k | woken l r k =>
    simp only [Prog.bind] at hs
    split at hs
    case isTrue =>
      cases hs
      exact ⟨_, Function.update_self .., hp, trivial⟩
    case isFalse => cases hs
  | unlock l k =>
    cases hs
    exact ⟨k, Function.update_self .., hp, trivial⟩
  | wait v l k =>
    cases hs
    exact ⟨.blocked v l k, Function.update_self .., hp, trivial⟩
  | blocked v l k => cases hs
  | broadcast v k =>
    cases hs
    refine ⟨k, ?_, hp.2, trivial, hp.1⟩
    show Function.update (fun u => (c.thr u).signal v) t _ t = _
    rw [Function.update_self]
  | loop s body k =>
    cases hs
    refine ⟨Prog.turn body k s, ?_, along_turn hp, trivial⟩
    rw [Prog.turn_bind]
    exact Function.update_self ..

/-- what the rest of the system does to a thread: it may end its sleep -/
theorem step_other {c c' : Config T L C E σ} {ch : Choice T} (hs : step c ch = some c')
    (hch : ch ≠ .run t) : c'.thr t = c.thr t ∨
      ∃ v l r k, c.thr t = .blocked v l k ∧ c'.thr t = .woken l r k := by
  have hsame : ∀ {u : T} (k : Prog L C E σ Unit), u ≠ t →
      Function.update c.thr u k t = c.thr t := fun k hu => Function.update_of_ne (Ne.symm hu) ..
  cases ch with
  | wake u r =>
    simp only [step] at hs
    split at hs
    case h_2 => cases hs
    case h_1 v l k hk =>
      cases hs
      by_cases hu : u = t
      · subst hu
        exact .inr ⟨v, l, r, k, hk, Function.update_self u (Prog.woken l r k) c.thr⟩
      · exact .inl (hsame _ hu)
  | run u =>
    have hu : u ≠ t := fun h => hch (congrArg Choice.run h)
    simp only [step] at hs
    split at hs
    case h_1 | h_6 => cases hs
    case h_8 v k hk =>
      cases hs
      have hsig : Function.update (fun u => (c.thr u).signal v) u k t = (c.thr t).signal v :=
        Function.update_of_ne (Ne.symm hu) ..
      show Function.update (fun u => (c.thr u).signal v) u k t = c.thr t ∨
        ∃ v' l r k', c.thr t = .blocked v' l k' ∧
          Function.update (fun u => (c.thr u).signal v) u k t = .woken l r k'
      rw [hsig]
      cases c.thr t with
      | blocked v' l' k' =>
        by_cases hv : v' = v
        · rw [Prog.signal, if_pos hv]
          exact .inr ⟨v', l', 0, k', rfl, rfl⟩
        · rw [Prog.signal, if_neg hv]
          exact .inl rfl
      | _ => exact .inl rfl
    case h_3 | h_7 =>
      split at hs
      · cases hs
        exact .inl (hsame _ hu)
      · cases hs
    all_goals
      cases hs
      exact .inl (hsame _ hu)

theorem passes_other {c c' : Config T L C E σ} {ch : Choice T} {p : Prog L C E σ α} {g : 𝓛.G}
    (hs : step c ch = some c') (hch : ch ≠ .run t) (hc : c.thr t = p.bind q) (hne : ∀ a, p ≠ .ret a)
    (hp : along 𝓛 p Q g) : ∃ p' : Prog L C E σ α, c'.thr t = p'.bind q ∧ along 𝓛 p' Q g := by
  obtain h | ⟨v, l, r, k, hk, h⟩ := step_other hs hch
  · exact ⟨p, h.trans hc, hp⟩
  · rw [hc] at hk
    cases p with
    | ret a => exact (hne a rfl).elim
    | blocked v' l' k' =>
      cases hk
      exact ⟨.woken l r k', h, hp r⟩
    | _ => cases hk

/-- the thread is still inside `p`, or it has come out of it at `c₁` -/
theorem comes_out {c c' : Config T L C E σ} {p : Prog L C E σ α} {g : 𝓛.G} {ss : List (Own C E σ)}
    (hf : Follows t c ss c') (hc : c.thr t = p.bind q) (hp : along 𝓛 p Q g) (hr : 𝓛.Relies g ss) :
    (∃ p' : Prog L C E σ α, c'.thr t = p'.bind q ∧ along 𝓛 p' Q (𝓛.after g ss) ∧ 𝓛.Gives g ss) ∨
      ∃ a c₁ ss₁ ss₂, ss = ss₂ ++ ss₁ ∧ Follows t c ss₁ c₁ ∧ c₁.thr t = q a ∧ Q a (𝓛.after g ss₁) ∧
        𝓛.Gives g ss₁ ∧ Follows t c₁ ss₂ c' := by
  induction hf with
  | refl => exact .inl ⟨p, hc, hp, trivial⟩
  | @own ss c₁ c' hf hs ih =>
    obtain ⟨hr₁, hr₂⟩ := relies_append.mp hr
    obtain ⟨p', hc', hp', hg⟩ | ⟨a, c₂, ss₁, ss₂, rfl, hf₁, hc₂, hQ, hg, hf₂⟩ := ih hr₁
    · by_cases hret : ∃ a, p' = .ret a
      · obtain ⟨a, rfl⟩ := hret
        refine .inr ⟨a, c₁, ss, ownStep c₁ t, rfl, hf, hc', hp', hg, ?_⟩
        exact List.append_nil (ownStep c₁ t) ▸ Follows.refl.own hs
      · obtain ⟨p'', hc'', hp'', hg''⟩ :=
          passes_own hs hc' (fun a h => hret ⟨a, h⟩) hp' hr₂
        rw [← after_append] at hp''
        exact .inl ⟨p'', hc'', hp'', gives_append.mpr ⟨hg, hg''⟩⟩
    · exact .inr ⟨a, c₂, ss₁, ownStep c₁ t ++ ss₂, (List.append_assoc ..).symm, hf₁, hc₂, hQ, hg,
        hf₂.own hs⟩
  | @other ss c₁ c' ch hf hch hs ih =>
    obtain ⟨p', hc', hp', hg⟩ | ⟨a, c₂, ss₁, ss₂, rfl, hf₁, hc₂, hQ, hg, hf₂⟩ := ih hr
    · by_cases hret : ∃ a, p' = .ret a
      · obtain ⟨a, rfl⟩ := hret
        exact .inr ⟨a, c₁, ss, [], rfl, hf, hc', hp', hg, Follows.refl.other hch hs⟩
      · obtain ⟨p'', hc'', hp''⟩ := passes_other hs hch hc' (fun a h => hret ⟨a, h⟩) hp'
        exact .inl ⟨p'', hc'', hp'', hg⟩
    · exact .inr ⟨a, c₂, ss₁, ss₂, rfl, hf₁, hc₂, hQ, hg, hf₂.other hch hs⟩

/-- **Soundness**: the thread is at an instruction of `p`, or it has come out of it -/
theorem inside_or_out {c c' : Config T L C E σ} {p : Prog L C E σ α} {g : 𝓛.G} {ss : List (Own C E σ)}
    (hf : Follows t c ss c') (hc : c.thr t = p.bind q) (hp : along 𝓛 p Q g) (hr : 𝓛.Relies g ss) :
    Midway q (c'.thr t) ∨ ∃ a c₁ ss₁ ss₂, ss = ss₂ ++ ss₁ ∧ Follows t c ss₁ c₁ ∧ c₁.thr t = q a ∧
      Follows t c₁ ss₂ c' ∧ Q a (𝓛.after g ss₁) := by
  obtain ⟨p', hc', hp', -⟩ | ⟨a, c₁, ss₁, ss₂, hss, hf₁, hc₁, hQ, -, hf₂⟩ := comes_out hf hc hp hr
  · by_cases hret : ∃ a, p' = .ret a
    · obtain ⟨a, rfl⟩ := hret
      exact .inr ⟨a, c', ss, [], rfl, hf, hc', .refl, hp'⟩
    · exact .inl ⟨p', fun a h => hret ⟨a, h⟩, hc'⟩
  · exact .inr ⟨a, c₁, ss₁, ss₂, hss, hf₁, hc₁, hf₂, hQ⟩

/-- **Soundness**: the thread is still inside `p`, or it has passed through `p` to a result -/
theorem passes {c c' : Config T L C E σ} {p : Prog L C E σ α} {g : 𝓛.G} {ss : List (Own C E σ)}
    (hf : Follows t c ss c') (hc : c.thr t = p.bind q) (hp : along 𝓛 p Q g) (hr : 𝓛.Relies g ss) :
    (∃ p' : Prog L C E σ α, c'.thr t = p'.bind q ∧ along 𝓛 p' Q (𝓛.after g ss) ∧ 𝓛.Gives g ss) ∨
      ∃ a c₁ ss₁ ss₂, ss = ss₂ ++ ss₁ ∧ c₁.thr t = q a ∧ Q a (𝓛.after g ss₁) ∧ 𝓛.Gives g ss₁ ∧
        Follows t c₁ ss₂ c' := by
  obtain hin | ⟨a, c₁, ss₁, ss₂, hss, -, hout⟩ := comes_out hf hc hp hr
  · exact .inl hin
  · exact .inr ⟨a, c₁, ss₁, ss₂, hss, hout⟩

end Local

/-! ### the history and the own steps -/

/-- a step of `t`: an own access with its label, or one that leaves memory and history alone -/
theorem ownStep_cases {t : T} {c c' : Config T L C E σ} (hs : step c (.run t) = some c') :
    (∃ x, ownStep c t = [.act c.mem x c'.mem] ∧ c'.trace = World.push t x c.trace) ∨
      (∀ s ∈ ownStep c t, ∃ v, s = .wake v) ∧ c'.trace = c.trace ∧ c'.mem = c.mem := by
  rw [ownStep]
  cases hk : c.thr t with
  | ret a | blocked v l k =>
    simp only [step, hk] at hs
    cases hs
  | act e f k =>
    simp only [step, hk] at hs
    cases hs
    exact .inl ⟨e c.mem, rfl, rfl⟩
  | broadcast v k =>
    simp only [step, hk] at hs
    cases hs
    exact .inr ⟨fun s h => ⟨v, List.mem_singleton.mp h⟩, rfl, rfl⟩
  | lock l k | woken l r k =>
    simp only [step, hk] at hs
    split at hs
    · cases hs
      exact .inr ⟨by simp, rfl, rfl⟩
    · cases hs
  | unlock l k | wait v l k | loop s body k =>
    simp only [step, hk] at hs
    cases hs
    exact .inr ⟨by simp, rfl, rfl⟩

/-- what the rest of the system adds to the history -/
theorem step_other_trace {t : T} {c c' : Config T L C E σ} {ch : Choice T} (hs : step c ch = some c')
    (hch : ch ≠ .run t) : c'.trace = c.trace ∨ ∃ u e, u ≠ t ∧ c'.trace = (u, e) :: c.trace := by
  cases ch with
  | wake u r =>
    simp only [step] at hs
    split at hs
    · cases hs
      exact .inl rfl
    · cases hs
  | run u =>
    obtain ⟨x, -, htr⟩ | ⟨-, htr, -⟩ := ownStep_cases hs
    · cases x with
      | none => exact .inl htr
      | some e => exact .inr ⟨u, e, fun h => hch (congrArg Choice.run h), htr⟩
    · exact .inl htr

theorem Follows.reach {t : T} {c c' : Config T L C E σ} {ss : List (Own C E σ)} (h : Follows t c ss c') :
    Reach c c' := by
  induction h with
  | refl => exact .refl
  | own _ hs ih => exact ih.step hs
  | other _ _ hs ih => exact ih.step hs

/-- every run is one that `t` takes part in -/
theorem Reach.follows {c c' : Config T L C E σ} (h : Reach c c') (t : T) : ∃ ss, Follows t c ss c' := by
  induction h with
  | refl => exact ⟨[], .refl⟩
  | @step c₁ c₂ ch _ hs ih =>
    obtain ⟨ss, hf⟩ := ih
    by_cases hch : ch = .run t
    · cases hch
      exact ⟨_, hf.own hs⟩
    · exact ⟨ss, hf.other hch hs⟩

/-- no own steps are left to a thread that has ended -/
theorem Follows.ended {t : T} {c c' : Config T L C E σ} {ss : List (Own C E σ)}
    (h : Follows t c ss c') (hc : c.thr t = .ret ()) : ss = [] ∧ c'.thr t = .ret () := by
  induction h with
  | refl => exact ⟨rfl, hc⟩
  | own _ hs ih =>
    simp only [step, ih.2] at hs
    cases hs
  | other _ hch hs ih =>
    refine ⟨ih.1, ?_⟩
    obtain h | ⟨v, l, r, k, hk, -⟩ := Local.step_other hs hch
    · exact h.trans ih.2
    · cases ih.2.symm.trans hk

/-- a whole thread gives what its program does -/
theorem Follows.gives {𝓛 : Local C E σ} {t : T} {c c' : Config T L C E σ} {ss : List (Own C E σ)}
    {Q : Unit → 𝓛.G → Prop} {g : 𝓛.G} (h : Follows t c ss c') (hp : along 𝓛 (c.thr t) Q g)
    (hr : 𝓛.Relies g ss) : 𝓛.Gives g ss := by
  obtain ⟨p', -, -, hg⟩ | ⟨a, c₁, ss₁, ss₂, rfl, hc₁, -, hg, hf₂⟩ :=
    Local.passes h (Prog.bind_ret _).symm hp hr
  · exact hg
  · obtain ⟨rfl, -⟩ := hf₂.ended hc₁
    exact hg

/-- a condition that holds in every state of the run holds at every own access -/
theorem Follows.memory {R : σ → Prop} {t : T} {c₀ c : Config T L C E σ} {ss : List (Own C E σ)}
    (h : Follows t c₀ ss c) (hR : ∀ c₁, Reach c₀ c₁ → R c₁.mem) : ∀ m x m', .act m x m' ∈ ss → R m := by
  induction h with
  | refl => exact fun m x m' hs => (List.not_mem_nil hs).elim
  | @own ss c₁ c' hf hs ih =>
    intro m x m' hmem
    obtain hmem | hmem := List.mem_append.mp hmem
    · obtain ⟨y, hss, -⟩ | ⟨hss, -, -⟩ := ownStep_cases hs
      · rw [hss] at hmem
        cases List.mem_singleton.mp hmem
        exact hR c₁ hf.reach
      · obtain ⟨v, hv⟩ := hss _ hmem
        cases hv
    · exact ih m x m' hmem
  | other _ _ _ ih => exact ih

/-- the other threads keep the rely condition: whatever the ghost, no access of theirs breaks it, and
no own step does -/
structure Local.Stable (𝓛 : Local C E σ) (okAct : (σ → Option E) → (σ → σ) → Prop) : Prop where
  others : ∀ g m e f, okAct e f → 𝓛.R g m → 𝓛.R g (f m)
  own : ∀ g m x m', 𝓛.R g m → 𝓛.A g (.act m x m') → 𝓛.R (𝓛.next g (.act m x m')) m'
  wakes : ∀ g m v, 𝓛.R g m → 𝓛.R (𝓛.next g (.wake v)) m

theorem lately_stable {Rel : σ → σ → Prop} {okAct : (σ → Option E) → (σ → σ) → Prop}
    (hrefl : ∀ m, Rel m m) (htrans : ∀ m m₁ m₂, Rel m m₁ → Rel m₁ m₂ → Rel m m₂)
    (h : ∀ e f m, okAct e f → Rel m (f m)) : (lately Rel : Local C E σ).Stable okAct where
  others g m e f hok hR := htrans g m (f m) hR (h e f m hok)
  own _ _ _ m' _ _ := hrefl m'
  wakes _ _ _ hR := hR

/-- **Soundness**, with other threads of which the accesses keep the rely condition -/
theorem Follows.stable {𝓛 : Local C E σ} {okAct : (σ → Option E) → (σ → σ) → Prop} {okLock : L → Prop}
    (hst : 𝓛.Stable okAct) {t : T} {c c' : Config T L C E σ} {ss : List (Own C E σ)} {g : 𝓛.G}
    (h : Follows t c ss c') (hg : 𝓛.R g c.mem) (hA : ∀ g s, 𝓛.A g s)
    (hothers : ∀ u ≠ t, (c.thr u).All okAct okLock) :
    𝓛.Relies g ss ∧ 𝓛.R (𝓛.after g ss) c'.mem ∧ ∀ u ≠ t, (c'.thr u).All okAct okLock := by
  induction h with
  | refl => exact ⟨trivial, hg, hothers⟩
  | @own ss c₁ c' _ hs ih =>
    obtain ⟨hrel, hR, hall⟩ := ih
    have hall' : ∀ u ≠ t, (c'.thr u).All okAct okLock := fun u hu =>
      (Prog.All.step_thread (hall u hu) hs).1
    obtain ⟨x, hss, -⟩ | ⟨hss, -, hmem⟩ := ownStep_cases hs
    · rw [hss]
      refine ⟨⟨hrel, ?_⟩, hst.own _ _ _ _ hR (hA _ _), hall'⟩
      rintro m x' m' heq
      cases heq
      exact hR
    · have hwakes : ∀ xs : List (Own C E σ), (∀ s ∈ xs, ∃ v, s = .wake v) →
          𝓛.Relies g (xs ++ ss) ∧ 𝓛.R (𝓛.after g (xs ++ ss)) c₁.mem := by
        intro xs hxs
        induction xs with
        | nil => exact ⟨hrel, hR⟩
        | cons x xs ihx =>
          obtain ⟨hrel', hR'⟩ := ihx fun s hs => hxs s (List.mem_cons_of_mem _ hs)
          obtain ⟨v, rfl⟩ := hxs x List.mem_cons_self
          exact ⟨⟨hrel', nofun⟩, hst.wakes _ _ v hR'⟩
      obtain ⟨hrel', hR'⟩ := hwakes _ hss
      exact ⟨hrel', hmem ▸ hR', hall'⟩
  | @other ss c₁ c' ch _ hch hs ih =>
    obtain ⟨hrel, hR, hall⟩ := ih
    refine ⟨hrel, ?_, fun u hu => (Prog.All.step_thread (hall u hu) hs).1⟩
    cases ch with
    | wake u r =>
      simp only [step] at hs
      split at hs
      · cases hs
        exact hR
      · cases hs
    | run u =>
      have hu : u ≠ t := fun h => hch (congrArg Choice.run h)
      obtain ⟨hmem, -⟩ | ⟨e, f, hok, hmem, -⟩ := (Prog.All.step_thread (hall u hu) hs).2 rfl
      · rwa [hmem]
      · rw [hmem]
        exact hst.others _ _ e f hok hR

/-- what a thread reads off its own entries of a history, newest first -/
def ownFold {A : Type} (next : A → E → A) (a : A) (t : T) : List (T × E) → A
  | [] => a
  | (u, e) :: tr => if u = t then next (ownFold next a t tr) e else ownFold next a t tr

theorem ownFold_push_self {A : Type} {next : A → E → A} {a : A} (t : T) (x : Option E)
    (tr : List (T × E)) : ownFold next a t (World.push t x tr) = match x with
      | some e => next (ownFold next a t tr) e
      | none => ownFold next a t tr := by
  cases x with
  | none => rfl
  | some e => exact if_pos rfl

/-- the ghost is what the thread reads off its own entries -/
def labelled {A : Type} (next : A → E → A) (R : σ → Prop) (G : A → σ → Option E → σ → Prop) :
    Local C E σ where
  G := A
  R _ m := R m
  A
    | a, .act m x m' => G a m x m'
    | _, .wake _ => True
  next a s := match s.label with
    | some e => next a e
    | none => a

theorem labelled_wakes {A : Type} (next : A → E → A) (R : σ → Prop) (G : A → σ → Option E → σ → Prop)
    (a : A) {ss : List (Own C E σ)} (h : ∀ s ∈ ss, ∃ v, s = .wake v) (xs : List (Own C E σ)) :
    (labelled next R G).after a (ss ++ xs) = (labelled next R G).after a xs ∧
      ((labelled next R G).Relies a xs → (labelled next R G).Relies a (ss ++ xs)) := by
  induction ss with
  | nil => exact ⟨rfl, id⟩
  | cons s ss ih =>
    obtain ⟨hafter, hrel⟩ := ih fun s' hs' => h s' (List.mem_cons_of_mem _ hs')
    obtain ⟨v, rfl⟩ := h s List.mem_cons_self
    exact ⟨hafter, fun hx => ⟨hrel hx, nofun⟩⟩

/-- what every thread keeps and reads off its own entries, in every run: `R` holds, and a step with an
access gives what the thread promises for what it has read -/
theorem Reach.labelled {A : Type} {next : A → E → A} {R : σ → Prop} {G : A → σ → Option E → σ → Prop}
    {a : A} {c₀ c : Config T L C E σ} (hr : Reach c₀ c) (htr : c₀.trace = []) (hR : R c₀.mem)
    (hG : ∀ a m x m', R m → G a m x m' → R m')
    (hp : ∀ t, along (Threads.labelled next R G) (c₀.thr t) (fun _ _ => True) a) :
    R c.mem ∧ ∀ t, ∃ ss, Follows t c₀ ss c ∧ (Threads.labelled (C := C) next R G).Relies a ss ∧
      (Threads.labelled (C := C) next R G).after a ss = ownFold next a t c.trace := by
  induction hr with
  | refl =>
    refine ⟨hR, fun t => ⟨[], .refl, trivial, ?_⟩⟩
    rw [htr]
    rfl
  | @step c₁ c' ch hr hs ih =>
    obtain ⟨hR₁, hall⟩ := ih
    -- the thread that is run
    have hown : ∀ t, ch = .run t → R c'.mem ∧ ∃ ss, Follows t c₀ ss c' ∧
        (Threads.labelled (C := C) next R G).Relies a ss ∧
        (Threads.labelled (C := C) next R G).after a ss = ownFold next a t c'.trace := by
      rintro t rfl
      obtain ⟨ss, hf, hrel, hafter⟩ := hall t
      obtain ⟨x, hss, htr'⟩ | ⟨hss, htr', hmem⟩ := ownStep_cases hs
      · have hrel' : (Threads.labelled (C := C) next R G).Relies a (ownStep c₁ t ++ ss) := by
          rw [hss]
          refine ⟨hrel, ?_⟩
          rintro m x' m' heq
          cases heq
          exact hR₁
        have hgives := (hf.own hs).gives (hp t) hrel'
        rw [hss] at hgives
        refine ⟨hG _ _ _ _ hR₁ hgives.2, _, hf.own hs, hrel', ?_⟩
        rw [hss, htr', ownFold_push_self]
        cases x with
        | none => exact hafter
        | some e => exact congrArg (next · e) hafter
      · obtain ⟨hwakes, hrel'⟩ := labelled_wakes next R G a hss ss
        refine ⟨hmem ▸ hR₁, _, hf.own hs, hrel' hrel, ?_⟩
        rw [hwakes, htr']
        exact hafter
    have hothers : ∀ t, ch ≠ .run t → ∃ ss, Follows t c₀ ss c' ∧
        (Threads.labelled (C := C) next R G).Relies a ss ∧
        (Threads.labelled (C := C) next R G).after a ss = ownFold next a t c'.trace := by
      intro t hch
      obtain ⟨ss, hf, hrel, hafter⟩ := hall t
      refine ⟨ss, hf.other hch hs, hrel, ?_⟩
      obtain htr' | ⟨u, e, hu, htr'⟩ := step_other_trace hs hch
      · rw [htr', hafter]
      · rw [htr', hafter]
        exact (if_neg hu).symm
    have hmem : R c'.mem := by
      cases ch with
      | run t => exact (hown t rfl).1
      | wake t r =>
        simp only [Threads.step] at hs
        split at hs
        · cases hs
          exact hR₁
        · cases hs
    refine ⟨hmem, fun t => ?_⟩
    by_cases hch : ch = .run t
    · exact (hown t hch).2
    · exact hothers t hch

section
variable {A : Type} {next : A → E → A} {R : σ → Prop} {G : A → σ → Option E → σ → Prop} {a : A}
  {c₀ c : Config T L C E σ}

/-- a step of a run: nothing for the history, or an access that gives what the thread promises -/
theorem Reach.labelled_step (hr : Reach c₀ c) (htr : c₀.trace = []) (hR : R c₀.mem)
    (hG : ∀ a m x m', R m → G a m x m' → R m')
    (hp : ∀ t, along (Threads.labelled next R G) (c₀.thr t) (fun _ _ => True) a) {ch : Choice T}
    {c' : Config T L C E σ} (hs : Threads.step c ch = some c') : (c'.trace = c.trace ∧ c'.mem = c.mem) ∨
      ∃ t x, ch = .run t ∧ c'.trace = World.push t x c.trace ∧
        G (ownFold next a t c.trace) c.mem x c'.mem := by
  cases ch with
  | wake t r =>
    simp only [Threads.step] at hs
    split at hs
    · cases hs
      exact .inl ⟨rfl, rfl⟩
    · cases hs
  | run t =>
    obtain ⟨x, hss, htr'⟩ | ⟨-, htr', hmem⟩ := ownStep_cases hs
    · obtain ⟨hR₁, hall⟩ := hr.labelled htr hR hG hp
      obtain ⟨ss, hf, hrel, hafter⟩ := hall t
      have hrel' : (Threads.labelled (C := C) next R G).Relies a (ownStep c t ++ ss) := by
        rw [hss]
        refine ⟨hrel, ?_⟩
        rintro m x' m' heq
        cases heq
        exact hR₁
      have hgives := (hf.own hs).gives (hp t) hrel'
      rw [hss] at hgives
      have hlast : G ((Threads.labelled (C := C) next R G).after a ss) c.mem x c'.mem := hgives.2
      rw [hafter] at hlast
      exact .inr ⟨t, x, rfl, htr', hlast⟩
    · exact .inl ⟨htr', hmem⟩

/-- an invariant of the history and the memory, by what the threads promise -/
theorem Reach.labelled_inv {I : List (T × E) → σ → Prop} (hr : Reach c₀ c) (htr : c₀.trace = [])
    (hR : R c₀.mem) (hG : ∀ a m x m', R m → G a m x m' → R m')
    (hp : ∀ t, along (Threads.labelled next R G) (c₀.thr t) (fun _ _ => True) a) (hI : I [] c₀.mem)
    (hstep : ∀ t x tr m m', I tr m → R m → G (ownFold next a t tr) m x m' → I (World.push t x tr) m') :
    I c.trace c.mem := by
  induction hr with
  | refl => rwa [htr]
  | @step c₁ c' ch hr hs ih =>
    obtain ⟨htr', hmem⟩ | ⟨t, x, -, htr', hgives⟩ := hr.labelled_step htr hR hG hp hs
    · rwa [htr', hmem]
    · rw [htr']
      exact hstep t x _ _ _ ih (hr.labelled htr hR hG hp).1 hgives

end

/-- the first own step of a thread that starts with an access -/
theorem Follows.first {t : T} {c c' : Config T L C E σ} {ss : List (Own C E σ)} {e : σ → Option E}
    {f : σ → β × σ} {k : β → Prog L C E σ Unit} (h : Follows t c ss c') (hc : c.thr t = .act e f k) :
    ss = [] ∧ c'.thr t = .act e f k ∨ ∃ m ss', ss = ss' ++ [.act m (e m) (f m).2] := by
  induction h with
  | refl => exact .inl ⟨rfl, hc⟩
  | @own ss c₁ c' _ hs ih =>
    obtain ⟨rfl, hc₁⟩ | ⟨m, ss', rfl⟩ := ih
    · right
      refine ⟨c₁.mem, [], ?_⟩
      rw [ownStep, hc₁]
      rfl
    · exact .inr ⟨m, ownStep c₁ t ++ ss', (List.append_assoc ..).symm⟩
  | @other ss c₁ c' ch _ hch hs ih =>
    obtain ⟨rfl, hc₁⟩ | ⟨m, ss', rfl⟩ := ih
    · left
      refine ⟨rfl, ?_⟩
      obtain h | ⟨v, l, r, k', hk, -⟩ := Local.step_other hs hch
      · exact h.trans hc₁
      · cases hc₁.symm.trans hk
    · exact .inr ⟨m, ss', rfl⟩

/-- the own steps of `t` when only `t` runs, newest first -/
def ownSteps (t : T) : Nat → Config T L C E σ → List (Own C E σ)
  | 0, _ => []
  | n + 1, c => match step c (.run t) with
    | none => []
    | some c' => ownSteps t n c' ++ ownStep c t

theorem Follows.prepend {t : T} {c c₁ c' : Config T L C E σ} {ss : List (Own C E σ)}
    (h : Follows t c₁ ss c') (hs : step c (.run t) = some c₁) : Follows t c (ss ++ ownStep c t) c' := by
  induction h with
  | refl => exact List.append_nil (ownStep c t) ▸ Follows.refl.own hs
  | own _ hs' ih => exact List.append_assoc .. ▸ ih.own hs'
  | other _ hch hs' ih => exact ih.other hch hs'

theorem exec_follows {t : T} {n : Nat} {c c' : Config T L C E σ}
    (he : exec c (List.replicate n (.run t)) = some c') : Follows t c (ownSteps t n c) c' := by
  induction n generalizing c with
  | zero =>
    cases he
    exact .refl
  | succ n ih =>
    obtain ⟨c₁, h₁, h₂⟩ := Option.bind_eq_some_iff.mp he
    rw [ownSteps, h₁]
    exact (ih h₂).prepend h₁

theorem lastMem_append (m : σ) (xs ss : List (Own C E σ)) :
    lastMem m (xs ++ ss) = lastMem (lastMem m ss) xs := by
  induction xs with
  | nil => rfl
  | cons x xs ih =>
    cases x with
    | act m₁ e m₂ => rfl
    | wake c => exact ih

/-- what a thread that runs alone leaves is what it has left last -/
theorem lastMem_ownSteps {t : T} {n : Nat} {c c' : Config T L C E σ}
    (he : exec c (List.replicate n (.run t)) = some c') : lastMem c.mem (ownSteps t n c) = c'.mem := by
  induction n generalizing c with
  | zero =>
    cases he
    rfl
  | succ n ih =>
    obtain ⟨c₁, h₁, h₂⟩ := Option.bind_eq_some_iff.mp he
    rw [ownSteps, h₁]
    show lastMem c.mem (ownSteps t n c₁ ++ ownStep c t) = c'.mem
    have hfirst : lastMem c.mem (ownStep c t) = c₁.mem := by
      obtain ⟨x, hss, -⟩ | ⟨hss, -, hmem⟩ := ownStep_cases h₁
      · rw [hss]
        rfl
      · rw [hmem]
        have hwakes : ∀ xs : List (Own C E σ), (∀ s ∈ xs, ∃ v, s = .wake v) → lastMem c.mem xs = c.mem := by
          intro xs hxs
          induction xs with
          | nil => rfl
          | cons x xs ihx =>
            obtain ⟨v, rfl⟩ := hxs x List.mem_cons_self
            exact ihx fun s hs => hxs s (List.mem_cons_of_mem _ hs)
        exact hwakes _ hss
    rw [lastMem_append, hfirst]
    exact ih h₂

/-- another thread steps first -/
theorem Follows.await {t : T} {ch : Choice T} {c c₁ c' : Config T L C E σ} {ss : List (Own C E σ)}
    (h : Follows t c₁ ss c') (hch : ch ≠ .run t) (hs : step c ch = some c₁) : Follows t c ss c' := by
  induction h with
  | refl => exact Follows.refl.other hch hs
  | own _ hs' ih => exact ih.own hs'
  | other _ hne hs' ih => exact ih.other hne hs'

theorem Follows.after_others {t : T} {chs : List (Choice T)} {c c₁ c' : Config T L C E σ}
    {ss : List (Own C E σ)} (h : Follows t c₁ ss c') (hch : ∀ ch ∈ chs, ch ≠ .run t)
    (he : exec c chs = some c₁) : Follows t c ss c' := by
  induction chs generalizing c with
  | nil =>
    cases he
    exact h
  | cons ch chs ih =>
    obtain ⟨c₂, h₁, h₂⟩ := Option.bind_eq_some_iff.mp he
    exact (ih (fun x hx => hch x (List.mem_cons_of_mem _ hx)) h₂).await (hch _ List.mem_cons_self) h₁

end

end Threads
