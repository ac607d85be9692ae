import RaspikeArt.Threads.Logic

/-!
# Threads, part 6: a thread that runs alone to its end

`Ends p w a w'`: the program `p`, with no other thread at work, ends in `w'` with the result `a`
when it starts in `w`.  A program that waits on a condition variable does not end by itself.

* `Finishes p w Q`            it ends, as `Q` says; one rule per instruction, `finish_loop` with a
                           measure;
* `Runs A O p O'`          it ends from every world with the mutex owners `O`;
* `Leaves A O p O'`        how it leaves the world when it ends, whether or not it always does;
* `Ends.exec`              such a run is a run of the scheduler.
-/

set_option linter.unusedSectionVars false

namespace Threads

variable {L C E σ : Type} {α β γ S : Type}

theorem Prog.bind_assoc (p : Prog L C E σ α) (q : α → Prog L C E σ β) (r : β → Prog L C E σ γ) :
    (p.bind q).bind r = p.bind fun a => (q a).bind r := by
  induction p with
  | ret a => rfl
  | act e f k ih =>
    show Prog.act e f _ = Prog.act e f _
    congr 1
    funext b
    exact ih b q
  | lock l k ih => exact congrArg (Prog.lock l) (ih q)
  | unlock l k ih => exact congrArg (Prog.unlock l) (ih q)
  | wait c l k ih =>
    show Prog.wait c l _ = Prog.wait c l _
    congr 1
    funext x
    exact ih x q
  | blocked c l k ih =>
    show Prog.blocked c l _ = Prog.blocked c l _
    congr 1
    funext x
    exact ih x q
  | woken l x k ih =>
    show Prog.woken l x _ = Prog.woken l x _
    congr 1
    funext x
    exact ih x q
  | broadcast c k ih => exact congrArg (Prog.broadcast c) (ih q)
  | loop s body k ihb ihk =>
    show Prog.loop s body _ = Prog.loop s body _
    congr 1
    funext b
    exact ihk b q

theorem Prog.bind_ret (p : Prog L C E σ α) : p.bind .ret = p := by
  induction p with
  | ret a => rfl
  | act e f k ih => exact congrArg (Prog.act e f) (funext ih)
  | lock l k ih => exact congrArg (Prog.lock l) ih
  | unlock l k ih => exact congrArg (Prog.unlock l) ih
  | wait c l k ih => exact congrArg (Prog.wait c l) (funext ih)
  | blocked c l k ih => exact congrArg (Prog.blocked c l) (funext ih)
  | woken l x k ih => exact congrArg (Prog.woken l x) (funext ih)
  | broadcast c k ih => exact congrArg (Prog.broadcast c) ih
  | loop s body k ihb ihk => exact congrArg (Prog.loop s body) (funext ihk)

theorem Prog.turn_bind (body : S → Prog L C E σ (S ⊕ β)) (k : β → Prog L C E σ α)
    (q : α → Prog L C E σ γ) (s : S) :
    (Prog.turn body k s).bind q = Prog.turn body (fun b => (k b).bind q) s := by
  rw [Prog.turn, Prog.bind_assoc, Prog.turn]
  congr 1
  funext r
  cases r <;> rfl

/-- a program in two parts, cut behind its first call -/
theorem bind_split {p : Prog L C E σ α} {q : α → Prog L C E σ γ} {q' : α → Prog L C E σ β}
    {r : β → Prog L C E σ γ} (h : ∀ a, q a = q' a >>= r) : (p >>= q) = (p >>= q') >>= r := by
  show p.bind q = (p.bind q').bind r
  rw [Prog.bind_assoc]
  congr 1
  funext a
  exact h a

variable [DecidableEq L]

inductive Ends : {α : Type} → Prog L C E σ α → World Unit L E σ → α → World Unit L E σ → Prop
  | ret {α : Type} {a : α} {w : World Unit L E σ} : Ends (.ret a) w a w
  | act {α β : Type} {e : σ → Option E} {f : σ → β × σ} {k : β → Prog L C E σ α}
      {w w' : World Unit L E σ} {a : α} (h : Ends (k (f w.mem).1) (w.act () e f) a w') :
      Ends (.act e f k) w a w'
  | lock {α : Type} {l : L} {k : Prog L C E σ α} {w w' : World Unit L E σ} {a : α}
      (hl : w.own l = none) (h : Ends k (w.acquire () l) a w') : Ends (.lock l k) w a w'
  | unlock {α : Type} {l : L} {k : Prog L C E σ α} {w w' : World Unit L E σ} {a : α}
      (h : Ends k (w.release l) a w') : Ends (.unlock l k) w a w'
  | broadcast {α : Type} {c : C} {k : Prog L C E σ α} {w w' : World Unit L E σ} {a : α}
      (h : Ends k w a w') : Ends (.broadcast c k) w a w'
  | loop {α β S : Type} {s : S} {body : S → Prog L C E σ (S ⊕ β)} {k : β → Prog L C E σ α}
      {w w' : World Unit L E σ} {a : α} (h : Ends (Prog.turn body k s) w a w') :
      Ends (.loop s body k) w a w'

theorem Ends.bind {p : Prog L C E σ α} {q : α → Prog L C E σ β} {w w₁ w₂ : World Unit L E σ} {a : α}
    {b : β} (hp : Ends p w a w₁) (hq : Ends (q a) w₁ b w₂) : Ends (p.bind q) w b w₂ := by
  induction hp with
  | ret => exact hq
  | act _ ih => exact .act (ih hq)
  | lock hl _ ih => exact .lock hl (ih hq)
  | unlock _ ih => exact .unlock (ih hq)
  | broadcast _ ih => exact .broadcast (ih hq)
  | loop _ ih =>
    apply Ends.loop
    rw [← Prog.turn_bind]
    exact ih hq

/-- there is one way to end -/
theorem Ends.unique {p : Prog L C E σ α} {w w₁ w₂ : World Unit L E σ} {a b : α} (h : Ends p w a w₁)
    (h' : Ends p w b w₂) : a = b ∧ w₁ = w₂ := by
  induction h with
  | ret =>
    cases h'
    exact ⟨rfl, rfl⟩
  | act _ ih =>
    cases h' with
    | act h' => exact ih h'
  | lock _ _ ih =>
    cases h' with
    | lock _ h' => exact ih h'
  | unlock _ ih =>
    cases h' with
    | unlock h' => exact ih h'
  | broadcast _ ih =>
    cases h' with
    | broadcast h' => exact ih h'
  | loop _ ih =>
    cases h' with
    | loop h' => exact ih h'

/-! ## programs that end -/

def Finishes (p : Prog L C E σ α) (w : World Unit L E σ) (Q : α → World Unit L E σ → Prop) : Prop :=
  ∃ a w', Ends p w a w' ∧ Q a w'

section
variable {w : World Unit L E σ}

theorem finish_mono {p : Prog L C E σ α} {Q Q' : α → World Unit L E σ → Prop}
    (h : Finishes p w Q) (hQ : ∀ a w', Q a w' → Q' a w') : Finishes p w Q' := by
  obtain ⟨a, w', he, hq⟩ := h
  exact ⟨a, w', he, hQ a w' hq⟩

theorem Finishes.ends {p : Prog L C E σ α} {Q : α → World Unit L E σ → Prop} (h : Finishes p w Q) {a : α}
    {w' : World Unit L E σ} (he : Ends p w a w') : Q a w' := by
  obtain ⟨b, w₁, hb, hQ⟩ := h
  obtain ⟨rfl, rfl⟩ := he.unique hb
  exact hQ

theorem finish_bind {p : Prog L C E σ α} {q : α → Prog L C E σ β} {Q : β → World Unit L E σ → Prop}
    (h : Finishes p w fun a w' => Finishes (q a) w' Q) : Finishes (p >>= q) w Q := by
  obtain ⟨a, w₁, hp, b, w₂, hq, hQ⟩ := h
  exact ⟨b, w₂, hp.bind hq, hQ⟩

/-- the rule of the intermediate assertion -/
theorem finish_seq {p : Prog L C E σ α} {q : α → Prog L C E σ β} {Q : β → World Unit L E σ → Prop}
    {R : α → World Unit L E σ → Prop} (hp : Finishes p w R)
    (hq : ∀ a w', R a w' → Finishes (q a) w' Q) : Finishes (p >>= q) w Q :=
  finish_bind (finish_mono hp hq)

theorem finish_pure {a : α} {Q : α → World Unit L E σ → Prop} (h : Q a w) :
    Finishes (pure a : Prog L C E σ α) w Q := ⟨a, w, .ret, h⟩

theorem finish_act {e : σ → Option E} {f : σ → β × σ} {Q : β → World Unit L E σ → Prop}
    (h : Q (f w.mem).1 (w.act () e f)) : Finishes (.act e f .ret : Prog L C E σ β) w Q :=
  ⟨_, _, .act .ret, h⟩

/-- an access of which the effect in the world at hand is known -/
theorem finish_eval {e : σ → Option E} {f : σ → β × σ} {Q : β → World Unit L E σ → Prop}
    {x : Option E} {b : β} {m : σ} (he : e w.mem = x) (hf : f w.mem = (b, m))
    (h : Q b { w with mem := m, trace := World.push () x w.trace }) :
    Finishes (.act e f .ret : Prog L C E σ β) w Q := by
  apply finish_act
  unfold World.act
  rwa [he, hf]

theorem finish_load {f : σ → β} {Q : β → World Unit L E σ → Prop} (h : Q (f w.mem) w) :
    Finishes (load f : Prog L C E σ β) w Q := ⟨_, _, .act .ret, h⟩

theorem finish_tick {e : E} {Q : Unit → World Unit L E σ → Prop}
    (h : Q () { w with trace := ((), e) :: w.trace }) : Finishes (tick e : Prog L C E σ Unit) w Q :=
  ⟨_, _, .act .ret, h⟩

theorem finish_modify {f : σ → σ} {Q : Unit → World Unit L E σ → Prop}
    (h : Q () { w with mem := f w.mem }) : Finishes (modify f : Prog L C E σ Unit) w Q :=
  ⟨_, _, .act .ret, h⟩

theorem finish_lock {l : L} {Q : Unit → World Unit L E σ → Prop} (hl : w.own l = none)
    (h : Q () (w.acquire () l)) : Finishes (lock l : Prog L C E σ Unit) w Q := ⟨_, _, .lock hl .ret, h⟩

theorem finish_unlock {l : L} {Q : Unit → World Unit L E σ → Prop} (h : Q () (w.release l)) :
    Finishes (unlock l : Prog L C E σ Unit) w Q := ⟨_, _, .unlock .ret, h⟩

theorem finish_broadcast {c : C} {Q : Unit → World Unit L E σ → Prop} (h : Q () w) :
    Finishes (broadcast c : Prog L C E σ Unit) w Q := ⟨_, _, .broadcast .ret, h⟩

/-- at the end of a section under a mutex the owners are as they were before it -/
theorem release_acquired {w w' : World Unit L E σ} {l : L} (hl : w.own l = none)
    (h : w'.own = (w.acquire () l).own) : (w'.release l).own = w.own := by
  show Function.update w'.own l none = w.own
  rw [h]
  show Function.update (Function.update w.own l (some ())) l none = w.own
  rw [Function.update_idem, ← hl, Function.update_eq_self]

theorem finish_loop {s : S} {body : S → Prog L C E σ (S ⊕ β)} {Q : β → World Unit L E σ → Prop}
    (J : S → World Unit L E σ → Prop) (μ : S → World Unit L E σ → Nat) (hJ : J s w)
    (h : ∀ s w, J s w → Finishes (body s) w fun r w' => match r with
      | .inl s' => J s' w' ∧ μ s' w' < μ s w
      | .inr b => Q b w') : Finishes (loopFrom s body) w Q := by
  induction hn : μ s w using Nat.strongRecOn generalizing s w with
  | _ n ih =>
    obtain ⟨r, w₁, hbody, hr⟩ := h s w hJ
    cases r with
    | inr b =>
      refine ⟨b, w₁, .loop ?_, hr⟩
      exact hbody.bind .ret
    | inl s' =>
      obtain ⟨b, w₂, hloop, hQ⟩ := ih _ (hn ▸ hr.2) hr.1 rfl
      refine ⟨b, w₂, .loop ?_, hQ⟩
      exact hbody.bind hloop

theorem finish_orElse {x y : Prog L C E σ Bool} {Q : Bool → World Unit L E σ → Prop}
    (h : Finishes x w fun b w' => if b then Q true w' else Finishes y w' Q) :
    Finishes (orElse x y) w Q := by
  apply finish_bind
  apply finish_mono h
  intro b w' hb
  cases b with
  | true => exact finish_pure hb
  | false => exact hb

end

theorem Ends.yields {p : Prog L C E σ α} {w w' : World Unit L E σ} {a : α} (h : Ends p w a w') :
    ∀ {R : α → Prop}, p.Yields R → R a := by
  induction h with
  | ret => exact fun hy => hy
  | act _ ih => exact fun hy => ih (hy _)
  | lock _ _ ih => exact fun hy => ih hy
  | unlock _ ih => exact fun hy => ih hy
  | broadcast _ ih => exact fun hy => ih hy
  | @loop _ _ s body _ _ _ _ _ ih =>
    rintro R ⟨J, hJ, hbody⟩
    apply ih
    refine Prog.Yields.bind (hbody s hJ) fun r hr => ?_
    cases r with
    | inl s' => exact ⟨J, hr, hbody⟩
    | inr b => exact hr

theorem finish_yields {p : Prog L C E σ α} {w : World Unit L E σ} {Q : α → World Unit L E σ → Prop}
    {R : α → Prop} (h : Finishes p w Q) (hy : p.Yields R) : Finishes p w fun a w' => Q a w' ∧ R a := by
  obtain ⟨a, w', he, hq⟩ := h
  exact ⟨a, w', he, hq, he.yields hy⟩

/-! ## programs that end from everywhere -/

/-- from `w` to `w'` with accesses of the kind `A`: old memory, label, new memory -/
inductive Path (A : σ → Option E → σ → Prop) (w : World Unit L E σ) : World Unit L E σ → Prop
  | refl : Path A w w
  | own {w' : World Unit L E σ} (h : Path A w w') (own : L → Option Unit) :
      Path A w { w' with own := own }
  | act {w' : World Unit L E σ} {x : Option E} {m : σ} (h : Path A w w') (hA : A w'.mem x m) :
      Path A w { w' with mem := m, trace := World.push () x w'.trace }

theorem Path.trans {A : σ → Option E → σ → Prop} {w w₁ w₂ : World Unit L E σ} (h : Path A w w₁)
    (h' : Path A w₁ w₂) : Path A w w₂ := by
  induction h' with
  | refl => exact h
  | own _ own ih => exact ih.own own
  | act _ hA ih => exact ih.act hA

theorem Path.mono {A A' : σ → Option E → σ → Prop} {w w' : World Unit L E σ}
    (hA : ∀ m x m', A m x m' → A' m x m') (h : Path A w w') : Path A' w w' := by
  induction h with
  | refl => exact .refl
  | own _ own ih => exact ih.own own
  | act _ h ih => exact ih.act (hA _ _ _ h)

/-- a run of a program goes through accesses that the program may make -/
theorem Prog.All.path {okAct : (σ → Option E) → (σ → σ) → Prop} {okLock : L → Prop}
    {p : Prog L C E σ α} (hp : p.All okAct okLock) {w w' : World Unit L E σ} {a : α}
    (h : Ends p w a w') :
    Path (fun m x m' => ∃ e f, okAct e f ∧ x = e m ∧ m' = f m) w w' := by
  induction h with
  | ret => exact .refl
  | act _ ih =>
    refine Path.trans ?_ (ih (hp.2 _))
    exact Path.refl.act ⟨_, _, hp.1, rfl, rfl⟩
  | lock _ _ ih => exact Path.trans (Path.refl.own _) (ih hp.2)
  | unlock _ ih => exact Path.trans (Path.refl.own _) (ih hp.2)
  | broadcast _ ih => exact ih hp
  | loop _ ih =>
    refine ih (Prog.All.bind (hp.1 _) fun r => ?_)
    cases r with
    | inl s' => exact hp
    | inr b => exact hp.2 b

/-- started with the mutex owners `O`, the program ends and leaves the owners `O'`; its accesses
are of the kind `A` -/
def Runs (A : σ → Option E → σ → Prop) (O : L → Option Unit) (p : Prog L C E σ α)
    (O' : L → Option Unit) : Prop :=
  ∀ w : World Unit L E σ, w.own = O → Finishes p w fun _ w' => w'.own = O' ∧ Path A w w'

namespace Runs

variable {A : σ → Option E → σ → Prop} {O M O' : L → Option Unit}

theorem bind {p : Prog L C E σ α} {q : α → Prog L C E σ β} (hp : Runs A O p M)
    (hq : ∀ a, Runs A M (q a) O') : Runs A O (p >>= q) O' := by
  intro w hw
  apply finish_seq (hp w hw)
  rintro a w₁ ⟨hO, hpath⟩
  apply finish_mono (hq a w₁ hO)
  rintro b w₂ ⟨hO', hpath'⟩
  exact ⟨hO', hpath.trans hpath'⟩

theorem pure (a : α) : Runs A O (Pure.pure a : Prog L C E σ α) O :=
  fun _ hw => finish_pure ⟨hw, .refl⟩

theorem act {e : σ → Option E} {f : σ → β × σ} (h : ∀ m, A m (e m) (f m).2) :
    Runs A O (.act e f .ret : Prog L C E σ β) O :=
  fun w hw => finish_act ⟨hw, Path.refl.act (h w.mem)⟩

theorem load {f : σ → β} (h : ∀ m, A m none m) : Runs A O (load f : Prog L C E σ β) O := act h

theorem lock {l : L} (hl : O l = none) :
    Runs A O (lock l : Prog L C E σ Unit) (Function.update O l (some ())) := by
  intro w hw
  apply finish_lock (by rw [hw, hl])
  exact ⟨by rw [World.acquire, hw], Path.refl.own _⟩

theorem unlock {l : L} : Runs A O (unlock l : Prog L C E σ Unit) (Function.update O l none) := by
  intro w hw
  apply finish_unlock
  exact ⟨by rw [World.release, hw], Path.refl.own _⟩

theorem broadcast {c : C} : Runs A O (broadcast c : Prog L C E σ Unit) O :=
  fun _ hw => finish_broadcast ⟨hw, .refl⟩

theorem orElse {x y : Prog L C E σ Bool} (hx : Runs A O x O) (hy : Runs A O y O) :
    Runs A O (orElse x y) O := by
  apply hx.bind
  intro b
  cases b with
  | true => exact pure true
  | false => exact hy

theorem forEach {ι : Type} {is : List ι} {body : ι → Prog L C E σ Unit}
    (h : ∀ i, Runs A O (body i) O) : Runs A O (forEach is body) O := by
  induction is with
  | nil => exact pure ()
  | cons i is ih => exact (h i).bind fun _ => ih

/-- a section under a mutex gives it back -/
theorem unlock_locked {l : L} (hl : O l = none) :
    Runs A (Function.update O l (some ())) (Threads.unlock l : Prog L C E σ Unit) O := by
  have h := unlock (A := A) (C := C) (l := l) (O := Function.update O l (some ()))
  rwa [Function.update_idem, ← hl, Function.update_eq_self] at h

end Runs

/-! ## programs that may not end -/

theorem Ends.of_bind {r : Prog L C E σ β} {w w₂ : World Unit L E σ} {b : β} (h : Ends r w b w₂) :
    ∀ {α : Type} {p : Prog L C E σ α} {q : α → Prog L C E σ β}, r = p.bind q →
      ∃ a w₁, Ends p w a w₁ ∧ Ends (q a) w₁ b w₂ := by
  induction h with
  | ret =>
    intro α p q hr
    cases p with
    | ret a => exact ⟨a, _, .ret, (show _ = q a from hr) ▸ .ret⟩
    | _ => cases hr
  | act h ih =>
    intro α p q hr
    cases p with
    | ret a => exact ⟨a, _, .ret, (show _ = q a from hr) ▸ .act h⟩
    | act e f k =>
      cases hr
      obtain ⟨a, w₁, hp, hq⟩ := ih rfl
      exact ⟨a, w₁, .act hp, hq⟩
    | _ => cases hr
  | lock hl h ih =>
    intro α p q hr
    cases p with
    | ret a => exact ⟨a, _, .ret, (show _ = q a from hr) ▸ .lock hl h⟩
    | lock l k =>
      cases hr
      obtain ⟨a, w₁, hp, hq⟩ := ih rfl
      exact ⟨a, w₁, .lock hl hp, hq⟩
    | _ => cases hr
  | unlock h ih =>
    intro α p q hr
    cases p with
    | ret a => exact ⟨a, _, .ret, (show _ = q a from hr) ▸ .unlock h⟩
    | unlock l k =>
      cases hr
      obtain ⟨a, w₁, hp, hq⟩ := ih rfl
      exact ⟨a, w₁, .unlock hp, hq⟩
    | _ => cases hr
  | broadcast h ih =>
    intro α p q hr
    cases p with
    | ret a => exact ⟨a, _, .ret, (show _ = q a from hr) ▸ .broadcast h⟩
    | broadcast c k =>
      cases hr
      obtain ⟨a, w₁, hp, hq⟩ := ih rfl
      exact ⟨a, w₁, .broadcast hp, hq⟩
    | _ => cases hr
  | loop h ih =>
    intro α p q hr
    cases p with
    | ret a => exact ⟨a, _, .ret, (show _ = q a from hr) ▸ .loop h⟩
    | loop s body k =>
      cases hr
      obtain ⟨a, w₁, hp, hq⟩ := ih (Prog.turn_bind ..).symm
      exact ⟨a, w₁, .loop hp, hq⟩
    | _ => cases hr

/-- a program that touches no mutex -/
theorem Ends.own_eq {okAct : (σ → Option E) → (σ → σ) → Prop} {p : Prog L C E σ α}
    {w w' : World Unit L E σ} {a : α} (h : Ends p w a w') (hp : p.All okAct fun _ => False) :
    w'.own = w.own := by
  induction h with
  | ret => rfl
  | act _ ih => exact ih (hp.2 _)
  | lock => exact hp.1.elim
  | unlock => exact hp.1.elim
  | broadcast _ ih => exact ih hp
  | loop _ ih =>
    apply ih
    apply Prog.All.bind (hp.1 _)
    intro r
    cases r with
    | inl s' => exact hp
    | inr b => exact hp.2 b

/-- if the program, started with the mutex owners `O`, ends, it leaves the owners `O'`; its accesses
are of the kind `A` -/
def Leaves (A : σ → Option E → σ → Prop) (O : L → Option Unit) (p : Prog L C E σ α)
    (O' : L → Option Unit) : Prop :=
  ∀ (w : World Unit L E σ) (a : α) (w' : World Unit L E σ), Ends p w a w' → w.own = O →
    w'.own = O' ∧ Path A w w'

namespace Leaves

variable {A : σ → Option E → σ → Prop} {O M O' : L → Option Unit}

theorem bind {p : Prog L C E σ α} {q : α → Prog L C E σ β} (hp : Leaves A O p M)
    (hq : ∀ a, Leaves A M (q a) O') : Leaves A O (p >>= q) O' := by
  intro w b w₂ h hO
  obtain ⟨a, w₁, h₁, h₂⟩ := Ends.of_bind h rfl
  obtain ⟨hM, hpath⟩ := hp w a w₁ h₁ hO
  obtain ⟨hO', hpath'⟩ := hq a w₁ b w₂ h₂ hM
  exact ⟨hO', hpath.trans hpath'⟩

theorem mono {A' : σ → Option E → σ → Prop} {p : Prog L C E σ α} (hp : Leaves A O p O')
    (hA : ∀ m x m', A m x m' → A' m x m') : Leaves A' O p O' := by
  intro w a w' h hO
  obtain ⟨hO', hpath⟩ := hp w a w' h hO
  exact ⟨hO', hpath.mono hA⟩

theorem pure (a : α) : Leaves A O (Pure.pure a : Prog L C E σ α) O := by
  intro w b w' h hO
  cases h
  exact ⟨hO, .refl⟩

/-- a program that touches no mutex -/
theorem of_all {okAct : (σ → Option E) → (σ → σ) → Prop} {p : Prog L C E σ α}
    (hA : ∀ e f, okAct e f → ∀ m, A m (e m) (f m)) (hp : p.All okAct fun _ => False) :
    Leaves A O p O := by
  intro w a w' h hO
  refine ⟨(h.own_eq hp).trans hO, ?_⟩
  apply (hp.path h).mono
  rintro m _ _ ⟨e, f, hok, rfl, rfl⟩
  exact hA e f hok m

theorem act {e : σ → Option E} {f : σ → β × σ} (h : ∀ m, A m (e m) (f m).2) :
    Leaves A O (.act e f .ret : Prog L C E σ β) O :=
  of_all (fun _ _ h => h)
    (show Prog.All (fun e f => ∀ m, A m (e m) (f m)) (fun _ => False) _ from ⟨h, fun _ => trivial⟩)

theorem lock {l : L} : Leaves A O (lock l : Prog L C E σ Unit) (Function.update O l (some ())) := by
  intro w a w' h hO
  cases h with
  | lock _ h =>
    cases h
    exact ⟨by rw [World.acquire, hO], Path.refl.own _⟩

/-- a section under a mutex gives it back -/
theorem unlock {l : L} (hl : O l = none) :
    Leaves A (Function.update O l (some ())) (unlock l : Prog L C E σ Unit) O := by
  intro w a w' h hO
  cases h with
  | unlock h =>
    cases h
    refine ⟨?_, Path.refl.own _⟩
    show Function.update w.own l none = O
    rw [hO, Function.update_idem, ← hl, Function.update_eq_self]

theorem forEach {ι : Type} {is : List ι} {body : ι → Prog L C E σ Unit}
    (h : ∀ i ∈ is, Leaves A O (body i) O) : Leaves A O (forEach is body) O := by
  induction is with
  | nil => exact pure ()
  | cons i is ih =>
    exact (h i List.mem_cons_self).bind fun _ => ih fun j hj => h j (List.mem_cons_of_mem _ hj)

end Leaves

/-! ## evaluation -/

/-- at most `n` steps of a program with no other thread at work -/
def evalAlone : Nat → {α : Type} → Prog L C E σ α → World Unit L E σ → Option (α × World Unit L E σ)
  | 0, _, _, _ => none
  | n + 1, _, p, w => match p with
    | .ret a => some (a, w)
    | .act e f k => evalAlone n (k (f w.mem).1) (w.act () e f)
    | .lock l k => if w.own l = none then evalAlone n k (w.acquire () l) else none
    | .unlock l k => evalAlone n k (w.release l)
    | .broadcast _ k => evalAlone n k w
    | .loop s body k => evalAlone n (Prog.turn body k s) w
    | .wait _ _ _ | .blocked _ _ _ | .woken _ _ _ => none

theorem evalAlone_ends {n : Nat} {p : Prog L C E σ α} {w w' : World Unit L E σ} {a : α}
    (h : evalAlone n p w = some (a, w')) : Ends p w a w' := by
  induction n generalizing α w with
  | zero => cases h
  | succ n ih =>
    cases p with
    | ret a =>
      cases h
      exact .ret
    | act e f k => exact .act (ih h)
    | lock l k =>
      by_cases hl : w.own l = none
      · have heval : evalAlone n k (w.acquire () l) = some (a, w') := by
          rw [evalAlone] at h
          exact (if_pos hl).symm.trans h
        exact .lock hl (ih heval)
      · rw [evalAlone] at h
        cases (if_neg hl).symm.trans h
    | unlock l k => exact .unlock (ih h)
    | broadcast c k => exact .broadcast (ih h)
    | loop s body k => exact .loop (ih h)
    | wait c l k | blocked c l k | woken l r k => cases h

/-! ## runs of the scheduler -/

section
variable [DecidableEq C]

theorem update_unit {G : Type 1} (f : Unit → G) (x : G) : Function.update f () x = fun _ => x := by
  funext u
  exact Function.update_self ..

/-- **Soundness**: the thread reaches the end of the program after some number of steps. -/
theorem Ends.exec {p : Prog L C E σ α} {w w' : World Unit L E σ} {a : α} (h : Ends p w a w')
    (q : α → Prog L C E σ Unit) :
    ∃ n, Threads.exec (⟨w, fun _ => p.bind q⟩ : Config Unit L C E σ)
      (List.replicate n (.run ())) = some ⟨w', fun _ => q a⟩ := by
  have hstep : ∀ {c c₁ c' : Config Unit L C E σ}, step c (.run ()) = some c₁ →
      (∃ n, Threads.exec c₁ (List.replicate n (.run ())) = some c') →
      ∃ n, Threads.exec c (List.replicate n (.run ())) = some c' := by
    rintro c c₁ c' hs ⟨n, hn⟩
    refine ⟨n + 1, ?_⟩
    show (step c (.run ())).bind _ = _
    rw [hs]
    exact hn
  induction h with
  | ret => exact ⟨0, rfl⟩
  | act _ ih =>
    refine hstep ?_ ih
    show some _ = _
    rw [update_unit]
  | lock hl _ ih =>
    refine hstep ?_ ih
    show (if _ then _ else _) = _
    rw [if_pos hl, update_unit]
  | unlock _ ih =>
    refine hstep ?_ ih
    show some _ = _
    rw [update_unit]
  | broadcast _ ih =>
    refine hstep ?_ ih
    show some _ = _
    rw [update_unit]
  | loop _ ih =>
    refine hstep ?_ ih
    show some _ = _
    rw [update_unit, Prog.turn_bind]

end

end Threads
