import RaspikeArt.Threads.Prog

/-!
# Threads, part 2: interleaved runs

A configuration is the shared memory, the owner of every mutex, the history (newest entry first,
each entry with the thread that made it) and the program each thread still has to run.

* `step`     the effect of one choice of the scheduler: `run t` executes the next instruction of
             `t`, `wake t r` ends the sleep of `t` with the code `r` (a timeout, an error, or a
             spurious wake-up with `0`);
* `exec`     a whole schedule;
* `Reach`    the configurations reachable from a start, and `exec_reach`;
* `Via`      those reachable by a run whose worlds satisfy a condition.
-/

set_option linter.unusedSectionVars false

namespace Threads

/-- what all threads see: memory, mutex owners, history -/
structure World (T L E σ : Type) where
  mem : σ
  own : L → Option T
  trace : List (T × E)

structure Config (T L C E σ : Type) extends World T L E σ where
  thr : T → Prog L C E σ Unit

inductive Choice (T : Type) where
  | run (t : T)
  | wake (t : T) (r : Int)
  deriving DecidableEq, Repr

variable {T L C E σ : Type} {α β S : Type}

namespace World

def push (t : T) (e : Option E) (tr : List (T × E)) : List (T × E) :=
  match e with
  | none => tr
  | some e => (t, e) :: tr

def act (w : World T L E σ) (t : T) (e : σ → Option E) (f : σ → β × σ) : World T L E σ :=
  { w with mem := (f w.mem).2, trace := push t (e w.mem) w.trace }

variable [DecidableEq L]

def acquire (w : World T L E σ) (t : T) (l : L) : World T L E σ :=
  { w with own := Function.update w.own l (some t) }

def release (w : World T L E σ) (l : L) : World T L E σ :=
  { w with own := Function.update w.own l none }

@[simp] theorem acquire_mem (w : World T L E σ) (t : T) (l : L) : (w.acquire t l).mem = w.mem := rfl
@[simp] theorem acquire_trace (w : World T L E σ) (t : T) (l : L) :
    (w.acquire t l).trace = w.trace := rfl
@[simp] theorem release_mem (w : World T L E σ) (l : L) : (w.release l).mem = w.mem := rfl
@[simp] theorem release_trace (w : World T L E σ) (l : L) : (w.release l).trace = w.trace := rfl
@[simp] theorem act_own (w : World T L E σ) (t : T) (e : σ → Option E) (f : σ → β × σ) :
    (w.act t e f).own = w.own := rfl
@[simp] theorem act_mem (w : World T L E σ) (t : T) (e : σ → Option E) (f : σ → β × σ) :
    (w.act t e f).mem = (f w.mem).2 := rfl
@[simp] theorem act_trace (w : World T L E σ) (t : T) (e : σ → Option E) (f : σ → β × σ) :
    (w.act t e f).trace = push t (e w.mem) w.trace := rfl
@[simp] theorem push_none (t : T) (tr : List (T × E)) : push t none tr = tr := rfl
@[simp] theorem push_some (t : T) (e : E) (tr : List (T × E)) :
    push t (some e) tr = (t, e) :: tr := rfl

theorem acquire_own (w : World T L E σ) (t : T) (l l' : L) :
    (w.acquire t l).own l' = if l' = l then some t else w.own l' := by
  simp [acquire, Function.update_apply]

theorem release_own (w : World T L E σ) (l l' : L) :
    (w.release l).own l' = if l' = l then none else w.own l' := by
  simp [release, Function.update_apply]

end World

section
variable [DecidableEq T] [DecidableEq L] [DecidableEq C]

/-- one choice of the scheduler; `none` when the chosen thread cannot make it -/
def step (c : Config T L C E σ) : Choice T → Option (Config T L C E σ)
  | .run t =>
    match c.thr t with
    | .ret _ => none
    | .act e f k => some ⟨c.act t e f, Function.update c.thr t (k (f c.mem).1)⟩
    | .lock l k =>
      if c.own l = none then some ⟨c.acquire t l, Function.update c.thr t k⟩ else none
    | .unlock l k => some ⟨c.release l, Function.update c.thr t k⟩
    | .wait v l k => some ⟨c.release l, Function.update c.thr t (.blocked v l k)⟩
    | .blocked _ _ _ => none
    | .woken l r k =>
      if c.own l = none then some ⟨c.acquire t l, Function.update c.thr t (k r)⟩ else none
    | .broadcast v k =>
      some ⟨c.toWorld, Function.update (fun u => (c.thr u).signal v) t k⟩
    | .loop s body k => some ⟨c.toWorld, Function.update c.thr t (Prog.turn body k s)⟩
  | .wake t r =>
    match c.thr t with
    | .blocked _ l k => some ⟨c.toWorld, Function.update c.thr t (.woken l r k)⟩
    | _ => none

def exec : Config T L C E σ → List (Choice T) → Option (Config T L C E σ)
  | c, [] => some c
  | c, ch :: chs => (step c ch).bind fun c' => exec c' chs

inductive Reach (c₀ : Config T L C E σ) : Config T L C E σ → Prop where
  | refl : Reach c₀ c₀
  | step {c c' : Config T L C E σ} {ch : Choice T} (h : Reach c₀ c) (hs : step c ch = some c') :
      Reach c₀ c'

/-- `c` is reached by a run of which every later world satisfies `K` -/
inductive Via (K : World T L E σ → Prop) (c₀ : Config T L C E σ) : Config T L C E σ → Prop where
  | refl : Via K c₀ c₀
  | step {c c' : Config T L C E σ} {ch : Choice T} (h : Via K c₀ c) (hs : step c ch = some c')
      (hK : K c'.toWorld) : Via K c₀ c'

theorem Via.reach {K : World T L E σ → Prop} {c₀ c : Config T L C E σ} (h : Via K c₀ c) :
    Reach c₀ c := by
  induction h with
  | refl => exact .refl
  | step _ hs _ ih => exact ih.step hs

theorem Via.mono {K K' : World T L E σ → Prop} (hK : ∀ w, K w → K' w) {c₀ c : Config T L C E σ}
    (h : Via K c₀ c) : Via K' c₀ c := by
  induction h with
  | refl => exact .refl
  | step _ hs h ih => exact ih.step hs (hK _ h)

theorem Reach.trans {c₀ c c' : Config T L C E σ} (h : Reach c₀ c) (h' : Reach c c') : Reach c₀ c' := by
  induction h' with
  | refl => exact h
  | step _ hs ih => exact ih.step hs

theorem Reach.exec {c₀ c c' : Config T L C E σ} (h : Reach c₀ c) (chs : List (Choice T))
    (he : exec c chs = some c') : Reach c₀ c' := by
  induction chs generalizing c with
  | nil => cases he; exact h
  | cons ch chs ih =>
    obtain ⟨c₁, h₁, h₂⟩ := Option.bind_eq_some_iff.mp he
    exact ih (h.step h₁) h₂

theorem exec_reach {c₀ c : Config T L C E σ} {chs : List (Choice T)}
    (he : exec c₀ chs = some c) : Reach c₀ c :=
  Reach.refl.exec chs he

/-- `exec`, as long as the worlds satisfy `k` -/
def execIf (k : World T L E σ → Bool) : Config T L C E σ → List (Choice T) →
    Option (Config T L C E σ)
  | c, [] => some c
  | c, ch :: chs =>
    (step c ch).bind fun c' => if k c'.toWorld then execIf k c' chs else none

theorem Via.execIf {K : World T L E σ → Prop} {k : World T L E σ → Bool}
    (hk : ∀ w, k w = true → K w) {c₀ c c' : Config T L C E σ} (h : Via K c₀ c)
    (chs : List (Choice T)) (he : execIf k c chs = some c') : Via K c₀ c' := by
  induction chs generalizing c with
  | nil => cases he; exact h
  | cons ch chs ih =>
    obtain ⟨c₁, h₁, h₂⟩ := Option.bind_eq_some_iff.mp he
    split at h₂
    case isTrue hc => exact ih (h.step h₁ (hk _ hc)) h₂
    case isFalse => cases h₂

theorem exec_append (c : Config T L C E σ) (as bs : List (Choice T)) :
    exec c (as ++ bs) = (exec c as).bind fun c' => exec c' bs := by
  induction as generalizing c with
  | nil => rfl
  | cons a as ih =>
    show (step c a).bind _ = ((step c a).bind _).bind _
    cases step c a with
    | none => rfl
    | some c' => exact ih c'

/-- the last step of a schedule -/
theorem exec_last {c c' : Config T L C E σ} {chs : List (Choice T)} {ch : Choice T}
    (he : exec c (chs ++ [ch]) = some c') : ∃ c₁, exec c chs = some c₁ ∧ step c₁ ch = some c' := by
  rw [exec_append] at he
  obtain ⟨c₁, h₁, h₂⟩ := Option.bind_eq_some_iff.mp he
  obtain ⟨c₂, h₃, h₄⟩ := Option.bind_eq_some_iff.mp h₂
  cases h₄
  exact ⟨c₁, h₁, h₃⟩

/-- a step records one label at most -/
theorem step_trace {c c' : Config T L C E σ} {ch : Choice T} (hs : step c ch = some c') :
    c'.trace = c.trace ∨ ∃ a, c'.trace = a :: c.trace := by
  cases ch with
  | wake t r =>
    simp only [step] at hs
    split at hs
    · cases hs
      exact .inl rfl
    · cases hs
  | run t =>
    simp only [step] at hs
    split at hs
    case h_2 e f k _ =>
      cases hs
      show World.push t (e c.mem) c.trace = c.trace ∨ ∃ a, World.push t (e c.mem) c.trace = a :: c.trace
      cases e c.mem with
      | none => exact .inl rfl
      | some x => exact .inr ⟨(t, x), rfl⟩
    case h_3 | h_7 =>
      split at hs
      · cases hs
        exact .inl rfl
      · cases hs
    case h_1 | h_6 => cases hs
    all_goals
      cases hs
      exact .inl rfl

/-- a condition on the history that every earlier history inherits holds on the way as well -/
theorem Reach.via {K : List (T × E) → Prop} {c₀ c : Config T L C E σ} (hr : Reach c₀ c)
    (htail : ∀ a tr, K (a :: tr) → K tr) (hK : K c.trace) : Via (fun w => K w.trace) c₀ c := by
  induction hr with
  | refl => exact .refl
  | @step c c' ch _ hs ih =>
    refine .step (ih ?_) hs hK
    obtain h | ⟨a, h⟩ := step_trace hs
    · rwa [h] at hK
    · rw [h] at hK
      exact htail _ _ hK

end

end Threads
