import RaspikeArt.Threads.Logic

/-!
# Threads, part 11: the codes of waits

A wait may end with any code that the scheduler chooses.  Here it ends with one of `code` only.

* `Coded code c₀ c`       the configurations reachable by runs with such codes;
* `p.Says code ok Q`      with such codes every label of `p` is `ok`, and what it yields satisfies `Q`;
* `Prog.Says.of_all`      a program of which the labels are known already;
* `Coded.labels`            so every label of such a run is `ok`.
-/

namespace Threads

variable {T L C E σ : Type} {α β S : Type}

inductive Coded [DecidableEq T] [DecidableEq L] [DecidableEq C] (code : Int → Prop)
    (c₀ : Config T L C E σ) : Config T L C E σ → Prop where
  | refl : Coded code c₀ c₀
  | step {c c' : Config T L C E σ} {ch : Choice T} (h : Coded code c₀ c) (hs : step c ch = some c')
      (hcode : ∀ t r, ch = .wake t r → code r) : Coded code c₀ c'

def Prog.Says (code : Int → Prop) (ok : E → Prop) :
    {α : Type} → Prog L C E σ α → (α → Prop) → Prop
  | _, .ret a, Q => Q a
  | _, .act e f k, Q => ∀ m, (∀ x, e m = some x → ok x) ∧ (k (f m).1).Says code ok Q
  | _, .lock _ k, Q => k.Says code ok Q
  | _, .unlock _ k, Q => k.Says code ok Q
  | _, .wait _ _ k, Q => ∀ r, code r → (k r).Says code ok Q
  | _, .blocked _ _ k, Q => ∀ r, code r → (k r).Says code ok Q
  | _, .woken _ r k, Q => (k r).Says code ok Q
  | _, .broadcast _ k, Q => k.Says code ok Q
  | _, .loop s body k, Q => ∃ J : _ → Prop, J s ∧ ∀ s, J s → (body s).Says code ok fun r => match r with
      | .inl s' => J s'
      | .inr b => (k b).Says code ok Q

namespace Prog.Says

variable {code : Int → Prop} {ok : E → Prop}

theorem mono {p : Prog L C E σ α} : ∀ {Q Q' : α → Prop}, (∀ a, Q a → Q' a) →
    p.Says code ok Q → p.Says code ok Q' := by
  induction p with
  | ret a => exact fun hQ h => hQ a h
  | act e f k ih => exact fun hQ h m => ⟨(h m).1, ih _ hQ (h m).2⟩
  | lock l k ih | unlock l k ih | broadcast c k ih => exact fun hQ h => ih hQ h
  | wait c l k ih | blocked c l k ih => exact fun hQ h r hr => ih r hQ (h r hr)
  | woken l r k ih => exact fun hQ h => ih r hQ h
  | loop s body k ihb ihk =>
    rintro Q Q' hQ ⟨J, hJ, hbody⟩
    refine ⟨J, hJ, fun s hs => ihb s (fun r hr => ?_) (hbody s hs)⟩
    cases r with
    | inl s' => exact hr
    | inr b => exact ihk b hQ hr

theorem bind {p : Prog L C E σ α} {q : α → Prog L C E σ β} : ∀ {Q : β → Prop},
    p.Says code ok (fun a => (q a).Says code ok Q) → (p >>= q).Says code ok Q := by
  show ∀ {Q : β → Prop}, p.Says code ok (fun a => (q a).Says code ok Q) → (p.bind q).Says code ok Q
  induction p with
  | ret a => exact fun h => h
  | act e f k ih => exact fun h m => ⟨(h m).1, ih _ (h m).2⟩
  | lock l k ih | unlock l k ih | broadcast c k ih => exact fun h => ih h
  | wait c l k ih | blocked c l k ih => exact fun h r hr => ih r (h r hr)
  | woken l r k ih => exact fun h => ih r h
  | loop s body k ihb ihk =>
    rintro Q ⟨J, hJ, hbody⟩
    refine ⟨J, hJ, fun s hs => mono (fun r hr => ?_) (hbody s hs)⟩
    cases r with
    | inl s' => exact hr
    | inr b => exact ihk b hr

/-- the rule of the intermediate assertion -/
theorem seq {p : Prog L C E σ α} {q : α → Prog L C E σ β} {R : α → Prop} {Q : β → Prop}
    (hp : p.Says code ok R) (hq : ∀ a, R a → (q a).Says code ok Q) : (p >>= q).Says code ok Q :=
  bind (mono hq hp)

theorem act {e : σ → Option E} {f : σ → β × σ} {Q : β → Prop}
    (h : ∀ m, (∀ x, e m = some x → ok x) ∧ Q (f m).1) :
    (.act e f .ret : Prog L C E σ β).Says code ok Q := h

theorem condWait {c : C} {l : L} {Q : Int → Prop} (h : ∀ r, code r → Q r) :
    (Threads.condWait c l : Prog L C E σ Int).Says code ok Q := h

theorem loopFrom {s : S} {body : S → Prog L C E σ (S ⊕ β)} {Q : β → Prop} (J : S → Prop) (hJ : J s)
    (h : ∀ s, J s → (body s).Says code ok fun r => match r with | .inl s' => J s' | .inr b => Q b) :
    (Threads.loopFrom s body).Says code ok Q := by
  refine ⟨J, hJ, fun s hs => mono (fun r hr => ?_) (h s hs)⟩
  cases r with
  | inl s' => exact hr
  | inr b => exact hr

/-- a program whose labels are known whatever the codes -/
theorem of_all {okAct : (σ → Option E) → (σ → σ) → Prop} {okLock : L → Prop} (hact : ∀ e f, okAct e f →
    ∀ m x, e m = some x → ok x) {p : Prog L C E σ α} (hp : p.All okAct okLock) : ∀ {R : α → Prop},
    p.Yields R → p.Says code ok R := by
  induction p with
  | ret a => exact fun hy => hy
  | act e f k ih => exact fun hy m => ⟨hact _ _ hp.1 m, ih _ (hp.2 _) (hy m)⟩
  | lock l k ih | unlock l k ih => exact fun hy => ih hp.2 hy
  | wait c l k ih | blocked c l k ih => exact fun hy r _ => ih r (hp.2 r) (hy r)
  | woken l r k ih => exact fun hy => ih r (hp.2 r) (hy r)
  | broadcast c k ih => exact fun hy => ih hp hy
  | loop s body k ihb ihk =>
    rintro R ⟨J, hJ, hbody⟩
    refine ⟨J, hJ, fun s hs => mono (fun r hr => ?_) (ihb s (hp.1 s) (hbody s hs))⟩
    cases r with
    | inl s' => exact hr
    | inr b => exact ihk b (hp.2 b) hr

/-- with what is known of the result whatever the codes -/
theorem yields {p : Prog L C E σ α} : ∀ {Q R : α → Prop}, p.Says code ok Q → p.Yields R →
    p.Says code ok fun a => Q a ∧ R a := by
  induction p with
  | ret a => exact fun h hy => ⟨h, hy⟩
  | act e f k ih => exact fun h hy m => ⟨(h m).1, ih _ (h m).2 (hy m)⟩
  | lock l k ih | unlock l k ih | broadcast c k ih => exact fun h hy => ih h hy
  | wait c l k ih | blocked c l k ih => exact fun h hy r hr => ih r (h r hr) (hy r)
  | woken l r k ih => exact fun h hy => ih r h (hy r)
  | loop s body k ihb ihk =>
    rintro Q R ⟨J, hJ, hbody⟩ ⟨J', hJ', hbody'⟩
    refine ⟨fun s => J s ∧ J' s, ⟨hJ, hJ'⟩, fun s hs => mono (fun r hr => ?_) (ihb s (hbody s hs.1) (hbody' s hs.2))⟩
    cases r with
    | inl s' => exact hr
    | inr b => exact ihk b hr.1 hr.2

/-! ## along a run -/

theorem turn {s : S} {body : S → Prog L C E σ (S ⊕ β)} {k : β → Prog L C E σ α} {Q : α → Prop}
    (h : (Prog.loop s body k).Says code ok Q) : (Prog.turn body k s).Says code ok Q := by
  obtain ⟨J, hJ, hbody⟩ := h
  apply bind
  apply mono _ (hbody s hJ)
  intro r hr
  cases r with
  | inl s' => exact ⟨J, hr, hbody⟩
  | inr b => exact hr

/-- a broadcast wakes with the code zero -/
theorem signal [DecidableEq C] (hzero : code 0) {p : Prog L C E σ α} {Q : α → Prop} (c : C)
    (h : p.Says code ok Q) : (p.signal c).Says code ok Q := by
  cases p with
  | blocked c' l k =>
    by_cases hc : c' = c
    · rw [Prog.signal, if_pos hc]
      exact h 0 hzero
    · rw [Prog.signal, if_neg hc]
      exact h
  | _ => exact h

variable [DecidableEq T] [DecidableEq L] [DecidableEq C]

theorem step (hzero : code 0) {c c' : Config T L C E σ} {ch : Choice T}
    (h : ∀ t, (c.thr t).Says code ok fun _ => True) (hs : Threads.step c ch = some c')
    (hcode : ∀ t r, ch = .wake t r → code r) : (∀ t, (c'.thr t).Says code ok fun _ => True) ∧
      ∀ x ∈ c'.trace, x ∈ c.trace ∨ ok x.2 := by
  have hup : ∀ u {p : Prog L C E σ Unit}, p.Says code ok (fun _ => True) → ∀ t,
      (Function.update c.thr u p t).Says code ok fun _ => True := by
    intro u p hp t
    by_cases hu : t = u
    · subst hu
      rwa [Function.update_self]
    · rw [Function.update_of_ne hu]
      exact h t
  have hsame : ∀ x ∈ c.trace, x ∈ c.trace ∨ ok x.2 := fun _ hx => .inl hx
  cases ch with
  | wake u r =>
    simp only [Threads.step] at hs
    split at hs
    case h_1 v l k hk =>
      cases hs
      have hu := h u
      rw [hk] at hu
      exact ⟨hup u (p := .woken l r k) (hu r (hcode u r rfl)), hsame⟩
    case h_2 => cases hs
  | run u =>
    have hu := h u
    simp only [Threads.step] at hs
    split at hs
    case h_1 => cases hs
    case h_2 e f k hk =>
      cases hs
      rw [hk] at hu
      refine ⟨hup u (hu c.mem).2, fun x hx => ?_⟩
      cases hlabel : e c.mem with
      | none =>
        rw [World.act_trace, hlabel] at hx
        exact .inl hx
      | some e' =>
        rw [World.act_trace, hlabel] at hx
        rcases List.mem_cons.mp hx with rfl | hx
        · exact .inr ((hu c.mem).1 e' hlabel)
        · exact .inl hx
    case h_3 l k hk =>
      split at hs
      case isTrue =>
        cases hs
        rw [hk] at hu
        exact ⟨hup u (p := k) hu, hsame⟩
      case isFalse => cases hs
    case h_4 l k hk =>
      cases hs
      rw [hk] at hu
      exact ⟨hup u (p := k) hu, hsame⟩
    case h_5 v l k hk =>
      cases hs
      rw [hk] at hu
      exact ⟨hup u (p := .blocked v l k) hu, hsame⟩
    case h_6 => cases hs
    case h_7 l r k hk =>
      split at hs
      case isTrue =>
        cases hs
        rw [hk] at hu
        exact ⟨hup u (p := k r) hu, hsame⟩
      case isFalse => cases hs
    case h_8 v k hk =>
      cases hs
      rw [hk] at hu
      refine ⟨fun t => ?_, hsame⟩
      by_cases ht : t = u
      · subst ht
        have hrest : k.Says code ok fun _ => True := hu
        simpa only [Function.update_self] using hrest
      · simpa only [Function.update_of_ne ht] using (h t).signal hzero v
    case h_9 s body k hk =>
      cases hs
      rw [hk] at hu
      exact ⟨hup u (turn hu), hsame⟩

end Prog.Says

/-! ## runs -/

section
variable [DecidableEq T] [DecidableEq L] [DecidableEq C] {code : Int → Prop} {c₀ c : Config T L C E σ}

theorem Coded.reach (h : Coded code c₀ c) : Reach c₀ c := by
  induction h with
  | refl => exact .refl
  | step _ hs _ ih => exact ih.step hs

/-- every label of the run is `ok` -/
theorem Coded.labels {ok : E → Prop} (hzero : code 0) (h : Coded code c₀ c)
    (h₀ : ∀ t, (c₀.thr t).Says code ok fun _ => True) : (∀ t, (c.thr t).Says code ok fun _ => True) ∧
      ∀ x ∈ c.trace, x ∈ c₀.trace ∨ ok x.2 := by
  induction h with
  | refl => exact ⟨h₀, fun _ hx => .inl hx⟩
  | step _ hs hcode ih =>
    obtain ⟨hthr, htr⟩ := Prog.Says.step hzero ih.1 hs hcode
    refine ⟨hthr, fun x hx => ?_⟩
    rcases htr x hx with hx | hx
    · exact ih.2 x hx
    · exact .inr hx

/-- a run with such codes from an empty history, as a run through worlds whose labels are `ok` -/
theorem Coded.via {ok : E → Prop} (hzero : code 0) (h : Coded code c₀ c) (hempty : c₀.trace = [])
    (h₀ : ∀ t, (c₀.thr t).Says code ok fun _ => True) :
    Via (fun w => ∀ x ∈ w.trace, ok x.2) c₀ c := by
  induction h with
  | refl => exact .refl
  | step h hs hcode ih =>
    refine ih.step hs fun x hx => ?_
    rcases ((h.step hs hcode).labels hzero h₀).2 x hx with hx | hx
    · rw [hempty] at hx
      cases hx
    · exact hx

/-- the step of a run that makes an entry of its history -/
theorem Reach.entry {x : T × E} {zs tr : List (T × E)} (hr : Reach c₀ c) (hempty : c₀.trace = [])
    (htr : c.trace = zs ++ x :: tr) :
    ∃ a b ch, Reach c₀ a ∧ Threads.step a ch = some b ∧ a.trace = tr ∧ b.trace = x :: tr := by
  induction hr generalizing zs with
  | refl =>
    rw [hempty] at htr
    cases zs <;> cases htr
  | @step a b ch hr hs ih =>
    obtain hsame | ⟨y, hcons⟩ := step_trace hs
    · exact ih (hsame.symm.trans htr)
    rw [hcons] at htr
    cases zs with
    | nil =>
      obtain ⟨rfl, hold⟩ := List.cons.inj htr
      exact ⟨a, b, ch, hr, hs, hold, hcons.trans (congrArg _ hold)⟩
    | cons z zs => exact ih (List.cons.inj htr).2

theorem exec_coded {chs : List (Choice T)} (he : exec c₀ chs = some c)
    (hcode : ∀ t r, .wake t r ∈ chs → code r) : Coded code c₀ c := by
  have hgo : ∀ (chs : List (Choice T)) {b : Config T L C E σ}, Coded code c₀ b → exec b chs = some c →
      (∀ t r, .wake t r ∈ chs → code r) → Coded code c₀ c := by
    intro chs
    induction chs with
    | nil =>
      rintro b hb he -
      cases he
      exact hb
    | cons ch chs ih =>
      intro b hb he hcode
      obtain ⟨b', hs, he⟩ := Option.bind_eq_some_iff.mp he
      refine ih (hb.step hs fun t r hch => ?_) he fun t r hmem => ?_
      · exact hcode t r (hch ▸ List.mem_cons_self)
      · exact hcode t r (List.mem_cons_of_mem _ hmem)
  exact hgo chs .refl he hcode

/-- a run in which every wait is ended by a broadcast -/
theorem exec_runs {chs : List (Choice T)} (he : exec c₀ chs = some c) (h : ∀ ch ∈ chs, ∃ t, ch = .run t) :
    Coded code c₀ c := by
  apply exec_coded he
  intro t r hmem
  obtain ⟨u, hu⟩ := h _ hmem
  cases hu

end

end Threads
