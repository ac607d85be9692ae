import Mathlib.Data.List.Forall2
import RaspikeArt.Threads.Local

/-!
# Threads, part 10: programs with checks

A program that can also fail, `ExceptT ε` over programs, beside one that cannot.

* `Tracks x p R`   `x` takes the steps of `p`, with results related by `R`, and never fails;
* one rule per construct; `Tracks.checked` is the one for a check;
* `Tracks.passes`  a thread that runs `x` among other threads goes on with a result;
* `finish_lift`, `finish_checked`  how a program with checks ends that runs alone.
-/

namespace Threads

variable {T L C E σ ε : Type} {α α' β β' S S' : Type}

/-- Whatever is known of the own steps of `p` is known of those of `x`, and `x` does not fail. -/
def Tracks (x : ExceptT ε (Prog L C E σ) α) (p : Prog L C E σ β) (R : α → β → Prop) : Prop :=
  ∀ (𝓛 : Local C E σ) (Q : β → 𝓛.G → Prop) (g : 𝓛.G), along 𝓛 p Q g →
    along 𝓛 x.run (fun r g' => ∃ a b, r = .ok a ∧ R a b ∧ Q b g') g

/-- `forEach` over a body that can fail -/
def forEachChecked {ι : Type} : List ι → (ι → ExceptT ε (Prog L C E σ) Unit) → ExceptT ε (Prog L C E σ) Unit
  | [], _ => pure ()
  | i :: is, body => do
    body i
    forEachChecked is body

/-- `loopFrom` over a body that can fail -/
def loopChecked (s : S) (body : S → ExceptT ε (Prog L C E σ) (S ⊕ α)) : ExceptT ε (Prog L C E σ) α :=
  ExceptT.mk (loopFrom s fun s => do
    match ← (body s).run with
    | .ok (.inl s') => return .inl s'
    | .ok (.inr a) => return .inr (.ok a)
    | .error e => return .inr (.error e))

/-- nothing is kept of the own steps -/
def forgetting (C E σ : Type) : Local C E σ where
  G := Unit
  R _ _ := True
  A _ _ := True
  next _ _ := ()

/-- whatever the other threads do, `p` ends with a result, if it ends -/
def NeverFails (p : Prog L C E σ (Except ε α)) : Prop :=
  along (forgetting C E σ) p (fun r _ => ∃ a, r = .ok a) ()

namespace Tracks

variable {x : ExceptT ε (Prog L C E σ) α} {p : Prog L C E σ β} {R : α → β → Prop}

theorem mono {R' : α → β → Prop} (h : Tracks x p R) (hR : ∀ a b, R a b → R' a b) : Tracks x p R' := by
  intro 𝓛 Q g hp
  apply along_mono _ (h 𝓛 Q g hp)
  rintro r g' ⟨a, b, hr, hab, hQ⟩
  exact ⟨a, b, hr, hR a b hab, hQ⟩

theorem pure {a : α} {b : β} (h : R a b) :
    Tracks (Pure.pure a : ExceptT ε (Prog L C E σ) α) (Pure.pure b : Prog L C E σ β) R :=
  fun _ _ _ hp => ⟨a, b, rfl, h, hp⟩

theorem bind {f : α → ExceptT ε (Prog L C E σ) α'} {q : β → Prog L C E σ β'} {R' : α' → β' → Prop}
    (hx : Tracks x p R) (hf : ∀ a b, R a b → Tracks (f a) (q b) R') : Tracks (x >>= f) (p >>= q) R' := by
  intro 𝓛 Q g hp
  apply along_seq (hx 𝓛 _ g (along_bind_iff.mp hp))
  rintro r g' ⟨a, b, rfl, hab, hq⟩
  exact hf a b hab 𝓛 Q g' hq

/-- what follows takes no step -/
theorem bind_pure {f : α → ExceptT ε (Prog L C E σ) α'} {R' : α' → β → Prop} (hx : Tracks x p R)
    (hf : ∀ a b, R a b → Tracks (f a) (Pure.pure b : Prog L C E σ β) R') : Tracks (x >>= f) p R' := by
  have h := bind (q := Pure.pure) hx hf
  have hp : p >>= Pure.pure = p := Prog.bind_ret p
  rwa [hp] at h

/-- a step that is no check -/
theorem lift {q : Prog L C E σ α} {S : α → Prop} (h : q.Yields S) :
    Tracks (liftM q : ExceptT ε (Prog L C E σ) α) q fun a b => a = b ∧ S b := by
  intro 𝓛 Q g hq
  apply along_seq (along_yields hq h)
  rintro a g' ⟨hQ, hS⟩
  exact ⟨a, a, rfl, ⟨rfl, hS⟩, hQ⟩

theorem step [DecidableEq L] {q : Prog L C E σ α} {f : α → ExceptT ε (Prog L C E σ) α'} {q' : α → Prog L C E σ β'}
    {R' : α' → β' → Prop} (hf : ∀ a, Tracks (f a) (q' a) R') :
    Tracks ((liftM q : ExceptT ε (Prog L C E σ) α) >>= f) (q >>= q') R' := by
  apply bind (lift Prog.Yields.trivial)
  rintro a b ⟨rfl, -⟩
  exact hf a

/-- a check that is met -/
theorem checked {e : Except ε α'} {a : α'} {f : α' → ExceptT ε (Prog L C E σ) α} (he : e = .ok a)
    (hf : Tracks (f a) p R) : Tracks ((liftM e : ExceptT ε (Prog L C E σ) α') >>= f) p R := by
  intro 𝓛 Q g hp
  subst he
  exact hf 𝓛 Q g hp

theorem loop {s : S} {s' : S'} {body : S → ExceptT ε (Prog L C E σ) (S ⊕ α)}
    {body' : S' → Prog L C E σ (S' ⊕ β)} (J : S → S' → Prop) (hJ : J s s')
    (h : ∀ s s', J s s' → Tracks (body s) (body' s') fun r r' => match r, r' with
      | .inl s, .inl s' => J s s'
      | .inr a, .inr b => R a b
      | _, _ => False) : Tracks (loopChecked s body) (loopFrom s' body') R := by
  rintro 𝓛 Q g ⟨K, hK, hbody⟩
  apply along_loop (fun s g => ∃ s', J s s' ∧ K s' g) ⟨s', hJ, hK⟩
  rintro s g ⟨s', hs, hg⟩
  apply along_seq (h s s' hs 𝓛 _ g (hbody s' g hg))
  rintro r g' ⟨a, b, rfl, hab, hQ⟩
  cases a with
  | inl t =>
    cases b with
    | inl t' => exact ⟨t', hab, hQ⟩
    | inr b => exact hab.elim
  | inr a =>
    cases b with
    | inl t' => exact hab.elim
    | inr b => exact ⟨a, b, rfl, hab, hQ⟩

theorem forEach {ι ι' : Type} {is : List ι} {is' : List ι'} {body : ι → ExceptT ε (Prog L C E σ) Unit}
    {body' : ι' → Prog L C E σ Unit} {r : ι → ι' → Prop} (his : List.Forall₂ r is is')
    (h : ∀ i i', r i i' → Tracks (body i) (body' i') fun _ _ => True) :
    Tracks (forEachChecked is body) (Threads.forEach is' body') fun _ _ => True := by
  induction his with
  | nil => exact pure trivial
  | cons hi _ ih => exact bind (h _ _ hi) fun _ _ _ => ih

/-- **No failure**: a thread that runs `x` among other threads goes on with a result, whatever they
do; and as long as it has not come through `x`, no failure is ahead of it. -/
theorem passes [DecidableEq T] [DecidableEq L] [DecidableEq C] (h : Tracks x p R) {t : T}
    {c c' : Config T L C E σ} {k : Except ε α → Prog L C E σ Unit} {ss : List (Own C E σ)}
    (hf : Follows t c ss c') (hc : c.thr t = x.run.bind k) :
    (∃ p', c'.thr t = Prog.bind p' k ∧ NeverFails p') ∨
      ∃ a b c₁ ss₁ ss₂, ss = ss₂ ++ ss₁ ∧ R a b ∧ c₁.thr t = k (.ok a) ∧ Follows t c₁ ss₂ c' := by
  have hp : along (forgetting C E σ) p (fun _ _ => True) () :=
    along_any (𝓛 := forgetting C E σ) (P := fun _ => True) (fun _ _ _ => ⟨trivial, trivial⟩) trivial
  have hr : (forgetting C E σ).Relies () ss := by
    clear hf
    induction ss with
    | nil => trivial
    | cons s ss ih => exact ⟨ih, fun _ _ _ _ => trivial⟩
  obtain ⟨p', hc', hp', -⟩ | ⟨r, c₁, ss₁, ss₂, hss, hc₁, ⟨a, b, rfl, hab, -⟩, -, hf₂⟩ :=
    Local.passes (𝓛 := forgetting C E σ) hf hc (h _ _ () hp) hr
  · left
    refine ⟨p', hc', along_mono ?_ hp'⟩
    rintro r _ ⟨a, b, hr, -, -⟩
    exact ⟨a, hr⟩
  · exact .inr ⟨a, b, c₁, ss₁, ss₂, hss, hab, hc₁, hf₂⟩

end Tracks

section
variable [DecidableEq L] {w : World Unit L E σ} {f : α → ExceptT ε (Prog L C E σ) α'}
  {Q : Except ε α' → World Unit L E σ → Prop}

theorem finish_lift {q : Prog L C E σ α} (h : Finishes q w fun a w' => Finishes (f a).run w' Q) :
    Finishes ((liftM q : ExceptT ε (Prog L C E σ) α) >>= f).run w Q := by
  apply finish_bind
  apply finish_bind
  exact finish_mono h fun a w' h => finish_pure h

theorem finish_checked {e : Except ε α} {a : α} (he : e = .ok a) (h : Finishes (f a).run w Q) :
    Finishes ((liftM e : ExceptT ε (Prog L C E σ) α) >>= f).run w Q := by
  subst he
  exact h

end

end Threads
