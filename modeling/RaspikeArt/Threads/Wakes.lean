import RaspikeArt.Threads.Logic
import Mathlib.Data.Finset.Card

/-!
# Threads: the wake-ups that are owed

A `Monitor` is a mutex, a condition variable and a count in the memory of those who are in.  Labels say
who goes in and who comes out.  Whoever has the mutex and has seen somebody in may sleep; whoever comes
out has the mutex and owes a broadcast, until it has seen somebody in.

* `M.inside tr`     who is in, as the history shows it;
* `Standing`        where a thread stands with the monitor;
* `p.Pays M may g Q`  the program `p` pays what it owes before it gives the mutex back, and sleeps with
                    the mutex only where somebody is in;
* `Paid.reach`      along a run every thread goes on so;
* `Paid.debtor`     for a thread that sleeps somebody is in, or has the mutex, and will go on.
-/

set_option linter.unusedSectionVars false

namespace Threads

structure Monitor (L C E σ : Type) where
  mutex : L
  cond : C
  count : σ → Int
  enters : E → Bool
  leaves : E → Bool

/-- it has the mutex, it is in, it knows that somebody is in, it owes a broadcast -/
structure Standing where
  owner : Bool := false
  inside : Bool := false
  sure : Bool := false
  owes : Bool := false

variable {T L C E σ : Type} {α β S : Type} [DecidableEq T] [DecidableEq L] [DecidableEq C]

namespace Monitor

def inside (M : Monitor L C E σ) : List (T × E) → Finset T
  | [] => ∅
  | (u, e) :: tr =>
    if M.enters e then insert u (M.inside tr)
    else if M.leaves e then (M.inside tr).erase u
    else M.inside tr

theorem inside_push {M : Monitor L C E σ} {x : Option E}
    (hx : ∀ e, x = some e → M.enters e = false ∧ M.leaves e = false) (t : T) (tr : List (T × E)) :
    M.inside (World.push t x tr) = M.inside tr := by
  cases x with
  | none => rfl
  | some e =>
    obtain ⟨he, hl⟩ := hx e rfl
    show (if M.enters e then _ else if M.leaves e then _ else _) = _
    rw [he, hl]
    rfl

/-- what an access makes of the standing of its thread -/
inductive Step (M : Monitor L C E σ) (m : σ) (x : Option E) (m' : σ) : Standing → Standing → Prop where
  | stays {g g' : Standing} (hx : ∀ e, x = some e → M.enters e = false ∧ M.leaves e = false)
      (hcount : M.count m' = M.count m) (howner : g'.owner = g.owner) (hinside : g'.inside = g.inside)
      (hsure : g'.sure = true → g.owner = true ∧ 0 < M.count m)
      (howed : g'.owes = true → g.owes = true)
      (howes : g.owes = true → g'.owes = true ∨ 0 < M.count m) : Step M m x m' g g'
  | enters {g : Standing} {e : E} (hx : x = some e) (he : M.enters e = true)
      (hcount : M.count m' = M.count m + 1) (hin : g.inside = false) :
      Step M m x m' g { g with inside := true }
  | leaves {g : Standing} {e : E} (hx : x = some e) (he : M.enters e = false) (hl : M.leaves e = true)
      (hcount : M.count m' = M.count m - 1) (howner : g.owner = true) (hin : g.inside = true) :
      Step M m x m' g { g with inside := false, sure := false, owes := true }

/-- an access that has nothing to do with the monitor -/
structure Ignores (M : Monitor L C E σ) (e : σ → Option E) (f : σ → σ) : Prop where
  label : ∀ m x, e m = some x → M.enters x = false ∧ M.leaves x = false
  count : ∀ m, M.count (f m) = M.count m

end Monitor

def Prog.Pays (M : Monitor L C E σ) (may : Prop) :
    {α : Type} → Prog L C E σ α → Standing → (α → Standing → Prop) → Prop
  | _, .ret a, g, Q => Q a g
  | _, .act e f k, g, Q => ∀ m, 0 ≤ M.count m → (g.sure = true → g.owner = true ∧ 0 < M.count m) →
      ∃ g', M.Step m (e m) (f m).2 g g' ∧ (k (f m).1).Pays M may g' Q
  | _, .lock l k, g, Q =>
    if l = M.mutex then g.owner = false ∧ k.Pays M may { g with owner := true } Q else k.Pays M may g Q
  | _, .unlock l k, g, Q =>
    if l = M.mutex then
      (g.owner = true ∧ g.owes = false) ∧ k.Pays M may { g with owner := false, sure := false } Q
    else k.Pays M may g Q
  | _, .wait v l k, g, Q =>
    if l = M.mutex then
      (may ∧ v = M.cond ∧ g = { owner := true, sure := true }) ∧ ∀ r, (k r).Pays M may { owner := true } Q
    else ∀ r, (k r).Pays M may g Q
  | _, .blocked _ l k, g, Q => l ≠ M.mutex ∧ ∀ r, (k r).Pays M may g Q
  | _, .woken l r k, g, Q =>
    if l = M.mutex then g.owner = false ∧ (k r).Pays M may { g with owner := true } Q
    else (k r).Pays M may g Q
  | _, .broadcast v k, g, Q => k.Pays M may (if v = M.cond then { g with owes := false } else g) Q
  | _, .loop s body k, g, Q => ∃ J : _ → Standing → Prop, J s g ∧ ∀ s g, J s g →
      (body s).Pays M may g fun r g' => match r with
        | .inl s' => J s' g'
        | .inr b => (k b).Pays M may g' Q

namespace Prog.Pays

variable {M : Monitor L C E σ} {may : Prop}

theorem mono {p : Prog L C E σ α} : ∀ {g : Standing} {Q Q' : α → Standing → Prop},
    (∀ a g, Q a g → Q' a g) → p.Pays M may g Q → p.Pays M may g Q' := by
  induction p with
  | ret a => intro g Q Q' hQ h; exact hQ _ _ h
  | act e f k ih =>
    intro g Q Q' hQ h m hpos hm
    obtain ⟨g', hstep, hk⟩ := h m hpos hm
    exact ⟨g', hstep, ih _ hQ hk⟩
  | lock l k ih | unlock l k ih =>
    intro g Q Q' hQ h
    unfold Prog.Pays at h ⊢
    split
    case isTrue hl =>
      rw [if_pos hl] at h
      exact ⟨h.1, ih hQ h.2⟩
    case isFalse hl =>
      rw [if_neg hl] at h
      exact ih hQ h
  | wait v l k ih =>
    intro g Q Q' hQ h
    unfold Prog.Pays at h ⊢
    split
    case isTrue hl =>
      rw [if_pos hl] at h
      exact ⟨h.1, fun r => ih r hQ (h.2 r)⟩
    case isFalse hl =>
      rw [if_neg hl] at h
      exact fun r => ih r hQ (h r)
  | blocked v l k ih => intro g Q Q' hQ h; exact ⟨h.1, fun r => ih r hQ (h.2 r)⟩
  | woken l r k ih =>
    intro g Q Q' hQ h
    unfold Prog.Pays at h ⊢
    split
    case isTrue hl =>
      rw [if_pos hl] at h
      exact ⟨h.1, ih r hQ h.2⟩
    case isFalse hl =>
      rw [if_neg hl] at h
      exact ih r hQ h
  | broadcast v k ih => intro g Q Q' hQ h; exact ih hQ h
  | loop s body k ihb ihk =>
    intro g Q Q' hQ h
    obtain ⟨J, hJ, hbody⟩ := h
    refine ⟨J, hJ, fun s g hs => ihb s (fun r g' hr => ?_) (hbody s g hs)⟩
    cases r with
    | inl s' => exact hr
    | inr b => exact ihk b hQ hr

theorem bind' {p : Prog L C E σ α} {q : α → Prog L C E σ β} {Q : β → Standing → Prop} :
    ∀ {g : Standing}, p.Pays M may g (fun a g' => (q a).Pays M may g' Q) → (p.bind q).Pays M may g Q := by
  induction p with
  | ret a => intro g h; exact h
  | act e f k ih =>
    intro g h m hpos hm
    obtain ⟨g', hstep, hk⟩ := h m hpos hm
    exact ⟨g', hstep, ih _ hk⟩
  | lock l k ih | unlock l k ih =>
    intro g h
    unfold Prog.Pays at h
    unfold Prog.bind Prog.Pays
    split
    case isTrue hl =>
      rw [if_pos hl] at h
      exact ⟨h.1, ih h.2⟩
    case isFalse hl =>
      rw [if_neg hl] at h
      exact ih h
  | wait v l k ih =>
    intro g h
    unfold Prog.Pays at h
    unfold Prog.bind Prog.Pays
    split
    case isTrue hl =>
      rw [if_pos hl] at h
      exact ⟨h.1, fun r => ih r (h.2 r)⟩
    case isFalse hl =>
      rw [if_neg hl] at h
      exact fun r => ih r (h r)
  | blocked v l k ih => intro g h; exact ⟨h.1, fun r => ih r (h.2 r)⟩
  | woken l r k ih =>
    intro g h
    unfold Prog.Pays at h
    unfold Prog.bind Prog.Pays
    split
    case isTrue hl =>
      rw [if_pos hl] at h
      exact ⟨h.1, ih r h.2⟩
    case isFalse hl =>
      rw [if_neg hl] at h
      exact ih r h
  | broadcast v k ih => intro g h; exact ih h
  | loop s body k ihb ihk =>
    intro g h
    obtain ⟨J, hJ, hbody⟩ := h
    refine ⟨J, hJ, fun s g hs => mono (fun r g' hr => ?_) (hbody s g hs)⟩
    cases r with
    | inl s' => exact hr
    | inr b => exact ihk b hr

theorem seq {p : Prog L C E σ α} {q : α → Prog L C E σ β} {g : Standing} {Q : β → Standing → Prop}
    (R : α → Standing → Prop) (hp : p.Pays M may g R) (hq : ∀ a g', R a g' → (q a).Pays M may g' Q) :
    (p >>= q).Pays M may g Q :=
  bind' (mono hq hp)

theorem act {e : σ → Option E} {f : σ → β × σ} {g : Standing} {Q : β → Standing → Prop}
    (h : ∀ m, 0 ≤ M.count m → (g.sure = true → g.owner = true ∧ 0 < M.count m) →
      ∃ g', M.Step m (e m) (f m).2 g g' ∧ Q (f m).1 g') :
    (Prog.act e f .ret : Prog L C E σ β).Pays M may g Q := h

theorem lock {g : Standing} {Q : Unit → Standing → Prop} (hg : g.owner = false)
    (hQ : Q () { g with owner := true }) : (Threads.lock M.mutex : Prog L C E σ Unit).Pays M may g Q := by
  unfold Threads.lock Prog.Pays
  rw [if_pos rfl]
  exact ⟨hg, hQ⟩

theorem unlock {g : Standing} {Q : Unit → Standing → Prop} (hg : g.owner = true) (howes : g.owes = false)
    (hQ : Q () { g with owner := false, sure := false }) :
    (Threads.unlock M.mutex : Prog L C E σ Unit).Pays M may g Q := by
  unfold Threads.unlock Prog.Pays
  rw [if_pos rfl]
  exact ⟨⟨hg, howes⟩, hQ⟩

theorem condWait {Q : Int → Standing → Prop} (hmay : may) (hQ : ∀ r, Q r { owner := true }) :
    (Threads.condWait M.cond M.mutex : Prog L C E σ Int).Pays M may { owner := true, sure := true } Q := by
  unfold Threads.condWait Prog.Pays
  rw [if_pos rfl]
  exact ⟨⟨hmay, rfl, rfl⟩, hQ⟩

theorem broadcast {g : Standing} {Q : Unit → Standing → Prop} (hQ : Q () { g with owes := false }) :
    (Threads.broadcast M.cond : Prog L C E σ Unit).Pays M may g Q := by
  unfold Threads.broadcast Prog.Pays
  rw [if_pos rfl]
  exact hQ

theorem loopFrom {s : S} {body : S → Prog L C E σ (S ⊕ β)} {g : Standing} {Q : β → Standing → Prop}
    (J : S → Standing → Prop) (hJ : J s g) (h : ∀ s g, J s g → (body s).Pays M may g fun r g' => match r with
      | .inl s' => J s' g'
      | .inr b => Q b g') : (Threads.loopFrom s body).Pays M may g Q := by
  refine ⟨J, hJ, fun s g hs => mono (fun r g' hr => ?_) (h s g hs)⟩
  cases r with
  | inl s' => exact hr
  | inr b => exact hr

/-- a program that has nothing to do with the monitor -/
theorem of_all {okLock : L → Prop} (hl : ∀ l, okLock l → l ≠ M.mutex) {p : Prog L C E σ α}
    (hp : p.All M.Ignores okLock) : ∀ {g : Standing}, g.owes = false → p.Pays M may g fun _ g' => g' = g := by
  induction p with
  | ret a => intro g _; rfl
  | act e f k ih =>
    intro g hg m _ hm
    exact ⟨g, .stays (fun x hx => hp.1.label m x hx) (hp.1.count m) rfl rfl hm id .inl, ih _ (hp.2 _) hg⟩
  | lock l k ih | unlock l k ih =>
    intro g hg
    unfold Prog.Pays
    rw [if_neg (hl l hp.1)]
    exact ih hp.2 hg
  | wait v l k ih =>
    intro g hg
    unfold Prog.Pays
    rw [if_neg (hl l hp.1)]
    exact fun r => ih r (hp.2 r) hg
  | blocked v l k ih => exact fun hg => ⟨hl l hp.1, fun r => ih r (hp.2 r) hg⟩
  | woken l r k ih =>
    intro g hg
    unfold Prog.Pays
    rw [if_neg (hl l hp.1)]
    exact ih r (hp.2 r) hg
  | broadcast v k ih =>
    intro g hg
    have hsame : (if v = M.cond then { g with owes := false } else g) = g := by
      split
      · rw [← hg]
      · rfl
    unfold Prog.Pays
    rw [hsame]
    exact ih hp hg
  | loop s body k ihb ihk =>
    intro g hg
    refine ⟨fun _ g' => g' = g, rfl, ?_⟩
    rintro s _ rfl
    refine mono (fun r g' hr => ?_) (ihb s (hp.1 s) hg)
    subst hr
    cases r with
    | inl s' => rfl
    | inr b => exact ihk b (hp.2 b) hg

end Prog.Pays

/-! ## the standings of all threads -/

structure Monitor.Books (M : Monitor L C E σ) (w : World T L E σ) (gs : T → Standing) : Prop where
  owner : ∀ t, w.own M.mutex = some t ↔ (gs t).owner = true
  inside : ∀ t, t ∈ M.inside w.trace ↔ (gs t).inside = true
  count : M.count w.mem = (M.inside w.trace).card
  sure : ∀ t, (gs t).sure = true → (gs t).owner = true ∧ 0 < M.count w.mem
  owes : ∀ t, (gs t).owes = true → (gs t).owner = true

/-- somebody is in, or owes a broadcast -/
def Monitor.Due (M : Monitor L C E σ) (w : World T L E σ) (gs : T → Standing) : Prop :=
  0 < M.count w.mem ∨ ∃ u, (gs u).owes = true

namespace Monitor.Books

variable {M : Monitor L C E σ} {w : World T L E σ} {gs : T → Standing} {t : T}

/-- the mutex has one owner -/
theorem alone (h : M.Books w gs) {u : T} (ht : (gs t).owner = true) (hu : (gs u).owner = true) : u = t :=
  Option.some.inj (((h.owner u).mpr hu).symm.trans ((h.owner t).mpr ht))

/-- the standing of one thread changes -/
theorem change (h : M.Books w gs) {w' : World T L E σ} {g' : Standing}
    (hown : ∀ u, w'.own M.mutex = some u ↔ (Function.update gs t g' u).owner = true)
    (hothers : ∀ u ≠ t, u ∈ M.inside w'.trace ↔ u ∈ M.inside w.trace)
    (hin : t ∈ M.inside w'.trace ↔ g'.inside = true) (hcount : M.count w'.mem = (M.inside w'.trace).card)
    (hpos : ∀ u ≠ t, (gs u).sure = true → 0 < M.count w'.mem)
    (hsure : g'.sure = true → g'.owner = true ∧ 0 < M.count w'.mem) (howes : g'.owes = true → g'.owner = true) :
    M.Books w' (Function.update gs t g') where
  owner := hown
  inside u := by
    by_cases hu : u = t
    · rw [hu, Function.update_self]
      exact hin
    · rw [Function.update_of_ne hu, ← h.inside u]
      exact hothers u hu
  count := hcount
  sure u hs := by
    by_cases hu : u = t
    · rw [hu, Function.update_self] at hs ⊢
      exact hsure hs
    · rw [Function.update_of_ne hu] at hs ⊢
      exact ⟨(h.sure u hs).1, hpos u hu hs⟩
  owes u ho := by
    by_cases hu : u = t
    · rw [hu, Function.update_self] at ho ⊢
      exact howes ho
    · rw [Function.update_of_ne hu] at ho ⊢
      exact h.owes u ho

/-- the mutex stays with its owner -/
theorem same_owner (h : M.Books w gs) {g' : Standing} (howner : g'.owner = (gs t).owner) (u : T) :
    w.own M.mutex = some u ↔ (Function.update gs t g' u).owner = true := by
  rw [h.owner u]
  by_cases hu : u = t
  · rw [hu, Function.update_self, howner]
  · rw [Function.update_of_ne hu]

/-- a change that has nothing to do with who is in -/
theorem update {w' : World T L E σ} {g' : Standing} (h : M.Books w gs)
    (hown : ∀ u, w'.own M.mutex = some u ↔ (Function.update gs t g' u).owner = true)
    (hmem : w'.mem = w.mem) (htr : w'.trace = w.trace) (hin : g'.inside = (gs t).inside)
    (hsure : g'.sure = true → g'.owner = true ∧ (gs t).sure = true) (howes : g'.owes = true → g'.owner = true) :
    M.Books w' (Function.update gs t g') := by
  refine h.change hown (fun u _ => by rw [htr]) ?_ ?_ (fun u _ hs => ?_) (fun hs => ⟨(hsure hs).1, ?_⟩) howes
  · rw [htr, hin]
    exact h.inside t
  · rw [hmem, htr]
    exact h.count
  · rw [hmem]
    exact (h.sure u hs).2
  · rw [hmem]
    exact (h.sure t (hsure hs).2).2

theorem acquire (h : M.Books w gs) (hfree : w.own M.mutex = none) :
    M.Books (w.acquire t M.mutex) (Function.update gs t { gs t with owner := true }) := by
  refine h.update (fun u => ?_) rfl rfl rfl (fun hs => ⟨rfl, hs⟩) fun _ => rfl
  rw [World.acquire_own, if_pos rfl]
  by_cases hu : u = t
  · rw [hu, Function.update_self]
    exact ⟨fun _ => rfl, fun _ => rfl⟩
  · rw [Function.update_of_ne hu, ← h.owner u, hfree]
    constructor
    · intro heq
      exact (hu (Option.some.inj heq).symm).elim
    · intro heq
      cases heq

theorem release (h : M.Books w gs) (ht : (gs t).owner = true) (howes : (gs t).owes = false) :
    M.Books (w.release M.mutex) (Function.update gs t { gs t with owner := false, sure := false }) := by
  refine h.update (fun u => ?_) rfl rfl rfl (fun hs => ?_) fun ho => ?_
  · rw [World.release_own, if_pos rfl]
    constructor
    · intro heq
      cases heq
    · intro hu
      by_cases hut : u = t
      · rw [hut, Function.update_self] at hu
        cases hu
      · rw [Function.update_of_ne hut] at hu
        exact (hut (h.alone ht hu)).elim
  · cases hs
  · rw [howes] at ho
    cases ho

/-- a step with another mutex, or with none -/
theorem other {w' : World T L E σ} (h : M.Books w gs) (hown : w'.own M.mutex = w.own M.mutex)
    (hmem : w'.mem = w.mem) (htr : w'.trace = w.trace) : M.Books w' gs where
  owner u := by rw [hown, h.owner u]
  inside u := by rw [htr, h.inside u]
  count := by rw [hmem, htr, h.count]
  sure u hs := by
    rw [hmem]
    exact h.sure u hs
  owes := h.owes

theorem paid (h : M.Books w gs) : M.Books w (Function.update gs t { gs t with owes := false }) := by
  refine h.update (h.same_owner rfl) rfl rfl rfl (fun hs => ⟨(h.sure t hs).1, hs⟩) fun ho => ?_
  cases ho

/-- an access keeps the books -/
theorem act (h : M.Books w gs) {x : Option E} {m' : σ} {g' : Standing} (hs : M.Step w.mem x m' (gs t) g') :
    M.Books { w with mem := m', trace := World.push t x w.trace } (Function.update gs t g') := by
  cases hs with
  | stays hx hcount howner hinside hsure howed howes =>
    have hset : M.inside (World.push t x w.trace) = M.inside w.trace := inside_push hx t _
    refine h.change (h.same_owner howner) ?_ ?_ ?_ ?_ ?_ ?_
    · intro u _
      rw [hset]
    · rw [hset, hinside]
      exact h.inside t
    · rw [hset, hcount]
      exact h.count
    · intro u _ hs
      rw [hcount]
      exact (h.sure u hs).2
    · intro hs
      rw [howner, hcount]
      exact hsure hs
    · intro ho
      rw [howner]
      exact h.owes t (howed ho)
  | @enters e hx he hcount hin =>
    have hset : M.inside (World.push t x w.trace) = insert t (M.inside w.trace) := by
      rw [hx]
      exact if_pos he
    have hnot : t ∉ M.inside w.trace := by
      rw [h.inside t, hin]
      exact Bool.false_ne_true
    have hmore : ∀ u, (gs u).sure = true → 0 < M.count m' := fun u hs => by
      have := (h.sure u hs).2
      omega
    refine h.change (h.same_owner rfl) ?_ ?_ ?_ ?_ ?_ ?_
    · intro u hu
      rw [hset, Finset.mem_insert, or_iff_right hu]
    · rw [hset]
      exact ⟨fun _ => rfl, fun _ => Finset.mem_insert_self ..⟩
    · rw [hset, Finset.card_insert_of_notMem hnot, hcount, h.count]
      rfl
    · exact fun u _ => hmore u
    · exact fun hs => ⟨(h.sure t hs).1, hmore t hs⟩
    · exact h.owes t
  | @leaves e hx he hl hcount howner hin =>
    have hset : M.inside (World.push t x w.trace) = (M.inside w.trace).erase t := by
      rw [hx]
      show (if M.enters e then _ else if M.leaves e then _ else _) = _
      rw [he, hl]
      rfl
    have hmem : t ∈ M.inside w.trace := (h.inside t).mpr hin
    refine h.change (h.same_owner rfl) ?_ ?_ ?_ ?_ ?_ ?_
    · intro u hu
      rw [hset, Finset.mem_erase, and_iff_right hu]
    · rw [hset]
      constructor
      · intro ht
        exact (Finset.notMem_erase t _ ht).elim
      · intro ht
        cases ht
    · have hpos := Finset.card_pos.mpr ⟨t, hmem⟩
      rw [hset, Finset.card_erase_of_mem hmem, hcount, h.count]
      omega
    -- who has the mutex is alone with it
    · exact fun u hu hs => (hu (h.alone howner (h.sure u hs).1)).elim
    · intro hs
      cases hs
    · exact fun _ => howner

/-- and what is due stays due -/
theorem act_due (h : M.Books w gs) {x : Option E} {m' : σ} {g' : Standing} (hs : M.Step w.mem x m' (gs t) g')
    (hdue : M.Due w gs) :
    M.Due { w with mem := m', trace := World.push t x w.trace } (Function.update gs t g') := by
  have hself : Function.update gs t g' t = g' := Function.update_self ..
  have howed : ∀ {u}, u ≠ t → (gs u).owes = true → ∃ u, (Function.update gs t g' u).owes = true :=
    fun {u} hu ho => ⟨u, (congrArg Standing.owes (Function.update_of_ne hu ..)).trans ho⟩
  cases hs with
  | stays _ hcount _ _ _ _ howes =>
    obtain hpos | ⟨u, hu⟩ := hdue
    · exact .inl (hcount ▸ hpos)
    by_cases hut : u = t
    · subst hut
      obtain ho | hpos := howes hu
      · exact .inr ⟨u, (congrArg Standing.owes hself).trans ho⟩
      · exact .inl (hcount ▸ hpos)
    · exact .inr (howed hut hu)
  | enters _ _ hcount _ =>
    left
    show 0 < M.count m'
    have := h.count
    omega
  | leaves _ _ _ _ _ _ => exact .inr ⟨t, congrArg Standing.owes hself⟩

end Monitor.Books

/-! ## along a run -/

/-- it has ended the way it began -/
def Standing.Clear (g : Standing) : Prop := g.owner = false ∧ g.inside = false

/-- the thread pays on, or sleeps under the mutex -/
def Prog.Stands (M : Monitor L C E σ) (may : Prop) (p : Prog L C E σ Unit) (g : Standing) : Prop :=
  p.Pays M may g (fun _ g' => g'.Clear) ∨ ∃ k, p = .blocked M.cond M.mutex k ∧ may ∧ g = {} ∧
    ∀ r, (k r).Pays M may { owner := true } fun _ g' => g'.Clear

section
variable {M : Monitor L C E σ} {may : Prop} {p : Prog L C E σ Unit} {g : Standing}

/-- whoever is woken goes on -/
theorem Prog.Stands.woken {v : C} {l : L} {k : Int → Prog L C E σ Unit}
    (h : (Prog.blocked v l k).Stands M may g) (r : Int) : (Prog.woken l r k).Pays M may g fun _ g' => g'.Clear := by
  unfold Prog.Pays
  obtain ⟨hl, hk⟩ | ⟨k', heq, -, rfl, hk⟩ := h
  · rw [if_neg hl]
    exact hk r
  · cases heq
    rw [if_pos rfl]
    exact ⟨rfl, hk r⟩

theorem Prog.Stands.signal (h : p.Stands M may g) (v : C) : (p.signal v).Stands M may g := by
  cases p with
  | blocked v' l k =>
    by_cases hv : v' = v
    · rw [Prog.signal, if_pos hv]
      exact .inl (h.woken 0)
    · rw [Prog.signal, if_neg hv]
      exact h
  | _ => exact h

/-- who sleeps under the mutex -/
theorem Prog.Stands.sleeper {v : C} {k : Int → Prog L C E σ Unit}
    (h : (Prog.blocked v M.mutex k).Stands M may g) :
    v = M.cond ∧ may ∧ g = {} := by
  obtain ⟨hl, -⟩ | ⟨k', heq, hmay, hg, -⟩ := h
  · exact (hl rfl).elim
  · cases heq
    exact ⟨rfl, hmay, hg⟩

end

structure Paid (M : Monitor L C E σ) (may : T → Prop) (c : Config T L C E σ) (gs : T → Standing) : Prop where
  books : M.Books c.toWorld gs
  asleep : ∀ t v k, c.thr t = .blocked v M.mutex k → M.Due c.toWorld gs
  thread : ∀ t, (c.thr t).Stands M (may t) (gs t)

namespace Paid

variable {M : Monitor L C E σ} {may : T → Prop} {c : Config T L C E σ} {gs : T → Standing} {t : T}

/-- a thread goes on -/
theorem next (h : Paid M may c gs) {w' : World T L E σ} {p' : Prog L C E σ Unit} {g' : Standing}
    (hb : M.Books w' (Function.update gs t g'))
    (hdue : M.Due c.toWorld gs → M.Due w' (Function.update gs t g'))
    (hp : p'.Pays M (may t) g' fun _ g' => g'.Clear) :
    Paid M may ⟨w', Function.update c.thr t p'⟩ (Function.update gs t g') where
  books := hb
  asleep u v k hk := by
    by_cases hu : u = t
    · replace hk : Function.update c.thr t p' u = _ := hk
      rw [hu, Function.update_self] at hk
      rw [hk] at hp
      exact (hp.1 rfl).elim
    · exact hdue (h.asleep u v k ((Function.update_of_ne hu ..).symm.trans hk))
  thread u := by
    show (Function.update c.thr t p' u).Stands M (may u) (Function.update gs t g' u)
    by_cases hu : u = t
    · rw [hu, Function.update_self, Function.update_self]
      exact .inl hp
    · rw [Function.update_of_ne hu, Function.update_of_ne hu]
      exact h.thread u

/-- and its standing stays as it is -/
theorem keep (h : Paid M may c gs) {w' : World T L E σ} {p' : Prog L C E σ Unit}
    (hown : w'.own M.mutex = c.own M.mutex) (hmem : w'.mem = c.mem) (htr : w'.trace = c.trace)
    (hp : p'.Pays M (may t) (gs t) fun _ g' => g'.Clear) : Paid M may ⟨w', Function.update c.thr t p'⟩ gs := by
  have hsame : Function.update gs t (gs t) = gs := Function.update_eq_self ..
  have hb : M.Books w' (Function.update gs t (gs t)) := hsame.symm ▸ h.books.other hown hmem htr
  have hdue : M.Due c.toWorld gs → M.Due w' (Function.update gs t (gs t)) := by
    rw [hsame]
    unfold Monitor.Due
    rw [hmem]
    exact id
  have hnext := h.next hb hdue hp
  rwa [hsame] at hnext

/-- the mutex is taken -/
theorem taken (h : Paid M may c gs) {p' : Prog L C E σ Unit} (hfree : c.own M.mutex = none)
    (hp : p'.Pays M (may t) { gs t with owner := true } fun _ g' => g'.Clear) :
    Paid M may ⟨c.acquire t M.mutex, Function.update c.thr t p'⟩
      (Function.update gs t { gs t with owner := true }) := by
  refine h.next (h.books.acquire hfree) (fun hdue => hdue.imp id fun ⟨u, hu⟩ => ⟨u, ?_⟩) hp
  by_cases hut : u = t
  · rw [hut, Function.update_self]
    exact hut ▸ hu
  · rw [Function.update_of_ne hut]
    exact hu

/-- the mutex is given back: nothing is owed -/
theorem due_release (h : M.Due c.toWorld gs) (howes : (gs t).owes = false) (g' : Standing) :
    M.Due (c.release M.mutex) (Function.update gs t g') := by
  refine h.imp id fun ⟨u, hu⟩ => ⟨u, ?_⟩
  have hut : u ≠ t := by
    rintro rfl
    rw [howes] at hu
    cases hu
  rw [Function.update_of_ne hut]
  exact hu

/-- a broadcast -/
theorem told (h : Paid M may c gs) {v : C} {p' : Prog L C E σ Unit}
    (hp : p'.Pays M (may t) (if v = M.cond then { gs t with owes := false } else gs t) fun _ g' => g'.Clear) :
    ∃ gs', Paid M may ⟨c.toWorld, Function.update (fun u => (c.thr u).signal v) t p'⟩ gs' := by
  have hsignal : ∀ u, ((c.thr u).signal v).Stands M (may u) (gs u) := fun u => (h.thread u).signal v
  -- who still sleeps has slept before, and not on `v`
  have hold : ∀ u v' k, u ≠ t → (c.thr u).signal v = .blocked v' M.mutex k →
      c.thr u = .blocked v' M.mutex k ∧ v' ≠ v := by
    intro u v' k _ hk
    cases hu : c.thr u with
    | blocked v₁ l₁ k₁ =>
      rw [hu, Prog.signal] at hk
      split at hk
      · cases hk
      · cases hk
        exact ⟨rfl, ‹_›⟩
    | _ =>
      rw [hu] at hk
      cases hk
  have hnew : ∀ u v' k, Function.update (fun u => (c.thr u).signal v) t p' u = .blocked v' M.mutex k →
      u ≠ t ∧ (c.thr u).signal v = .blocked v' M.mutex k := by
    intro u v' k hk
    by_cases hu : u = t
    · rw [hu, Function.update_self] at hk
      rw [hk] at hp
      exact (hp.1 rfl).elim
    · exact ⟨hu, (Function.update_of_ne hu ..).symm.trans hk⟩
  by_cases hv : v = M.cond
  · rw [if_pos hv] at hp
    refine ⟨Function.update gs t { gs t with owes := false }, h.books.paid, fun u v' k hk => ?_, fun u => ?_⟩
    · obtain ⟨hu, hk'⟩ := hnew u v' k hk
      obtain ⟨hbefore, hne⟩ := hold u v' k hu hk'
      have hsleep := h.thread u
      rw [hbefore] at hsleep
      exact (hne (hsleep.sleeper.1.trans hv.symm)).elim
    · show (Function.update (fun u => (c.thr u).signal v) t p' u).Stands M (may u) _
      by_cases hu : u = t
      · rw [hu, Function.update_self, Function.update_self]
        exact .inl hp
      · rw [Function.update_of_ne hu, Function.update_of_ne hu]
        exact hsignal u
  · rw [if_neg hv] at hp
    refine ⟨gs, h.books, fun u v' k hk => ?_, fun u => ?_⟩
    · obtain ⟨hu, hk'⟩ := hnew u v' k hk
      exact h.asleep u v' k (hold u v' k hu hk').1
    · show (Function.update (fun u => (c.thr u).signal v) t p' u).Stands M (may u) _
      by_cases hu : u = t
      · rw [hu, Function.update_self]
        exact .inl hp
      · rw [Function.update_of_ne hu]
        exact hsignal u

/-- a sleep under the mutex -/
theorem slept (h : Paid M may c gs) {k : Int → Prog L C E σ Unit} (hmay : may t)
    (hg : gs t = { owner := true, sure := true })
    (hk : ∀ r, (k r).Pays M (may t) { owner := true } fun _ g' => g'.Clear) :
    Paid M may ⟨c.release M.mutex, Function.update c.thr t (.blocked M.cond M.mutex k)⟩
      (Function.update gs t {}) := by
  have howes : (gs t).owes = false := by rw [hg]
  have hb : M.Books (c.release M.mutex) (Function.update gs t { gs t with owner := false, sure := false }) :=
    h.books.release (by rw [hg]) howes
  rw [hg] at hb
  refine ⟨hb, fun u v k' _ => .inl ?_, fun u => ?_⟩
  · exact (h.books.sure t (by rw [hg])).2
  · show (Function.update c.thr t (.blocked M.cond M.mutex k) u).Stands M (may u) (Function.update gs t {} u)
    by_cases hu : u = t
    · rw [hu, Function.update_self, Function.update_self]
      exact .inr ⟨k, rfl, hmay, rfl, hk⟩
    · rw [Function.update_of_ne hu, Function.update_of_ne hu]
      exact h.thread u

theorem step (h : Paid M may c gs) {ch : Choice T} {c' : Config T L C E σ} (hs : Threads.step c ch = some c') :
    ∃ gs', Paid M may c' gs' := by
  cases ch with
  | wake t r =>
    have ht := h.thread t
    simp only [Threads.step] at hs
    split at hs
    case h_1 v l k hk =>
      cases hs
      rw [hk] at ht
      exact ⟨gs, h.keep rfl rfl rfl (ht.woken r)⟩
    · cases hs
  | run t =>
    have ht := h.thread t
    simp only [Threads.step] at hs
    -- a thread that runs does not sleep
    obtain ht | ⟨k, hk, -⟩ := ht
    case inr =>
      rw [hk] at hs
      cases hs
    cases hp : c.thr t with
    | ret a =>
      rw [hp] at hs
      cases hs
    | blocked v l k =>
      rw [hp] at hs
      cases hs
    | act e f k =>
      rw [hp] at hs ht
      cases hs
      have hpos : 0 ≤ M.count c.mem := by
        rw [h.books.count]
        exact Int.natCast_nonneg _
      obtain ⟨g', hstep, hk⟩ := ht c.mem hpos (h.books.sure t)
      exact ⟨_, h.next (h.books.act hstep) (h.books.act_due hstep) hk⟩
    | lock l k =>
      rw [hp] at hs ht
      simp only [Option.ite_none_right_eq_some, Option.some.injEq] at hs
      obtain ⟨hfree, rfl⟩ := hs
      unfold Prog.Pays at ht
      split at ht
      case isTrue hl =>
        subst hl
        exact ⟨_, h.taken hfree ht.2⟩
      case isFalse hl => exact ⟨gs, h.keep (Function.update_of_ne (Ne.symm hl) ..) rfl rfl ht⟩
    | woken l r k =>
      rw [hp] at hs ht
      simp only [Option.ite_none_right_eq_some, Option.some.injEq] at hs
      obtain ⟨hfree, rfl⟩ := hs
      unfold Prog.Pays at ht
      split at ht
      case isTrue hl =>
        subst hl
        exact ⟨_, h.taken hfree ht.2⟩
      case isFalse hl => exact ⟨gs, h.keep (Function.update_of_ne (Ne.symm hl) ..) rfl rfl ht⟩
    | unlock l k =>
      rw [hp] at hs ht
      cases hs
      unfold Prog.Pays at ht
      split at ht
      case isTrue hl =>
        subst hl
        obtain ⟨⟨howner, howes⟩, hk⟩ := ht
        exact ⟨_, h.next (h.books.release howner howes) (fun hdue => due_release hdue howes _) hk⟩
      case isFalse hl => exact ⟨gs, h.keep (Function.update_of_ne (Ne.symm hl) ..) rfl rfl ht⟩
    | wait v l k =>
      rw [hp] at hs ht
      cases hs
      unfold Prog.Pays at ht
      split at ht
      case isTrue hl =>
        subst hl
        obtain ⟨⟨hmay, rfl, hg⟩, hk⟩ := ht
        exact ⟨_, h.slept hmay hg hk⟩
      case isFalse hl =>
        -- a sleep under another mutex
        exact ⟨gs, h.keep (Function.update_of_ne (Ne.symm hl) ..) rfl rfl ⟨hl, ht⟩⟩
    | broadcast v k =>
      rw [hp] at hs ht
      cases hs
      exact h.told ht
    | loop s body k =>
      rw [hp] at hs ht
      cases hs
      obtain ⟨J, hJ, hbody⟩ := ht
      refine ⟨gs, h.keep rfl rfl rfl (Prog.Pays.bind' (Prog.Pays.mono (fun r g' hr => ?_) (hbody s _ hJ)))⟩
      cases r with
      | inl s' => exact ⟨J, hr, hbody⟩
      | inr b => exact hr

theorem reach {c₀ : Config T L C E σ} (h : Paid M may c₀ gs) (hr : Reach c₀ c) : ∃ gs', Paid M may c gs' := by
  induction hr with
  | refl => exact ⟨gs, h⟩
  | step _ hs ih =>
    obtain ⟨gs', h'⟩ := ih
    exact h'.step hs

/-- before anything is done -/
theorem start {c₀ : Config T L C E σ} (hown : ∀ l, c₀.own l = none) (htr : c₀.trace = [])
    (hcount : M.count c₀.mem = 0) (hp : ∀ t, (c₀.thr t).Pays M (may t) {} fun _ g => g.Clear) :
    Paid M may c₀ fun _ => {} where
  books :=
    { owner := fun t => by
        rw [hown]
        simp
      inside := fun t => by
        rw [htr]
        simp [Monitor.inside]
      count := by
        rw [htr, hcount]
        rfl
      sure := fun t hs => by cases hs
      owes := fun t ho => by cases ho }
  asleep t v k hk := by
    have ht := hp t
    rw [hk] at ht
    exact (ht.1 rfl).elim
  thread t := .inl (hp t)

/-- **for a sleeper** somebody is in, or has the mutex; it is another thread, and it has not ended -/
theorem debtor (h : Paid M may c gs) {v : C} {k : Int → Prog L C E σ Unit}
    (ht : c.thr t = .blocked v M.mutex k) : v = M.cond ∧ may t ∧
    ∃ u, u ≠ t ∧ c.thr u ≠ .ret () ∧ (u ∈ M.inside c.trace ∨ c.own M.mutex = some u) := by
  have hsleep := h.thread t
  rw [ht] at hsleep
  obtain ⟨hv, hmay, hg⟩ := hsleep.sleeper
  refine ⟨hv, hmay, ?_⟩
  have hends : ∀ u, c.thr u = .ret () → (gs u).Clear := by
    intro u hu
    have hthr := h.thread u
    rw [hu] at hthr
    obtain hclear | ⟨k, heq, -⟩ := hthr
    · exact hclear
    · cases heq
  obtain hpos | ⟨u, hu⟩ := h.asleep t v k ht
  · rw [h.books.count] at hpos
    obtain ⟨u, hu⟩ := Finset.card_pos.mp (Int.natCast_pos.mp hpos)
    have hin := (h.books.inside u).mp hu
    refine ⟨u, ?_, fun hend => ?_, .inl hu⟩
    · rintro rfl
      rw [hg] at hin
      cases hin
    · rw [(hends u hend).2] at hin
      cases hin
  · have howner := h.books.owes u hu
    refine ⟨u, ?_, fun hend => ?_, .inr ((h.books.owner u).mpr howner)⟩
    · rintro rfl
      rw [hg] at howner
      cases howner
    · rw [(hends u hend).1] at howner
      cases howner

end Paid

end Threads
