import RaspikeArt.Threads.Local

/-!
# Threads, part 8: what a thread has seen

A quantity of the memory is a function of the history: `rd m = val tr`.  Then the history also says
what every own access of a thread saw of it.

* `ownLabels t tr`       the own labels of `t`; `Last t e tr ys`: the newest of them; `Follows.labels`:
                         they are those of its own steps;
* `ownReads val t tr`    the own entries of `t`, each with the value at its access;
* `reading rd R A`       the ghost is that list, and `A` what every own entry gives;
* `Reach.reads`          every entry of a run gives it.
-/

namespace Threads

variable {T L C E σ V : Type} [DecidableEq T] [DecidableEq L] [DecidableEq C]

/-- the own labels of `t`, newest first -/
def ownLabels (t : T) (tr : List (T × E)) : List E := tr.filterMap fun x => if x.1 = t then some x.2 else none

/-- the own entries of `t`, newest first, each with what the history before it says -/
def ownReads (val : List (T × E) → V) (t : T) : List (T × E) → List (E × V)
  | [] => []
  | (u, e) :: tr => if u = t then (e, val tr) :: ownReads val t tr else ownReads val t tr

section
omit [DecidableEq L] [DecidableEq C]
variable {val : List (T × E) → V} {t : T}

theorem mem_ownLabels {e : E} {tr : List (T × E)} : e ∈ ownLabels t tr ↔ (t, e) ∈ tr := by
  constructor
  · intro h
    obtain ⟨⟨u, e'⟩, hmem, hx⟩ := List.mem_filterMap.mp h
    simp only [Option.ite_none_right_eq_some] at hx
    obtain ⟨rfl, hx⟩ := hx
    cases hx
    exact hmem
  · exact fun h => List.mem_filterMap.mpr ⟨(t, e), h, if_pos rfl⟩

theorem ownLabels_append (as bs : List (T × E)) : ownLabels t (as ++ bs) = ownLabels t as ++ ownLabels t bs :=
  List.filterMap_append

theorem ownLabels_self (e : E) (tr : List (T × E)) : ownLabels t ((t, e) :: tr) = e :: ownLabels t tr :=
  List.filterMap_cons_some (if_pos rfl)

/-- an own label divides the history where it divides the labels -/
theorem ownLabels_split {tr : List (T × E)} {es fs : List E} {e : E} (h : ownLabels t tr = es ++ e :: fs) :
    ∃ as bs, tr = as ++ (t, e) :: bs ∧ ownLabels t as = es ∧ ownLabels t bs = fs := by
  obtain ⟨as, tr', rfl, has, htr'⟩ := List.filterMap_eq_append_iff.mp h
  obtain ⟨bs, ⟨u, e'⟩, cs, rfl, hbs, hx, hcs⟩ := List.filterMap_eq_cons_iff.mp htr'
  simp only [Option.ite_none_right_eq_some] at hx
  obtain ⟨rfl, hx⟩ := hx
  cases hx
  refine ⟨as ++ bs, cs, by rw [List.append_assoc], ?_, hcs⟩
  rw [ownLabels_append, show ownLabels u as = es from has,
    show ownLabels u bs = [] from List.filterMap_eq_nil_iff.mpr hbs, List.append_nil]

theorem ownLabels_nil {tr : List (T × E)} (h : ownLabels t tr = []) : ∀ x ∈ tr, x.1 ≠ t := by
  rintro ⟨u, e⟩ hx rfl
  have hmem := mem_ownLabels.mpr hx
  rw [h] at hmem
  cases hmem

/-- the labels of the own steps are the own labels -/
theorem Follows.labels [DecidableEq L] [DecidableEq C] {c₀ c : Config T L C E σ} {ss : List (Own C E σ)}
    (h : Follows t c₀ ss c) (htr : c₀.trace = []) : ss.filterMap Own.label = ownLabels t c.trace := by
  induction h with
  | refl =>
    rw [htr]
    rfl
  | @own ss c₁ c' _ hs ih =>
    rw [List.filterMap_append, ih]
    obtain ⟨x, hss, htr'⟩ | ⟨hss, htr', -⟩ := ownStep_cases hs
    · rw [hss, htr']
      cases x with
      | none => rfl
      | some e => exact (ownLabels_self e _).symm
    · have hnone : (ownStep c₁ t).filterMap Own.label = [] := by
        refine List.filterMap_eq_nil_iff.mpr fun s hs' => ?_
        obtain ⟨v, rfl⟩ := hss s hs'
        rfl
      rw [htr', hnone]
      rfl
  | other _ hch hs ih =>
    rw [ih]
    obtain htr' | ⟨u, e, hu, htr'⟩ := step_other_trace hs hch
    · rw [htr']
    · rw [htr', ownLabels, ownLabels, List.filterMap_cons, if_neg hu]

/-- the newest entry of `t` is `e`, and `ys` the history before it -/
def Last (t : T) (e : E) (tr ys : List (T × E)) : Prop := ∃ xs, tr = xs ++ (t, e) :: ys ∧ ∀ x ∈ xs, x.1 ≠ t

theorem last_of_ownLabels {tr : List (T × E)} {e : E} {es : List E} (h : ownLabels t tr = e :: es) :
    ∃ ys, Last t e tr ys ∧ ownLabels t ys = es := by
  have hsplit : ownLabels t tr = [] ++ e :: es := h
  obtain ⟨xs, ys, rfl, hxs, hys⟩ := ownLabels_split hsplit
  exact ⟨ys, ⟨xs, rfl, ownLabels_nil hxs⟩, hys⟩

theorem ownReads_self (e : E) (tr : List (T × E)) :
    ownReads val t ((t, e) :: tr) = (e, val tr) :: ownReads val t tr := if_pos rfl

theorem ownReads_other {u : T} (h : u ≠ t) (e : E) (tr : List (T × E)) :
    ownReads val t ((u, e) :: tr) = ownReads val t tr := if_neg h

theorem ownReads_labels (val : List (T × E) → V) (t : T) (tr : List (T × E)) :
    (ownReads val t tr).map Prod.fst = ownLabels t tr := by
  induction tr with
  | nil => rfl
  | cons x tr ih =>
    obtain ⟨u, e⟩ := x
    by_cases hu : u = t
    · subst hu
      rw [ownReads_self, ownLabels_self, List.map_cons, ih]
    · rw [ownReads_other hu, ih, ownLabels, ownLabels, List.filterMap_cons, if_neg hu]

/-- what a stretch of a history adds -/
theorem ownReads_split (val : List (T × E) → V) (t : T) (as tr : List (T × E)) :
    ∃ gs, ownReads val t (as ++ tr) = gs ++ ownReads val t tr ∧ ∀ e, (t, e) ∈ as ↔ e ∈ gs.map Prod.fst := by
  induction as with
  | nil => exact ⟨[], rfl, fun e => by simp⟩
  | cons x as ih =>
    obtain ⟨u, e'⟩ := x
    obtain ⟨gs, hgs, hmem⟩ := ih
    by_cases hu : u = t
    · subst hu
      refine ⟨(e', val (as ++ tr)) :: gs, ?_, fun e => ?_⟩
      · rw [List.cons_append, ownReads_self, hgs, List.cons_append]
      · rw [List.mem_cons, List.map_cons, List.mem_cons, hmem e]
        simp
    · refine ⟨gs, ?_, fun e => ?_⟩
      · rw [List.cons_append, ownReads_other hu, hgs]
      · rw [List.mem_cons, hmem e]
        constructor
        · rintro (heq | h)
          · cases heq
            exact (hu rfl).elim
          · exact h
        · exact .inr

/-- the newest own entry lies after entries of the others -/
theorem ownReads_eq_cons {tr : List (T × E)} {e : E} {v : V} {g : List (E × V)}
    (h : ownReads val t tr = (e, v) :: g) : ∃ as bs, tr = as ++ (t, e) :: bs ∧ (∀ x ∈ as, x.1 ≠ t) ∧
      v = val bs ∧ ownReads val t bs = g := by
  induction tr with
  | nil => cases h
  | cons x tr ih =>
    obtain ⟨u, e'⟩ := x
    by_cases hu : u = t
    · subst hu
      rw [ownReads_self] at h
      cases h
      exact ⟨[], tr, rfl, nofun, rfl, rfl⟩
    · rw [ownReads_other hu] at h
      obtain ⟨as, bs, rfl, has, hv, hg⟩ := ih h
      exact ⟨(u, e') :: as, bs, rfl, List.forall_mem_cons.mpr ⟨hu, has⟩, hv, hg⟩

end

/-- the ghost is the list of the own labels so far, each with what its access saw -/
def reading (rd : σ → V) (R : σ → Prop) (A : List (E × V) → E → V → Prop) : Local C E σ where
  G := List (E × V)
  R _ m := R m
  A
    | g, .act m (some e) _ => A g e (rd m)
    | _, _ => True
  next
    | g, .act m (some e) _ => (e, rd m) :: g
    | g, _ => g

section
variable {rd : σ → V} {R : σ → Prop} {A : List (E × V) → E → V → Prop}

omit [DecidableEq T] [DecidableEq L] [DecidableEq C] in
variable (rd R A) in
theorem reading_wakes (g : List (E × V)) {ss : List (Own C E σ)} (h : ∀ s ∈ ss, ∃ v, s = .wake v)
    (xs : List (Own C E σ)) : (reading rd R A).after g (ss ++ xs) = (reading rd R A).after g xs ∧
      ((reading rd R A).Relies g xs → (reading rd R A).Relies g (ss ++ xs)) := by
  induction ss with
  | nil => exact ⟨rfl, id⟩
  | cons s ss ih =>
    obtain ⟨hafter, hrel⟩ := ih fun s' hs' => h s' (List.mem_cons_of_mem _ hs')
    obtain ⟨v, rfl⟩ := h s List.mem_cons_self
    exact ⟨hafter, fun hx => ⟨hrel hx, nofun⟩⟩

/-- every own entry of a run gives what the thread promises for what it has seen -/
theorem Reach.reads {t : T} {c₀ c : Config T L C E σ} (hr : Reach c₀ c) (val : List (T × E) → V)
    (htr : c₀.trace = []) (hval : ∀ c', Reach c₀ c' → R c'.mem ∧ rd c'.mem = val c'.trace)
    (hp : along (reading rd R A) (c₀.thr t) (fun _ _ => True) []) {as bs : List (T × E)} {e : E}
    (hsplit : c.trace = as ++ (t, e) :: bs) : A (ownReads val t bs) e (val bs) := by
  have hinv : (∃ ss, Follows t c₀ ss c ∧ (reading (C := C) rd R A).Relies [] ss ∧
      (reading (C := C) rd R A).after [] ss = ownReads val t c.trace) ∧
      ∀ as e bs, c.trace = as ++ (t, e) :: bs → A (ownReads val t bs) e (val bs) := by
    clear hsplit as bs e
    induction hr with
    | refl =>
      refine ⟨⟨[], .refl, trivial, ?_⟩, fun as e bs h => ?_⟩
      · rw [htr]
        rfl
      · rw [htr] at h
        exact (List.append_ne_nil_of_right_ne_nil _ (List.cons_ne_nil _ _) h.symm).elim
    | @step c₁ c' ch hr hs ih =>
      obtain ⟨⟨ss, hf, hrel, hafter⟩, hgiven⟩ := ih
      obtain ⟨hR, hrd⟩ := hval c₁ hr
      by_cases hch : ch = .run t
      · subst hch
        obtain ⟨x, hss, htr'⟩ | ⟨hss, htr', -⟩ := ownStep_cases hs
        · have hrel' : (reading (C := C) rd R A).Relies [] (ownStep c₁ t ++ ss) := by
            rw [hss]
            refine ⟨hrel, ?_⟩
            rintro m x' m' heq
            cases heq
            exact hR
          have hgives := (hf.own hs).gives hp hrel'
          rw [hss] at hgives
          have hlast : (reading (C := C) rd R A).A ((reading (C := C) rd R A).after [] ss) (.act c₁.mem x c'.mem) :=
            hgives.2
          rw [hafter] at hlast
          refine ⟨⟨_, hf.own hs, hrel', ?_⟩, ?_⟩
          · rw [hss, htr']
            show (reading (C := C) rd R A).next ((reading (C := C) rd R A).after [] ss) (.act c₁.mem x c'.mem) = _
            rw [hafter]
            cases x with
            | none => rfl
            | some e =>
              show (e, rd c₁.mem) :: ownReads val t c₁.trace = ownReads val t ((t, e) :: c₁.trace)
              rw [ownReads_self, hrd]
          · intro as e bs h
            rw [htr'] at h
            cases x with
            | none => exact hgiven as e bs h
            | some e' =>
              obtain ⟨rfl, heq⟩ | ⟨as', rfl, h'⟩ := List.cons_eq_append_iff.mp h
              · cases heq
                rw [← hrd]
                exact hlast
              · exact hgiven as' e bs h'
        · obtain ⟨hwakes, hrel'⟩ := reading_wakes rd R A [] hss ss
          refine ⟨⟨_, hf.own hs, hrel' hrel, ?_⟩, ?_⟩
          · rw [hwakes, htr']
            exact hafter
          · rw [htr']
            exact hgiven
      · obtain htr' | ⟨u, e', hu, htr'⟩ := step_other_trace hs hch
        · rw [htr']
          exact ⟨⟨ss, hf.other hch hs, hrel, hafter⟩, hgiven⟩
        · refine ⟨⟨ss, hf.other hch hs, hrel, ?_⟩, ?_⟩
          · rw [htr', ownReads_other hu]
            exact hafter
          · intro as e bs h
            rw [htr'] at h
            obtain ⟨rfl, heq⟩ | ⟨as', rfl, h'⟩ := List.cons_eq_append_iff.mp h
            · cases heq
              exact (hu rfl).elim
            · exact hgiven as' e bs h'
  exact hinv.2 as e bs hsplit

end

end Threads
