import RaspikeArt.Devices.Types
import RaspikeArt.Protocol.Correlation
import RaspikeArt.Transport.Device

/-!
# Device types, part 3: one type for a port

* `Uncleared i a b`     a run from `a` to `b` that never takes a recorded type away;
* `typeOf_step`         a step keeps the recorded type, or clears it;
* `acknowledged`        the configurations of a port that were acknowledged;
* `seeing`              the types a thread has seen recorded since it made its call;
* `one_device_type`     in such a run one type is recorded at most, one configuration acknowledged,
                        and who gets the handle has seen its own type recorded.
-/

set_option linter.unusedSectionVars false

namespace RaspikeArt
open Threads

variable {T : Type} [DecidableEq T] {i : Port} {m : Mem} {calls : T → List Call}

/-- a run that never takes a recorded type away -/
inductive Uncleared (i : Port) (a : Sys T) : Sys T → Prop where
  | refl : Uncleared i a a
  | step {c c' : Sys T} {ch : Choice T} (h : Uncleared i a c) (hs : step c ch = some c')
      (hkeep : c.mem.typeOf i ≠ 0 → c'.mem.typeOf i ≠ 0) : Uncleared i a c'

theorem Uncleared.reach {a b : Sys T} (h : Uncleared i a b) : Reach a b := by
  induction h with
  | refl => exact .refl
  | step _ hs _ ih => exact ih.step hs

theorem Uncleared.of_via {a b : Sys T} (h : Via (fun w => w.mem.typeOf i ≠ 0) a b) : Uncleared i a b := by
  induction h with
  | refl => exact .refl
  | step _ hs hK ih => exact ih.step hs fun _ => hK

/-- every `pup_*_get_device` is one of the four -/
def PupDevices (calls : T → List Call) : Prop := ∀ t, ∀ c ∈ calls t, c.IsPup

/-! ## the configurations -/

/-- the configurations of a port that were acknowledged to their callers -/
def acknowledged (i : Port) (tr : Trace T) : Nat := (configsOf i 0 tr).count

theorem configsOf_same (i : Port) (ty ty' : Byte) (tr : Trace T) :
    (configsOf i ty tr).count = (configsOf i ty' tr).count ∧
      (configsOf i ty tr).who = (configsOf i ty' tr).who := by
  induction tr with
  | nil => exact ⟨rfl, rfl⟩
  | cons x tr ih =>
    obtain ⟨t, e⟩ := x
    show ((configsOf i ty tr).next i t e).count = ((configsOf i ty' tr).next i t e).count ∧
      ((configsOf i ty tr).next i t e).who = ((configsOf i ty' tr).next i t e).who
    cases e with
    | configure j | configured j =>
      simp only [Configs.next]
      split
      · exact ⟨ih.1, rfl⟩
      · exact ih
    | finish j cmd s completed b r =>
      simp only [Configs.next, ih.2]
      split
      · exact ⟨congrArg (· + 1) ih.1, rfl⟩
      · exact ih
    | _ => exact ih

theorem count_eq (i : Port) (ty : Byte) (tr : Trace T) : (configsOf i ty tr).count = acknowledged i tr :=
  (configsOf_same i ty 0 tr).1

theorem acknowledged_cons (i : Port) (a : T × Event) (tr : Trace T) :
    acknowledged i tr ≤ acknowledged i (a :: tr) := by
  show (configsOf i 0 tr).count ≤ ((configsOf i 0 tr).next i a.1 a.2).count
  rcases Configs.next_count (i := i) (a := configsOf i 0 tr) (t := a.1) (e := a.2) with ⟨h, -⟩ | ⟨h, -⟩
  all_goals omega

/-- in a run the invariant holds for every bound that the run respects -/
theorem sectioned (hp : PupDevices calls) {n : Nat} {c : Sys T}
    (hv : Via (vacantAfter i (m.typeOf i) n) (start m calls) c) :
    ∃ gs, Sectioned i (m.typeOf i) n c.toWorld gs := by
  have hstart : (sectionLogic T i (m.typeOf i) n).Holds (start m calls) fun _ => .out := by
    constructor
    · show Sectioned i (m.typeOf i) n (start m calls).toWorld fun _ => Section.out
      refine ⟨trivial, fun _ h => (h rfl).elim, fun _ => ?_, fun _ => nofun, fun _ => nofun,
        fun _ => nofun, fun _ _ => nofun, fun _ => rfl, fun h => ?_⟩
      · exact ⟨nofun, nofun⟩
      · cases h
    · exact fun t => wp_mono (fun _ _ _ => trivial) (client_section (hp t))
  obtain ⟨gs, hI, -⟩ := (sectionLogic T i (m.typeOf i) n).reach hstart hv
  exact ⟨gs, hI⟩

theorem via_of_le {n : Nat} {c : Sys T} (hr : Reach (start m calls) c) (hn : acknowledged i c.trace ≤ n) :
    Via (vacantAfter i (m.typeOf i) n) (start m calls) c := by
  have htail : ∀ (a : T × Event) tr, acknowledged i (a :: tr) ≤ n → acknowledged i tr ≤ n := fun a tr h =>
    (acknowledged_cons i a tr).trans h
  refine (hr.via (K := fun tr => acknowledged i tr ≤ n) htail hn).mono fun w hw hcount => ?_
  rw [count_eq] at hcount
  omega

/-- a step adds an acknowledgement only where a thread has asked for one, and the port is free -/
theorem acknowledged_step (hp : PupDevices calls) {n : Nat} {c c' : Sys T} {ch : Choice T}
    (hs : step c ch = some c') (hv : Via (vacantAfter i (m.typeOf i) n) (start m calls) c)
    (hv' : Via (vacantAfter i (m.typeOf i) n) (start m calls) c') :
    acknowledged i c'.trace = acknowledged i c.trace ∧
        (configsOf i (m.typeOf i) c'.trace).last = (configsOf i (m.typeOf i) c.trace).last ∨
      acknowledged i c'.trace = acknowledged i c.trace + 1 ∧ c.mem.typeOf i = 0 ∧
        acknowledged i c.trace ≠ n + 1 := by
  obtain ⟨gs, hI⟩ := sectioned hp hv
  obtain ⟨gs', hI'⟩ := sectioned hp hv'
  obtain htr | ⟨⟨t, e⟩, htr⟩ := step_trace hs
  · rw [htr]
    exact .inl ⟨rfl, rfl⟩
  have hlegal := hI'.legal
  rw [← count_eq i (m.typeOf i), ← count_eq i (m.typeOf i)]
  rw [htr] at hlegal ⊢
  obtain ⟨hcount, hlast⟩ | ⟨hcount, hwho, hok⟩ :=
    Configs.next_count (i := i) (a := configsOf i (m.typeOf i) c.trace) (t := t) (e := e)
  · exact .inl ⟨hcount, hlast⟩
  right
  have hconf : (gs t).configures := (hI.who t).mp hwho
  have hacked : (configsOf i (m.typeOf i) c.trace).acked = false := hok hlegal.1
  have hno : ∀ u, (gs u).isAcked = false := by
    intro u
    by_contra hu
    have := hI.acked u (by simpa using hu)
    rw [hacked] at this
    cases this
  have hasked : gs t = .asked := by
    cases hg : gs t with
    | asked => rfl
    | acked ty' | recorded =>
      have := hno t
      rw [hg] at this
      cases this
    | out | held | vacant =>
      rw [hg] at hconf
      cases hconf
  refine ⟨hcount, hI.free t (by rw [hasked]; rfl), fun hn => ?_⟩
  obtain ⟨u, ty', hu⟩ := hI.beyond hn
  have := hno u
  rw [hu] at this
  cases this

/-- a step keeps the recorded type, or clears it -/
theorem typeOf_step (hp : PupDevices calls) {c c' : Sys T} {ch : Choice T}
    (hr : Reach (start m calls) c) (hs : step c ch = some c') (h : c.mem.typeOf i ≠ 0)
    (h' : c'.mem.typeOf i ≠ 0) :
    c'.mem.typeOf i = c.mem.typeOf i ∧ acknowledged i c'.trace = acknowledged i c.trace := by
  have hmono : acknowledged i c.trace ≤ acknowledged i c'.trace := by
    obtain htr | ⟨a, htr⟩ := step_trace hs
    · rw [htr]
    · rw [htr]
      exact acknowledged_cons i a _
  have hv := via_of_le (i := i) hr hmono
  have hv' := via_of_le (i := i) (hr.step hs) (le_refl (acknowledged i c'.trace))
  obtain ⟨gs, hI⟩ := sectioned hp hv
  obtain ⟨gs', hI'⟩ := sectioned hp hv'
  obtain ⟨hcount, hlast⟩ | ⟨-, hzero, -⟩ := acknowledged_step hp hs hv hv'
  · exact ⟨(hI'.type h').trans (hlast.trans (hI.type h).symm), hcount⟩
  · exact (h hzero).elim

theorem Uncleared.same_type (hp : PupDevices calls) {a b : Sys T} (ha : Reach (start m calls) a)
    (h : Uncleared i a b) (hne : a.mem.typeOf i ≠ 0) : b.mem.typeOf i = a.mem.typeOf i := by
  induction h with
  | refl => rfl
  | @step c c' ch h hs hkeep ih =>
    have hc : c.mem.typeOf i ≠ 0 := ih ▸ hne
    exact (typeOf_step hp (ha.trans h.reach) hs hc (hkeep hc)).1.trans ih

theorem Uncleared.acknowledged_le (hp : PupDevices calls) {a b : Sys T} (ha : Reach (start m calls) a)
    (h : Uncleared i a b) : acknowledged i b.trace ≤ acknowledged i a.trace + 1 := by
  -- until a type is recorded, the run respects the bound of its start
  have hrun : acknowledged i b.trace ≤ acknowledged i a.trace + 1 ∧ (b.mem.typeOf i = 0 →
      Via (vacantAfter i (m.typeOf i) (acknowledged i a.trace)) (start m calls) b) := by
    induction h with
    | refl => exact ⟨Nat.le_succ _, fun _ => via_of_le ha (le_refl _)⟩
    | @step c c' ch h hs hkeep ih =>
      obtain ⟨hle, hv⟩ := ih
      by_cases hc : c.mem.typeOf i = 0
      case neg =>
        have hstep := typeOf_step hp (ha.trans h.reach) hs hc (hkeep hc)
        exact ⟨hstep.2 ▸ hle, fun hzero => (hkeep hc hzero).elim⟩
      have hbound : acknowledged i c'.trace ≤ acknowledged i a.trace + 1 := by
        by_contra hgt
        have hv' : Via (vacantAfter i (m.typeOf i) (acknowledged i a.trace)) (start m calls) c' := by
          refine (hv hc).step hs fun hcount => ?_
          rw [count_eq] at hcount
          omega
        obtain ⟨hcount, -⟩ | ⟨hcount, -, hne⟩ := acknowledged_step hp hs (hv hc) hv'
        · omega
        · omega
      exact ⟨hbound, fun hzero => (hv hc).step hs fun _ => hzero⟩
  exact hrun.1

/-! ## who gets the handle -/

/-- the types that the thread has seen recorded for the port since it made its call -/
def seeing (i : Port) : Local CondVar Event Mem where
  G := Byte → Prop
  R := fun _ _ => True
  A := fun g s => ∀ fgDeviceType port,
    s.label = some (.returned (.getDevice fgDeviceType port) (.handle (some i))) → g fgDeviceType
  next := fun g s => match s with
    | .act _ x m' => fun ty => m'.typeOf i = ty ∨ (∀ c, x ≠ some (.call c)) ∧ g ty
    | .wake _ => g

section
variable {α : Type} {g : (seeing i).G} {fgDeviceType : Byte}

/-- a function that does not come back from a call -/
theorem does_seeing {p : P α} (hp : Does {k | k ≠ .call} Set.univ p) :
    along (seeing i) p (fun _ _ => True) g := by
  apply along_all (P := fun _ => True) ?_ ?_ hp Prog.Wakes.trivial Prog.Yields.trivial trivial
    fun _ _ _ h => h
  · intro e f g m hacc _ _
    refine ⟨fun ty port hlabel => ?_, trivial⟩
    obtain ⟨k, hk, hstep⟩ := hacc m
    have hkind : Kind.call = k := hstep.label _ hlabel
    exact (hk hkind.symm).elim
  · exact fun _ _ _ _ => ⟨nofun, trivial⟩

/-- an access that is no API label keeps what has been seen -/
theorem act_seeing {e : Mem → Option Event} {f : Mem → α × Mem} {Q : α → (seeing i).G → Prop}
    (he : ∀ m x, e m = some x → x.kind ≠ .call)
    (hQ : ∀ m (g' : Byte → Prop), (∀ ty, g ty → g' ty) → g' ((f m).2.typeOf i) → Q (f m).1 g') :
    along (seeing i) (.act e f .ret : P α) Q g := by
  apply along_act
  intro m _
  constructor
  · intro ty port hlabel
    exact (he m _ hlabel rfl).elim
  · refine hQ m _ (fun ty h => .inr ⟨fun c hc => ?_, h⟩) (.inl rfl)
    exact he m _ hc rfl

theorem request_seeing (port cmd : Byte) (data : Buf) (size : Int) :
    along (seeing i) (raspikeRequest port cmd data size) (fun _ _ => True) g := by
  apply does_seeing
  apply raspikeRequest_all _ (Set.subset_univ _)
  rintro k hk rfl
  exact hk

theorem getDeviceCommon_seeing (fgDeviceType port : Byte) :
    along (seeing i) (getDeviceCommon fgDeviceType port) (fun r g' => r = some i → g' fgDeviceType) g := by
  unfold getDeviceCommon
  dsimp only
  split
  · rintro ⟨⟩
  cases getDevice (port - 65) with
  | none => rintro ⟨⟩
  | some j =>
  apply along_seq (along_lock (Q := fun _ _ => True) trivial)
  intro _ g _
  -- the type that is looked at has been seen
  apply along_seq (B := fun current (g' : Byte → Prop) => j = i → g' current)
  · apply act_seeing
    · exact fun _ _ h => by cases h
    · rintro m g' - hseen rfl
      exact hseen
  intro current g hg
  split
  case isTrue h => exact fun hj => h ▸ hg (Option.some.inj hj)
  split
  · rintro ⟨⟩
  apply along_seq (does_seeing (Does.tick (k := .config) (by simp) rfl (fun _ => rfl) fun _ => rfl))
  intro _ g _
  apply along_seq (request_seeing _ _ _ _)
  intro configResult g _
  split
  · apply along_seq (does_seeing (Does.tick (k := .config) (by simp) rfl (fun _ => rfl) fun _ => rfl))
    exact fun _ _ _ => by rintro ⟨⟩
  -- it is recorded
  apply along_seq (B := fun _ (g' : Byte → Prop) => j = i → g' fgDeviceType)
  · apply act_seeing
    · exact fun _ _ h => by cases h
    · rintro m g' - hseen rfl
      have hrecord : (m.setPort j fun d =>
          { d with device := { d.device with deviceType := fgDeviceType } }).typeOf j = fgDeviceType := by
        simp [Mem.typeOf, Mem.setPort]
      exact hrecord ▸ hseen
  intro _ g hg
  apply along_seq (B := fun _ (g' : Byte → Prop) => j = i → g' fgDeviceType)
  · apply act_seeing
    · exact fun _ _ h => by cases h
    · exact fun m g' hkeep _ hj => hkeep _ (hg hj)
  intro _ g hg
  apply along_seq (B := fun _ (g' : Byte → Prop) => j = i → g' fgDeviceType)
  · apply act_seeing
    · rintro _ _ h
      cases h
      rintro ⟨⟩
    · exact fun m g' hkeep _ hj => hkeep _ (hg hj)
  intro _ g hg
  exact fun hj => hg (Option.some.inj hj)

/-- no call ends inside another -/
theorem body_seeing (c : Call) : along (seeing i) c.body (fun _ _ => True) g := by
  have hk : ∀ {k : Kind}, k ≠ .call → k ∈ ({k | k ≠ .call} : Set Kind) := fun h => h
  have hq : Kind.quiet ∈ ({k | k ≠ .call} : Set Kind) := by simp
  have hother : (∀ desc, c ≠ .init desc) → c ≠ .shutdown →
      along (seeing i) c.body (fun _ _ => True) g := by
    intro hinit hshutdown
    apply does_seeing
    apply body_all ?_ (Set.subset_univ _) ?_ (Set.subset_univ _) ?_ (Set.subset_univ _)
      (fun _ => hk (by simp)) (hk (by simp)) (Set.mem_univ _) hinit hshutdown
    · rintro k hmem rfl
      exact hmem
    · rintro k hmem rfl
      simp [deviceKinds] at hmem
    · rintro k hmem rfl
      simp [commandKinds] at hmem
  cases c with
  | init desc =>
    have hF : Passes (fun _ p => ∀ g, along (seeing i) p (fun _ _ => True) g) {k | k ≠ .call} Set.univ :=
      ⟨fun _ _ => trivial, fun hp hq g => along_seq (hp g) fun _ g' _ => hq _ g', fun hp _ => does_seeing hp⟩
    refine along_seq (B := fun _ _ => True) ?_ fun _ _ _ => trivial
    refine raspikeProtInit_passes ?_ (Set.subset_univ _) hF (fun _ _ => hF.does ?_) (fun _ => hF.does ?_)
      (hF.does ?_) (fun b => hF.does (setUseV2_all (hk (by simp)) b))
      (fun s => hF.does (setSession_all (hk (by simp)) s)) ?_ desc g
    · rintro k hmem rfl
      exact hmem
    · exact raspikeComSend_all hq (fun _ _ => hk (by simp)) (Set.mem_univ _) _
    · exact raspikeComFlush_all hq (fun _ _ => hk (by simp)) (Set.mem_univ _)
    · exact initPorts_all hq (hk (by simp)) (hk (by simp)) (hk (by simp)) (fun _ => Set.mem_univ _)
        fun _ => Set.mem_univ _
    · intro g
      apply act_seeing
      · exact fun _ _ h => by cases h
      · exact fun _ _ _ _ => trivial
  | shutdown =>
    refine along_seq (does_seeing ?_) fun _ _ _ => trivial
    apply raspikeProtShutdown_all ?_ (Set.subset_univ _) fun _ => hk (by simp)
    rintro k hmem rfl
    simp [shutdownKinds] at hmem
  | _ => exact hother (by simp) (by simp)

theorem client_seeing (cs : List Call) : along (seeing i) (client cs) (fun _ _ => True) g := by
  apply along_forEach (fun _ _ => True) trivial ?_ fun _ _ => trivial
  intro c is g _
  apply along_seq (B := fun _ _ => True)
  · apply along_act
    exact fun m _ => ⟨nofun, trivial⟩
  intro _ g _
  have hbody : along (seeing i) c.body (fun r g' => ∀ fgDeviceType port,
      c = .getDevice fgDeviceType port → r = .handle (some i) → g' fgDeviceType) g := by
    cases c with
    | getDevice fgDeviceType port =>
      apply along_seq (getDeviceCommon_seeing fgDeviceType port)
      intro r g' h ty port' hc hr
      cases hc
      exact h (Ret.handle.inj hr)
    | _ => exact along_mono (fun _ _ _ => nofun) (body_seeing _)
  apply along_seq hbody
  intro r g' h
  apply along_act
  refine fun m _ => ⟨fun fgDeviceType port hlabel => ?_, trivial⟩
  cases hlabel
  exact h fgDeviceType port rfl rfl

end

/-- what has been seen was recorded, after the thread last made a call -/
theorem seen_recorded {t : T} {c₀ c : Sys T} {ss : List OwnStep} (h : Follows t c₀ ss c) {ty : Byte}
    (hseen : (seeing i).after (fun _ => False) ss ty) :
    ∃ d, Reach c₀ d ∧ Reach d c ∧ d.mem.typeOf i = ty ∧
      ∃ xs, c.trace = xs ++ d.trace ∧ ∀ x ∈ xs, x.1 = t → ∀ call, x.2 ≠ .call call := by
  induction h with
  | refl => exact hseen.elim
  | @own ss c₁ c' hf hs ih =>
    have hreach := hf.reach
    obtain ⟨x, hown, htr⟩ | ⟨hwake, htr, hmem⟩ := ownStep_cases hs
    · rw [hown] at hseen
      obtain hnow | ⟨hx, hbefore⟩ := hseen
      · exact ⟨c', hreach.step hs, .refl, hnow, [], rfl, nofun⟩
      obtain ⟨d, h₁, h₂, hty, xs, hxs, hall⟩ := ih hbefore
      refine ⟨d, h₁, h₂.step hs, hty, ?_⟩
      cases x with
      | none => exact ⟨xs, htr.trans hxs, hall⟩
      | some e =>
        refine ⟨(t, e) :: xs, htr.trans (congrArg ((t, e) :: ·) hxs), ?_⟩
        intro y hy hyt call
        obtain rfl | hy := List.mem_cons.mp hy
        · exact fun he => hx call (congrArg some he)
        · exact hall y hy hyt call
    · have hsame : (seeing i).after (fun _ => False) (ownStep c₁ t ++ ss) =
          (seeing i).after (fun _ => False) ss := by
        cases hown : ownStep c₁ t with
        | nil => rfl
        | cons s rest =>
          have hrest : rest = [] ∧ ∃ v, s = .wake v := by
            refine ⟨?_, hwake s (hown ▸ List.mem_cons_self)⟩
            rw [ownStep] at hown
            split at hown <;> cases hown <;> rfl
          obtain ⟨rfl, v, rfl⟩ := hrest
          rfl
      rw [hsame] at hseen
      obtain ⟨d, h₁, h₂, hty, xs, hxs, hall⟩ := ih hseen
      exact ⟨d, h₁, h₂.step hs, hty, xs, htr.trans hxs, hall⟩
  | @other ss c₁ c' ch hf hch hs ih =>
    obtain ⟨d, h₁, h₂, hty, xs, hxs, hall⟩ := ih hseen
    refine ⟨d, h₁, h₂.step hs, hty, ?_⟩
    obtain htr | ⟨u, e, hu, htr⟩ := step_other_trace hs hch
    · exact ⟨xs, htr.trans hxs, hall⟩
    · refine ⟨(u, e) :: xs, htr.trans (congrArg ((u, e) :: ·) hxs), ?_⟩
      intro y hy hyt call
      obtain rfl | hy := List.mem_cons.mp hy
      · exact (hu hyt).elim
      · exact hall y hy hyt call

/-- In the call of `t` that returns the handle of the port at `c`, the type `ty` of the call is the
recorded one at `d`. -/
structure Decided (i : Port) (t : T) (ty : Byte) (d c : Sys T) : Prop where
  reach : Reach d c
  type : d.mem.typeOf i = ty
  call : ∃ port xs, c.trace = (t, .returned (.getDevice ty port) (.handle (some i))) :: (xs ++ d.trace) ∧
    ∀ x ∈ xs, x.1 = t → ∀ call, x.2 ≠ .call call

/-- **One device type.**  Who gets the handle of a port has seen its own type recorded for it during
the call; as long as no recorded type is cleared, all such calls are of one type, and one
configuration of the port is acknowledged at most. -/
theorem one_device_type (hp : PupDevices calls) (i : Port) :
    (∀ (c c' : Sys T) (t : T) (ty port : Byte), Reach (start m calls) c → step c (.run t) = some c' →
      c'.trace = (t, .returned (.getDevice ty port) (.handle (some i))) :: c.trace →
      ∃ d, Reach (start m calls) d ∧ Decided i t ty d c') ∧
    ∀ a b : Sys T, Reach (start m calls) a → Uncleared i a b →
      (∀ t u ty ty' c c', ty ∈ deviceTypes → Decided i t ty a c → Decided i u ty' b c' → ty = ty') ∧
      (a.mem.typeOf i ≠ 0 → b.mem.typeOf i = a.mem.typeOf i) ∧
      acknowledged i b.trace ≤ acknowledged i a.trace + 1 := by
  constructor
  · intro c c' t ty port hr hs htr
    obtain ⟨ss, hf⟩ := hr.follows t
    obtain ⟨x, hown, htr'⟩ | ⟨-, htr', -⟩ := ownStep_cases hs
    · have hx : x = some (.returned (.getDevice ty port) (.handle (some i))) := by
        rw [htr] at htr'
        cases x with
        | none => exact (List.cons_ne_self _ _ htr').elim
        | some e => exact congrArg some (Prod.mk.inj (List.cons.inj htr').1).2.symm
      have hrelies : ∀ xs, (seeing i).Relies (fun _ => False) xs := by
        intro xs
        induction xs with
        | nil => trivial
        | cons y ys ih => exact ⟨ih, fun _ _ _ _ => trivial⟩
      have hgives := (hf.own hs).gives (client_seeing (calls t)) (hrelies _)
      rw [hown] at hgives
      have hseen := hgives.2 ty port hx
      obtain ⟨d, h₁, h₂, hty, xs, hxs, hall⟩ := seen_recorded hf hseen
      exact ⟨d, h₁, h₂.step hs, hty, port, xs, hxs ▸ htr, hall⟩
    · rw [htr] at htr'
      exact (List.cons_ne_self _ _ htr').elim
  · intro a b ha h
    refine ⟨fun t u ty ty' c c' hty hd hd' => ?_, h.same_type hp ha, h.acknowledged_le hp ha⟩
    have hne : a.mem.typeOf i ≠ 0 := hd.type ▸ deviceTypes_ne_zero ty hty
    exact hd.type.symm.trans ((h.same_type hp ha hne).symm.trans hd'.type)

/-! ## a handle that is returned late -/

/-- a first connection, whose device acknowledges a motor, and a second one, which acknowledges a
color sensor -/
def meetingMem : Mem :=
  { freshMem [] [] with com := { (freshMem [] []).com with desc := fun d =>
      if d = 0 then ⟨rpComTypeUsb, 3, [.data (ackFrame 0 1 freshSession 96 1)], [], [], []⟩
      else ⟨rpComTypeUsb, 4, [.data ([rpCmdInit, rpCmdInitMagic, 0, 8, 4] ++
        legacyFrame rpPortNone rpCmdIdLinkHello
          [rpV2Version, rpV2CapFraming, 136, 0, 9, 0, 0, 0, 0, 0, 0, 0] ++
        ackFrame 0 1 9 32 1)], [], [], []⟩ } }

/-- a motor and, after a new connection, a color sensor, both on port A -/
def meetingCalls : Fin 3 → List Call
  | 0 => [.getDevice rpCmdTypeMotor 65]
  | 1 => [.shutdown, .init (some 1), .getDevice rpCmdTypeColor 65]
  | 2 => [.receive, .receive]

theorem meetingCalls_pup : PupDevices meetingCalls := by
  intro t c hc
  match t, hc with
  | 0, hc => simp_all [meetingCalls, Call.IsPup, deviceTypes]
  | 1, hc =>
    simp only [meetingCalls, List.mem_cons, List.not_mem_nil, or_false] at hc
    rcases hc with rfl | rfl | rfl
    · trivial
    · trivial
    · simp [Call.IsPup, deviceTypes]
  | 2, hc => simp_all [meetingCalls, Call.IsPup]

/-- until the color sensor is recorded; the call for the motor has its handle since long -/
def meetingRun : List (Choice (Fin 3)) :=
  steps 49 0 ++ steps 57 2 ++ steps 16 0 ++ steps 284 1 ++ steps 57 2 ++ steps 13 1

/-- and both handles are returned -/
def meetingEnd : List (Choice (Fin 3)) := steps 4 1 ++ steps 1 0

theorem meeting_ends : ∃ a b : Sys (Fin 3), exec (start meetingMem meetingCalls) meetingRun = some a ∧
    Via (fun w => w.mem.typeOf 0 ≠ 0) a b ∧ a.mem.typeOf 0 = rpCmdTypeColor ∧
    ∃ tr, b.trace = (0, .returned (.getDevice rpCmdTypeMotor 65) (.handle (some 0))) ::
      (1, .returned (.getDevice rpCmdTypeColor 65) (.handle (some 0))) :: (tr ++ a.trace) := by
  obtain ⟨a, ha⟩ : ∃ a, exec (start meetingMem meetingCalls) meetingRun = some a :=
    Option.isSome_iff_exists.mp (by decide +kernel)
  have hrun : ∀ a ∈ exec (start meetingMem meetingCalls) meetingRun, a.mem.typeOf 0 = rpCmdTypeColor ∧
      ∃ b ∈ execIf (fun w => decide (w.mem.typeOf 0 ≠ 0)) a meetingEnd, b.trace =
        (0, .returned (.getDevice rpCmdTypeMotor 65) (.handle (some 0))) ::
        (1, .returned (.getDevice rpCmdTypeColor 65) (.handle (some 0))) ::
        ([(1, .configured 0)] ++ a.trace) := by
    decide +kernel
  obtain ⟨hcolor, b, hb, htr⟩ := hrun a ha
  exact ⟨a, b, ha, Via.refl.execIf (fun w hw => of_decide_eq_true hw) meetingEnd hb, hcolor, _, htr⟩

theorem one_device_type_meeting : ∃ a b c d : Sys (Fin 3),
    exec (start meetingMem meetingCalls) meetingRun = some a ∧ a.mem.typeOf 0 ≠ 0 ∧
    b.mem.typeOf 0 = a.mem.typeOf 0 ∧ acknowledged 0 b.trace ≤ acknowledged 0 a.trace + 1 ∧
    Reach (start meetingMem meetingCalls) d ∧ Decided 0 0 rpCmdTypeMotor d c := by
  obtain ⟨a, b, ha, hvia, hcolor, -⟩ := meeting_ends
  have hne : a.mem.typeOf 0 ≠ 0 := hcolor ▸ show rpCmdTypeColor ≠ 0 by decide
  obtain ⟨hreturns, hperiod⟩ := one_device_type (m := meetingMem) meetingCalls_pup 0
  obtain ⟨-, htype, hack⟩ := hperiod a b (exec_reach ha) (.of_via hvia)
  obtain ⟨c, hc⟩ : ∃ c, exec (start meetingMem meetingCalls) (meetingRun ++ steps 4 1) = some c :=
    Option.isSome_iff_exists.mp (by decide +kernel)
  have hlast : ∀ c ∈ exec (start meetingMem meetingCalls) (meetingRun ++ steps 4 1),
      ∃ c' ∈ step c (.run 0), c'.trace =
        (0, .returned (.getDevice rpCmdTypeMotor 65) (.handle (some 0))) :: c.trace := by
    decide +kernel
  obtain ⟨c', hs, htr⟩ := hlast c hc
  obtain ⟨d, hd, hdecided⟩ := hreturns c c' 0 rpCmdTypeMotor 65 (exec_reach hc) hs htr
  exact ⟨a, b, c', d, ha, hne, htype hne, hack, hd, hdecided⟩

/-- A handle can be returned after the port has been cleared, and given to another type. -/
theorem returned_of_two_types : ¬ ∀ (T : Type) [DecidableEq T] (m : Mem) (calls : T → List Call) (i : Port),
    PupDevices calls → ∀ a b : Sys T, Reach (start m calls) a → Uncleared i a b →
    ∀ (t u : T) (ty ty' port port' : Byte) (xs : Trace T), b.trace = xs ++ a.trace →
      (t, .returned (.getDevice ty port) (.handle (some i))) ∈ xs →
      (u, .returned (.getDevice ty' port') (.handle (some i))) ∈ xs → ty = ty' := by
  intro h
  obtain ⟨a, b, ha, hvia, -, tr, htr⟩ := meeting_ends
  have hsame := h (Fin 3) meetingMem meetingCalls 0 meetingCalls_pup a b (exec_reach ha) (.of_via hvia)
    0 1 rpCmdTypeMotor rpCmdTypeColor 65 65 (_ :: _ :: tr) htr List.mem_cons_self
    (List.mem_cons_of_mem _ List.mem_cons_self)
  exact absurd hsame (by decide)

end RaspikeArt
