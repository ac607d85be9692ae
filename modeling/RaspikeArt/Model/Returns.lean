import RaspikeArt.Model.Calls
import RaspikeArt.Threads.Reads

/-!
# What a thread has seen when a call returns

* `AtCalls A`          a promise that is about the begin and the end of calls only;
* `sendFrame_reading`  the last that a send does is to leave its result;
* `request_reading`    so does a request, and a send that fails makes it fail;
* `client_reading`     a thread keeps a promise, if its calls do;
* `called`             a thread makes its own calls only;
* `returned_labels`      what a send or a request returns is what it has left last;
* `attempt_returned`   and a send that it makes ends before that.
-/

namespace RaspikeArt
open Threads

variable {V α : Type} {rd : Mem → V} {R : Mem → Prop} {A : List (Event × V) → Event → V → Prop}
  {g : List (Event × V)}

def AtCalls (A : List (Event × V) → Event → V → Prop) : Prop := ∀ g e v, e.kind ≠ .call → A g e v

/-- labels of the kinds `ks` have been added -/
def Adds (ks : Set Kind) (g g' : List (Event × V)) : Prop := ∃ qs, g' = qs ++ g ∧ ∀ q ∈ qs, q.1.kind ∈ ks

/-- a program of which only the kinds of its labels are said -/
theorem kinds_reading (hA : AtCalls A) {ks : Set Kind} (hks : Kind.call ∉ ks) {q : P α}
    (hq : Does ks Set.univ q) : along (reading rd R A) q (fun _ g' => Adds ks g g') g := by
  apply along_all (𝓛 := reading rd R A) (P := Adds ks g) ?_ ?_ hq Prog.Wakes.trivial Prog.Yields.trivial
    ⟨[], rfl, nofun⟩ fun _ _ _ h => h
  · intro e f g' m hacc hg' _
    obtain ⟨k, hk, hstep⟩ := hacc m
    show (reading rd R A).A g' (.act m (e m) (f m)) ∧ Adds ks g ((reading rd R A).next g' (.act m (e m) (f m)))
    cases hx : e m with
    | none => exact ⟨trivial, hg'⟩
    | some x =>
      obtain ⟨qs, rfl, hqs⟩ := hg'
      have hxk : x.kind ∈ ks := hstep.label x hx ▸ hk
      refine ⟨hA _ _ _ fun h => hks (h ▸ hxk), (x, rd m) :: qs, rfl, ?_⟩
      exact List.forall_mem_cons.mpr ⟨hxk, hqs⟩
  · exact fun _ _ _ hg' => ⟨trivial, hg'⟩

/-! ## what a send and a request leave -/

/-- the labels of a request between its first and its last -/
def attemptKinds : Set Kind
  | .quiet | .io _ | .send | .frame | .gaveUp => True
  | _ => False

/-- the labels of a send that holds its mutex -/
def lockedKinds : Set Kind
  | .quiet | .io _ | .frame => True
  | _ => False

/-- the kinds of what comes before a send or the mark of a request -/
def drawKinds : Set Kind := {.quiet, .seq}

theorem send_notMem_draw {e : Event} (h : e.kind ∈ drawKinds) : e.kind ≠ .send := by
  rcases h with h | h
  · rw [h]
    exact nofun
  · rw [h]
    exact nofun

/-- every send that has begun in these labels has ended there -/
def SendsEnd (es : List Event) : Prop := ∀ e₁ e₂, es = e₁ ++ .sendBegin :: e₂ → ∃ x, .sendEnd x ∈ e₁

theorem SendsEnd.of_notMem {es : List Event} (h : .sendBegin ∉ es) : SendsEnd es := by
  rintro e₁ e₂ rfl
  exact (h (List.mem_append_right _ List.mem_cons_self)).elim

theorem SendsEnd.append {es fs : List Event} (hes : SendsEnd es) (hfs : SendsEnd fs) : SendsEnd (es ++ fs) := by
  intro e₁ e₂ h
  obtain ⟨as, rfl, hfs'⟩ | ⟨bs, rfl, hbs⟩ := List.append_eq_append_iff.mp h
  · obtain ⟨x, hx⟩ := hfs as e₂ hfs'
    exact ⟨x, List.mem_append_right _ hx⟩
  · cases bs with
    | nil =>
      obtain ⟨x, hx⟩ := hfs [] e₂ hbs.symm
      cases hx
    | cons b bs =>
      cases hbs
      exact hes e₁ bs rfl

/-- the labels of some sends, newest first; `Failed` is what holds once one of them has failed -/
structure SendLabels (Failed : Int → Prop) (es : List Event) : Prop where
  kinds : ∀ e ∈ es, e.kind ∈ attemptKinds
  ends : SendsEnd es
  failed : ∀ x < 0, .sendEnd x ∈ es → Failed x

namespace SendLabels
variable {Failed : Int → Prop} {es fs : List Event}

theorem of_kinds (h : ∀ e ∈ es, e.kind ∈ attemptKinds ∧ e.kind ≠ .send) : SendLabels Failed es where
  kinds e he := (h e he).1
  ends := SendsEnd.of_notMem fun he => (h _ he).2 rfl
  failed _ _ he := ((h _ he).2 rfl).elim

theorem append (hes : SendLabels Failed es) (hfs : SendLabels Failed fs) : SendLabels Failed (es ++ fs) where
  kinds e he := (List.mem_append.mp he).elim (hes.kinds e) (hfs.kinds e)
  ends := hes.ends.append hfs.ends
  failed x hx he := (List.mem_append.mp he).elim (hes.failed x hx) (hfs.failed x hx)

theorem mono {Failed' : Int → Prop} (h : SendLabels Failed es) (hF : ∀ x < 0, Failed x → Failed' x) : SendLabels Failed' es :=
  ⟨h.kinds, h.ends, fun x hx he => hF x hx (h.failed x hx he)⟩

/-- one send: it ends with `r`, and leaves no other result -/
theorem one {r : Int} {mid : List Event} (hmid : ∀ e ∈ mid, e.kind ∈ lockedKinds ∨ e = .sendLocked) :
    SendLabels (· = r) (.sendEnd r :: (mid ++ [.sendBegin])) where
  kinds e he := by
    simp only [List.mem_cons, List.mem_append, List.mem_nil_iff, or_false] at he
    rcases he with rfl | he | rfl
    · exact trivial
    · rcases hmid e he with hk | rfl
      · cases hkind : e.kind <;> first
          | exact trivial
          | (rw [hkind] at hk; exact hk.elim)
      · exact trivial
    · exact trivial
  ends := by
    intro e₁ e₂ h
    cases e₁ with
    | nil => cases h
    | cons e e₁ =>
      obtain ⟨rfl, -⟩ := List.cons.inj h
      exact ⟨r, List.mem_cons_self⟩
  failed x _ he := by
    simp only [List.mem_cons, List.mem_append, List.mem_nil_iff, or_false] at he
    rcases he with heq | he | heq
    · cases heq
      rfl
    · rcases hmid _ he with hk | heq
      · exact hk.elim
      · cases heq
    · cases heq

end SendLabels

/-- the labels that have been added, newest first, are as `Φ` says -/
def Gained (Φ : List Event → Prop) (g g' : List (Event × V)) : Prop := ∃ qs, g' = qs ++ g ∧ Φ (qs.map Prod.fst)

theorem Gained.refl {Φ : List Event → Prop} (h : Φ []) : Gained Φ g g := ⟨[], rfl, h⟩

theorem Gained.mono {Φ Ψ : List Event → Prop} {g' : List (Event × V)} (h : Gained Φ g g') (hΦ : ∀ es, Φ es → Ψ es) :
    Gained Ψ g g' := by
  obtain ⟨qs, rfl, hqs⟩ := h
  exact ⟨qs, rfl, hΦ _ hqs⟩

theorem Gained.trans {Φ Ψ Θ : List Event → Prop} {g₁ g₂ : List (Event × V)} (h : Gained Φ g g₁) (h' : Gained Ψ g₁ g₂)
    (hΘ : ∀ es fs, Φ es → Ψ fs → Θ (fs ++ es)) : Gained Θ g g₂ := by
  obtain ⟨qs, rfl, hqs⟩ := h
  obtain ⟨rs, rfl, hrs⟩ := h'
  refine ⟨rs ++ qs, (List.append_assoc ..).symm, ?_⟩
  rw [List.map_append]
  exact hΘ _ _ hqs hrs

/-- after some sends come more -/
theorem Gained.sends {Failed Failed' : Int → Prop} {g₁ g₂ : List (Event × V)} (h : Gained (SendLabels Failed) g g₁)
    (h' : Gained (SendLabels Failed') g₁ g₂) (hF : ∀ x < 0, Failed x → Failed' x) : Gained (SendLabels Failed') g g₂ :=
  h.trans h' fun _ _ hes hfs => hfs.append (hes.mono hF)

theorem Adds.leaves {ks : Set Kind} {g' : List (Event × V)} (h : Adds ks g g') :
    Gained (fun es => ∀ e ∈ es, e.kind ∈ ks) g g' := by
  obtain ⟨qs, rfl, hqs⟩ := h
  refine ⟨qs, rfl, fun e he => ?_⟩
  obtain ⟨q, hq, rfl⟩ := List.mem_map.mp he
  exact hqs q hq

/-- a part of a request that sends nothing -/
theorem idle_reading (hA : AtCalls A) {ks : Set Kind} (hks : ∀ k ∈ ks, k ∈ attemptKinds ∧ k ≠ .send)
    {q : P α} (hq : Does ks Set.univ q) :
    along (reading rd R A) q (fun _ g' => Gained (SendLabels fun _ => False) g g') g := by
  apply along_mono _ (kinds_reading hA (fun h => (hks _ h).1) hq)
  intro _ g' h
  exact h.leaves.mono fun es hes => SendLabels.of_kinds fun e he => hks _ (hes e he)

theorem sendFrame_reading (hA : AtCalls A) (port cmd : Byte) (payload : Buf) (size : Int) (sequence : U32)
    (flags : Byte) (flushNow : Bool) :
    along (reading rd R A) (sendFrame port cmd payload size sequence flags flushNow) (fun r g' =>
      Gained (fun es => ∃ es', es = .sendEnd r :: es' ∧ .sendBegin ∈ es' ∧ SendLabels (· = r) es) g g') g := by
  have hcall : Kind.call ∉ lockedKinds := fun h => h
  have hq : Kind.quiet ∈ lockedKinds := trivial
  have hall : ∀ l, l ∈ (Set.univ : Set Mutex) := Set.mem_univ
  -- from the mutex on, and what a stretch leaves before the end of the send
  have hend : ∀ {r : Int} {g₁ : List (Event × V)} (v : V),
      Gained (fun es => ∃ mid, es = mid ++ [.sendBegin] ∧ ∀ e ∈ mid, e.kind ∈ lockedKinds ∨ e = .sendLocked) g g₁ →
      Gained (fun es => ∃ es', es = .sendEnd r :: es' ∧ .sendBegin ∈ es' ∧ SendLabels (· = r) es) g
        ((.sendEnd r, v) :: g₁) := by
    rintro r _ v ⟨qs, rfl, mid, hqs, hmid⟩
    refine ⟨(.sendEnd r, v) :: qs, rfl, mid ++ [.sendBegin], ?_, List.mem_append_right _ List.mem_cons_self, ?_⟩
    · rw [List.map_cons, hqs]
    · rw [List.map_cons, hqs]
      exact SendLabels.one hmid
  have hmore : ∀ {g₁ g₂ : List (Event × V)},
      Gained (fun es => ∃ mid, es = mid ++ [.sendBegin] ∧ ∀ e ∈ mid, e.kind ∈ lockedKinds ∨ e = .sendLocked) g g₁ →
      Adds lockedKinds g₁ g₂ →
      Gained (fun es => ∃ mid, es = mid ++ [.sendBegin] ∧ ∀ e ∈ mid, e.kind ∈ lockedKinds ∨ e = .sendLocked) g g₂ := by
    intro g₁ g₂ h h'
    refine h.trans h'.leaves ?_
    rintro _ fs ⟨mid, rfl, hmid⟩ hfs
    refine ⟨fs ++ mid, (List.append_assoc ..).symm, fun e he => ?_⟩
    exact (List.mem_append.mp he).elim (fun he => .inl (hfs e he)) (hmid e)
  apply along_bind
  apply along_act
  intro m₀ _
  refine ⟨hA _ .sendBegin _ nofun, ?_⟩
  apply along_bind
  apply along_lock
  apply along_bind
  apply along_act
  intro m₁ _
  refine ⟨hA _ .sendLocked _ nofun, ?_⟩
  have hlocked : Gained (fun es => ∃ mid, es = mid ++ [.sendBegin] ∧ ∀ e ∈ mid, e.kind ∈ lockedKinds ∨ e = .sendLocked)
      g ((.sendLocked, rd m₁) :: (.sendBegin, rd m₀) :: g) := by
    refine ⟨[(.sendLocked, rd m₁), (.sendBegin, rd m₀)], rfl, [.sendLocked], rfl, fun e he => ?_⟩
    exact .inr (List.mem_singleton.mp he)
  apply along_seq (kinds_reading hA hcall (Does.orElse (Does.load hq) (Does.load hq)))
  intro down g₁ hg₁
  split
  · apply along_bind
    apply along_unlock
    apply along_bind
    apply along_act
    intro m₂ _
    exact ⟨hA _ (.sendEnd _) _ nofun, hend _ (hmore hlocked hg₁)⟩
  apply along_seq (kinds_reading hA hcall
    (sendFrameLocked_all hq (fun _ => trivial) trivial (hall _) _ _ _ _ _ _ _))
  intro ret g₂ hg₂
  apply along_bind
  apply along_unlock
  apply along_seq (kinds_reading hA hcall (q := if ret ≥ 0 then statsIncrement .txFrames else pure ()) _)
  · intro _ g₃ hg₃
    apply along_bind
    apply along_act
    intro m₂ _
    exact ⟨hA _ (.sendEnd ret) _ nofun, hend _ (hmore (hmore (hmore hlocked hg₁) hg₂) hg₃)⟩
  · split
    · exact statsIncrement_all hq (hall _) _
    · exact Does.pure _

/-- the kinds of a part of a request that sends nothing -/
def idleKinds : Set Kind := {.quiet, .gaveUp}

theorem idleKinds_attempt {k : Kind} (h : k ∈ idleKinds) : k ∈ attemptKinds ∧ k ≠ .send := by
  rcases h with rfl | rfl
  · exact ⟨trivial, nofun⟩
  · exact ⟨trivial, nofun⟩

/-- once a send has failed, the attempts end with its result -/
theorem requestAttempts_reading (hA : AtCalls A) (i : Port) (port cmd : Byte) (data : Buf) (size : Int)
    (sequence : U32) (n : Nat) (result : Int) :
    along (reading rd R A) (requestAttempts i port cmd data size sequence n result) (fun w g' =>
      Gained (SendLabels fun x => w = (x, false)) g g') g := by
  have hq : Kind.quiet ∈ idleKinds := .inl rfl
  have hg : Kind.gaveUp ∈ idleKinds := .inr rfl
  have hall : ∀ l, l ∈ (Set.univ : Set Mutex) := Set.mem_univ
  have hnil : ∀ {Failed : Int → Prop}, SendLabels Failed [] := SendLabels.of_kinds nofun
  induction n generalizing result g with
  | zero => exact Gained.refl hnil
  | succ n ih =>
    apply along_bind
    apply along_lock
    apply along_seq (idle_reading hA (fun _ => idleKinds_attempt) (Does.load hq))
    intro stillPending g₁ hg₁
    apply along_bind
    apply along_unlock
    split
    · exact hg₁.mono fun es hes => hes.mono fun _ _ => False.elim
    apply along_seq (sendFrame_reading hA port cmd data size sequence _ _)
    intro sent g₂ hsent
    have hg₂ : Gained (SendLabels (· = sent)) g g₂ := by
      refine hg₁.trans hsent ?_
      rintro es fs hes ⟨-, -, -, hfs⟩
      exact hfs.append (hes.mono fun _ _ => False.elim)
    split
    case isTrue hneg =>
      apply along_bind
      apply along_act
      intro m _
      refine ⟨hA _ (.gaveUp i sequence sent) _ nofun, ?_⟩
      refine hg₂.sends ⟨[(.gaveUp i sequence sent, rd m)], rfl, ?_⟩ ?_
      · exact SendLabels.of_kinds fun e he => by
          rw [List.mem_singleton.mp he]
          exact ⟨trivial, nofun⟩
      · rintro x - rfl
        rfl
    case isFalse hpos =>
    -- none has failed so far
    have hnone : Gained (SendLabels fun _ => False) g g₂ := hg₂.mono fun es hes => hes.mono fun x hx hxs => hpos (hxs ▸ hx)
    apply along_seq (idle_reading hA (fun _ => idleKinds_attempt)
      (requestWait_all hq hg (hall (.port i)) sequence (n = 0) result))
    intro waited g₃ hg₃
    have hg₃' := hnone.sends hg₃ fun _ _ h => h
    split
    · exact hg₃'.mono fun es hes => hes.mono fun _ _ => False.elim
    apply along_seq (idle_reading hA (fun _ => idleKinds_attempt)
      (q := if n ≠ 0 then statsIncrement .requestRetries else pure ()) _)
    · intro _ g₄ hg₄
      apply along_mono _ (ih waited.1)
      intro w g₅ hg₅
      exact (hg₃'.sends hg₄ fun _ _ h => h).sends hg₅ fun _ _ => False.elim
    · split
      · exact statsIncrement_all hq (hall _) _
      · exact Does.pure _

theorem draw_reading (hA : AtCalls A) : along (reading rd R A) nextSequence
    (fun _ g' => Gained (fun es => ∀ e ∈ es, e.kind ∈ drawKinds) g g') g := by
  have hcall : Kind.call ∉ drawKinds := by simp [drawKinds]
  have hdraw : Does drawKinds Set.univ nextSequence := nextSequence_all (.inl rfl) (.inr rfl) (Set.mem_univ _)
  exact along_mono (fun _ _ h => h.leaves) (kinds_reading hA hcall hdraw)

/-- The labels of a request, newest first: it marks the port, its sends follow, and it leaves its result
last, which is that of a failed send if there is one. -/
structure RequestLeaves (i : Port) (cmd : Byte) (r : Int) (s : U32) (completed : Bool) (b : Branch)
    (v v' : V) (qs qs₀ g g' : List (Event × V)) : Prop where
  split : g' = (.finish i cmd s completed b r, v) :: (qs ++ (.pend i cmd s, v') :: (qs₀ ++ g))
  sends : SendLabels (· = r) (qs.map Prod.fst)
  begin : ∀ e ∈ qs₀.map Prod.fst, e.kind ∈ drawKinds

theorem request_reading (hA : AtCalls A) {port : Byte} {i : Port} (hport : getDevice port = some i) (cmd : Byte)
    (data : Buf) (size : Int) : along (reading rd R A) (raspikeRequest port cmd data size) (fun r g' =>
      r = -EINVAL ∧ g' = g ∨ ∃ s completed b v v' qs qs₀, RequestLeaves i cmd r s completed b v v' qs qs₀ g g') g := by
  have hq : Kind.quiet ∈ idleKinds := .inl rfl
  have hall : ∀ l, l ∈ (Set.univ : Set Mutex) := Set.mem_univ
  have hidle : ∀ k ∈ idleKinds, k ∈ attemptKinds ∧ k ≠ .send := fun _ => idleKinds_attempt
  unfold raspikeRequest
  split
  · exact .inl ⟨rfl, rfl⟩
  rw [hport]
  apply along_bind
  apply along_lock
  -- the number is drawn and the port marked
  apply along_bind
  apply along_bind
  apply along_mono _ (draw_reading hA)
  rintro sequence g₁ ⟨qs₀, rfl, hqs₀⟩
  apply along_bind
  apply along_lock
  apply along_bind
  apply along_act
  intro m _
  refine ⟨hA _ (.pend i cmd sequence) _ nofun, ?_⟩
  apply along_bind
  apply along_unlock
  -- the attempts
  apply along_seq (idle_reading hA hidle (Does.load hq))
  intro v2 g₂ hg₂
  apply along_seq (requestAttempts_reading hA i port cmd data size sequence _ _)
  intro waited g₃ hg₃
  -- the final section
  apply along_bind
  apply along_lock
  apply along_seq (idle_reading hA hidle (Does.load hq))
  intro d g₄ hg₄
  apply along_seq (along_yields (idle_reading hA hidle
    (requestOutcome_all hq (hall _) cmd sequence waited.1 waited.2 d)) (requestOutcome_yields _ _ _ _ _))
  rintro outcome g₅ ⟨hg₅, houtcome⟩
  apply along_bind
  apply along_act
  intro m' _
  refine ⟨hA _ (.finish i cmd sequence waited.2 outcome.1 outcome.2) _ nofun, ?_⟩
  apply along_bind
  apply along_unlock
  apply along_bind
  apply along_unlock
  have hsends : Gained (SendLabels (· = outcome.2)) ((.pend i cmd sequence, rd m) :: (qs₀ ++ g)) g₅ := by
    have hfailed : Gained (SendLabels (· = outcome.2)) _ g₃ := (hg₂.sends hg₃ fun _ _ => False.elim).mono fun es hes => by
      apply hes.mono
      intro x _ hx
      rw [hx] at houtcome
      rcases houtcome with ⟨-, hcompleted, -⟩ | ⟨-, hresult⟩
      · cases hcompleted
      · exact hresult.symm
    refine hfailed.trans (hg₄.sends hg₅ fun _ _ h => h) fun es fs hes hfs => ?_
    exact (hfs.mono fun _ _ => False.elim).append hes
  obtain ⟨qs, rfl, hqs⟩ := hsends
  exact .inr ⟨sequence, waited.2, outcome.1, rd m', rd m, qs, qs₀, rfl, hqs, hqs₀⟩

/-! ## the body of a call -/

/-- when nobody connects, the body of a call leaves no label of a call -/
theorem body_reading (hA : AtCalls A) {c : Call} (hinit : ∀ desc, c ≠ .init desc) :
    along (reading rd R A) c.body (fun _ g' => Adds {k | k ≠ .call} g g') g := by
  have hother : ∀ k : Kind, k ≠ .call → k ∈ {k | k ≠ Kind.call} := fun _ h => h
  have hall : Does {k | k ≠ Kind.call} Set.univ c.body := by
    by_cases hdown : c = .shutdown
    · subst hdown
      apply (raspikeProtShutdown_all ?_ (Set.subset_univ _) fun _ => hother _ (by simp)).bind fun _ => Does.pure _
      intro k hk
      simp only [shutdownKinds, Set.mem_insert_iff, Set.mem_singleton_iff] at hk
      rcases hk with rfl | rfl | rfl | rfl | rfl | rfl | rfl | rfl <;> exact hother _ (by simp)
    apply body_all _ (Set.subset_univ _) _ (Set.subset_univ _) _ (Set.subset_univ _) (fun _ => hother _ (by simp))
      (hother _ (by simp)) (Set.mem_univ _) hinit hdown
    · intro k hk
      cases k <;> first
        | exact hk.elim
        | exact hother _ (by simp)
    · rintro k (rfl | rfl | rfl | rfl) <;> exact hother _ (by simp)
    · rintro k (rfl | rfl | rfl | rfl | rfl | rfl | rfl | rfl) <;> exact hother _ (by simp)
  exact kinds_reading hA (fun h : Kind.call ≠ Kind.call => h rfl) hall

theorem client_reading {cs : List Call} (hcall : ∀ c ∈ cs, ∀ g v, A g (.call c) v)
    (hbody : ∀ c ∈ cs, ∀ g v, along (reading rd R A) c.body (fun r g' => ∀ v, A g' (.returned c r) v)
      ((.call c, v) :: g))
    (g : List (Event × V)) : along (reading rd R A) (client cs) (fun _ _ => True) g := by
  induction cs generalizing g with
  | nil => exact trivial
  | cons c cs ih =>
    have hfirst : along (reading rd R A) (runCall c) (fun _ _ => True) g := by
      apply along_bind
      apply along_act
      intro m _
      refine ⟨hcall c List.mem_cons_self _ _, ?_⟩
      apply along_seq (hbody c List.mem_cons_self g (rd m))
      intro r g' hr
      apply along_act
      intro m' _
      exact ⟨hr _, trivial⟩
    apply along_seq hfirst
    intro _ g' _
    exact ih (fun c' h => hcall c' (List.mem_cons_of_mem _ h)) (fun c' h => hbody c' (List.mem_cons_of_mem _ h)) g'

variable {T : Type} [DecidableEq T] {calls : T → List Call} {m : Mem} {c : Sys T} {t : T}

/-- a thread makes its own calls only -/
theorem called (hinit : NoInit calls) (hr : Reach (start m calls) c) {call : Call}
    (h : (t, .call call) ∈ c.trace) : call ∈ calls t := by
  obtain ⟨as, bs, hsplit⟩ := List.append_of_mem h
  let A : List (Event × Unit) → Event → Unit → Prop := fun _ e _ => ∀ c', e = .call c' → c' ∈ calls t
  have hA : AtCalls A := by
    rintro g e v he c' rfl
    exact (he rfl).elim
  have hclient : along (reading (fun _ : Mem => ()) (fun _ => True) A) (client (calls t)) (fun _ _ => True) [] := by
    apply client_reading
    · intro c' hc' g v c'' heq
      cases heq
      exact hc'
    · intro c' hc' g _
      apply along_mono _ (body_reading hA (hinit t c' hc'))
      intro r g' _ v c'' heq
      cases heq
  exact hr.reads (fun _ => ()) rfl (fun _ _ => ⟨trivial, rfl⟩) hclient hsplit call rfl

/-! ## the labels of a call that has returned -/

/-- A request has left these labels, newest first: it marks the port, its sends follow, and it leaves its
result last, which is that of a failed send if there is one. -/
structure RequestEvents (i : Port) (cmd : Byte) (r : Int) (s : U32) (completed : Bool) (b : Branch)
    (qs qs₀ es : List Event) : Prop where
  split : es = .finish i cmd s completed b r :: (qs ++ .pend i cmd s :: qs₀)
  sends : SendLabels (· = r) qs
  begin : ∀ e ∈ qs₀, e.kind ∈ drawKinds

/-- what a call that sends or requests has left, newest first, when it returns -/
def CallLabels (call : Call) (ret : Ret) (es : List Event) : Prop :=
  match call with
  | .send .. | .sendPriority .. => ∃ x es', ret = .int x ∧ es = .sendEnd x :: es' ∧ .sendBegin ∈ es' ∧
      SendsEnd es ∧ ∀ y < 0, .sendEnd y ∈ es → y = x
  | .request port cmd _ _ => ∃ r, ret = .int r ∧ (r = -EINVAL ∧ es = [] ∨
      ∃ i s completed b qs qs₀, getDevice port = some i ∧ RequestEvents i cmd r s completed b qs qs₀ es)
  | _ => True

/-- the promise of a thread at the returns of its calls -/
def returnPromise (g : List (Event × Unit)) (e : Event) (_ : Unit) : Prop :=
  ∀ call ret, e = .returned call ret → ∃ qs v rest, g = qs ++ (.call call, v) :: rest ∧
    (∀ q ∈ qs, q.1.kind ≠ .call) ∧ CallLabels call ret (qs.map Prod.fst)

theorem returnPromise_atCalls : AtCalls returnPromise := by
  rintro g e v he call ret rfl
  exact (he rfl).elim

section
variable {R : Mem → Prop} {g : List (Event × Unit)}

/-- a send leaves its result last -/
theorem send_call_labels (sequence : U32) (port cmd : Byte) (buf : Buf) (size : Int) (flags : Byte) (flushNow : Bool)
    {g₁ : List (Event × Unit)} (h₁ : Gained (fun es => ∀ e ∈ es, e.kind ∈ drawKinds) g g₁) :
    along (reading (fun _ => ()) R returnPromise) (sendFrame port cmd buf size sequence flags flushNow) (fun r g' =>
      Gained (fun es => ∃ es', es = .sendEnd r :: es' ∧ .sendBegin ∈ es' ∧ SendsEnd es ∧
        ∀ y < 0, .sendEnd y ∈ es → y = r)
        g g') g₁ := by
  apply along_mono _ (sendFrame_reading returnPromise_atCalls port cmd buf size sequence flags flushNow)
  intro r g' h
  refine h₁.trans h ?_
  rintro es _ hes ⟨es', rfl, hbegin, hsends⟩
  refine ⟨es' ++ es, rfl, List.mem_append_left _ hbegin, ?_, fun y hneg hy => ?_⟩
  · apply hsends.ends.append
    exact SendsEnd.of_notMem fun he => send_notMem_draw (hes _ he) rfl
  · rcases List.mem_append.mp hy with hy | hy
    · exact hsends.failed y hneg hy
    · exact (send_notMem_draw (hes _ hy) rfl).elim

theorem call_labels {c : Call} (hinit : ∀ desc, c ≠ .init desc) :
    along (reading (fun _ => ()) R returnPromise) c.body (fun r g' => Gained (CallLabels c r) g g') g := by
  have hA := returnPromise_atCalls
  have hother : (∀ r es, CallLabels c r es) →
      along (reading (fun _ => ()) R returnPromise) c.body (fun r g' => Gained (CallLabels c r) g g') g := by
    intro h
    apply along_mono _ (body_reading hA hinit)
    exact fun r _ h' => h'.leaves.mono fun es _ => h r es
  cases c with
  | send port cmd buf size =>
    apply along_bind
    apply along_seq (draw_reading hA)
    intro sequence g₁ hg₁
    apply along_mono _ (send_call_labels sequence port cmd buf size 0 false hg₁)
    intro r g' h
    exact h.mono fun es ⟨es', hes, hsends⟩ => ⟨r, es', rfl, hes, hsends⟩
  | sendPriority port cmd buf size =>
    apply along_bind
    apply along_seq (draw_reading hA)
    intro sequence g₁ hg₁
    apply along_mono _ (send_call_labels sequence port cmd buf size rpV2FlagHighPriority true hg₁)
    intro r g' h
    exact h.mono fun es ⟨es', hes, hsends⟩ => ⟨r, es', rfl, hes, hsends⟩
  | request port cmd data size =>
    cases hport : getDevice port with
    | none =>
      apply along_bind
      unfold raspikeRequest
      split
      · exact Gained.refl ⟨_, rfl, .inl ⟨rfl, rfl⟩⟩
      · rw [hport]
        exact Gained.refl ⟨_, rfl, .inl ⟨rfl, rfl⟩⟩
    | some i =>
      apply along_bind
      apply along_mono _ (request_reading hA hport cmd data size)
      rintro r g' (⟨rfl, rfl⟩ | ⟨s, completed, b, v, v', qs, qs₀, h⟩)
      · exact Gained.refl ⟨_, rfl, .inl ⟨rfl, rfl⟩⟩
      · refine ⟨(.finish i cmd s completed b r, v) :: (qs ++ (.pend i cmd s, v') :: qs₀), ?_, r, rfl, .inr ?_⟩
        · rw [h.split, List.cons_append, List.append_assoc, List.cons_append]
        · refine ⟨i, s, completed, b, qs.map Prod.fst, qs₀.map Prod.fst, hport, ?_, h.sends, h.begin⟩
          rw [List.map_cons, List.map_append, List.map_cons]
  | init desc => exact (hinit desc rfl).elim
  | _ => exact hother fun _ _ => trivial

end

/-- A call has returned: its labels are those since its begin, and they say what it has returned. -/
theorem returned_labels (hinit : NoInit calls) (hr : Reach (start m calls) c) {as bs : Trace T} {call : Call} {ret : Ret}
    (htr : c.trace = as ++ (t, .returned call ret) :: bs) : ∃ es rest, ownLabels t bs = es ++ .call call :: rest ∧
      (∀ e ∈ es, e.kind ≠ .call) ∧ CallLabels call ret es := by
  have hA := returnPromise_atCalls
  have hclient : along (reading (fun _ : Mem => ()) (fun _ => True) returnPromise) (client (calls t))
      (fun _ _ => True) [] := by
    apply client_reading
    · rintro call' _ g v call'' ret' heq
      cases heq
    · intro call' hcall' g v
      apply along_mono _ (along_and (body_reading hA (hinit t call' hcall')) (call_labels (hinit t call' hcall')))
      rintro r g' ⟨⟨qs, rfl, hqs⟩, qs', hqs', hlabels⟩ v' call'' ret' heq
      cases heq
      have hsame : qs = qs' := List.append_cancel_right hqs'
      subst hsame
      exact ⟨qs, v, g, rfl, hqs, hlabels⟩
  obtain ⟨qs, v, rest, hg, hqs, hlabels⟩ :=
    hr.reads (fun _ => ()) rfl (fun _ _ => ⟨trivial, rfl⟩) hclient htr call ret rfl
  refine ⟨qs.map Prod.fst, rest.map Prod.fst, ?_, ?_, hlabels⟩
  · rw [← ownReads_labels (fun _ => ()), hg, List.map_append, List.map_cons]
  · intro e he
    obtain ⟨q, hq, rfl⟩ := List.mem_map.mp he
    exact hqs q hq

/-! ## the sends of a call that has returned -/

/-- the calls whose result is that of a send, if it fails -/
def Call.transmits : Call → Bool
  | .send .. | .sendPriority .. | .request .. => true
  | _ => false

/-- the calls of the two senders -/
def Call.sends : Call → Bool
  | .send .. | .sendPriority .. => true
  | _ => false

theorem Call.transmits_of_sends {call : Call} (h : call.sends = true) : call.transmits = true := by
  cases call with
  | send | sendPriority => rfl
  | _ => cases h

theorem CallLabels.ends {call : Call} {ret : Ret} {es : List Event} (h : CallLabels call ret es)
    (hcall : call.transmits = true) : SendsEnd es ∧ ∀ y < 0, .sendEnd y ∈ es → ret = .int y := by
  have hsend : (∃ x es', ret = .int x ∧ es = .sendEnd x :: es' ∧ .sendBegin ∈ es' ∧ SendsEnd es ∧
      ∀ y < 0, .sendEnd y ∈ es → y = x) → SendsEnd es ∧ ∀ y < 0, .sendEnd y ∈ es → ret = .int y := by
    rintro ⟨x, es', rfl, -, -, hends, hone⟩
    exact ⟨hends, fun y hneg hy => congrArg Ret.int (hone y hneg hy).symm⟩
  cases call with
  | send | sendPriority => exact hsend h
  | request port cmd data size =>
    obtain ⟨r, rfl, ⟨-, rfl⟩ | ⟨i, s, completed, b, qs, qs₀, -, hevents⟩⟩ := h
    · exact ⟨SendsEnd.of_notMem List.not_mem_nil, fun y _ hy => absurd hy List.not_mem_nil⟩
    · have hbegin : SendsEnd qs₀ := SendsEnd.of_notMem fun he => send_notMem_draw (hevents.begin _ he) rfl
      have hpend : SendsEnd (.pend i cmd s :: qs₀) := (SendsEnd.of_notMem (by simp : .sendBegin ∉ [Event.pend i cmd s])).append hbegin
      have hfinish : SendsEnd [.finish i cmd s completed b r] := SendsEnd.of_notMem (by simp)
      rw [hevents.split]
      refine ⟨hfinish.append (hevents.sends.ends.append hpend), fun y hneg hy => ?_⟩
      simp only [List.mem_cons, List.mem_append, reduceCtorEq, false_or] at hy
      rcases hy with hy | hy
      · exact congrArg Ret.int (hevents.sends.failed y hneg hy).symm
      · exact (send_notMem_draw (hevents.begin _ hy) rfl).elim
  | _ => cases hcall

/-- the thread begins a send in these entries, in the call that it is in at their end -/
def Attempts (t : T) (as : Trace T) : Prop :=
  ∃ xs ys, as = xs ++ (t, .sendBegin) :: ys ∧ ∀ e, (t, e) ∈ xs → e.kind ≠ .call

/-- what precedes the first label of a call -/
theorem before_call {es fs xs ys : List Event} {e : Event} (hes : ∀ e ∈ es, e.kind ≠ .call) (he : e.kind = .call)
    (hxs : ∀ e ∈ xs, e.kind ≠ .call) (h : es ++ e :: fs = xs ++ ys) : ∃ zs, es = xs ++ zs ∧ ys = zs ++ e :: fs := by
  obtain ⟨as, rfl, has⟩ | ⟨zs, rfl, hzs⟩ := List.append_eq_append_iff.mp h
  · cases as with
    | nil => exact ⟨[], by simp, has.symm⟩
    | cons a as =>
      obtain ⟨rfl, -⟩ := List.cons.inj has
      exact (hxs e (List.mem_append_right _ List.mem_cons_self) he).elim
  · exact ⟨zs, rfl, hzs⟩

/-- a call that makes a send ends it, and returns its result if it fails -/
theorem attempt_returned (hinit : NoInit calls) (hr : Reach (start m calls) c) {zs as bs : Trace T} {call : Call}
    {ret : Ret} (htr : c.trace = zs ++ (t, .returned call ret) :: (as ++ bs)) (hcall : call.transmits = true)
    (hattempt : Attempts t as) : ∃ as₁ as₂ x, as = as₁ ++ (t, .sendEnd x) :: as₂ ∧ (t, .sendBegin) ∈ as₂ ∧
      (x < 0 → ret = .int x) := by
  obtain ⟨es, rest, hes, hkinds, hlabels⟩ := returned_labels hinit hr htr
  obtain ⟨hends, hfailed⟩ := hlabels.ends hcall
  obtain ⟨xs, ys, rfl, hxs⟩ := hattempt
  rw [List.append_assoc, List.cons_append, ownLabels_append, ownLabels_self] at hes
  obtain ⟨fs, rfl, hfs⟩ := before_call hkinds rfl (fun e he => hxs e (mem_ownLabels.mp he)) hes.symm
  cases fs with
  | nil => cases hfs
  | cons f fs =>
    obtain ⟨rfl, -⟩ := List.cons.inj hfs
    obtain ⟨x, hx⟩ := hends _ _ rfl
    obtain ⟨xs₁, xs₂, rfl⟩ := List.append_of_mem (mem_ownLabels.mp hx)
    refine ⟨xs₁, xs₂ ++ (t, .sendBegin) :: ys, x, ?_, ?_, fun hneg => hfailed x hneg (List.mem_append_left _ hx)⟩
    · rw [List.append_assoc, List.cons_append]
    · exact List.mem_append_right _ List.mem_cons_self

/-- a call of one of the senders makes a send -/
theorem send_attempts (hinit : NoInit calls) (hr : Reach (start m calls) c) {zs as bs : Trace T} {call : Call}
    {ret : Ret} (htr : c.trace = zs ++ (t, .returned call ret) :: (as ++ bs))
    (hcall : call.sends = true) (hbegin : (t, .call call) ∈ as) : Attempts t as := by
  obtain ⟨es, rest, hes, hkinds, hlabels⟩ := returned_labels hinit hr htr
  have hsend : .sendBegin ∈ es := by
    cases call with
    | send | sendPriority =>
      obtain ⟨x, es', -, rfl, hmem, -⟩ := hlabels
      exact List.mem_cons_of_mem _ hmem
    | _ => cases hcall
  -- the labels since the begin of the call are among those of `as`
  rw [ownLabels_append] at hes
  have hin : ∃ ws, ownLabels t as = es ++ ws := by
    obtain ⟨ws, rfl, -⟩ | ⟨ws, has, -⟩ := List.append_eq_append_iff.mp hes
    · exact (hkinds _ (List.mem_append_left _ (mem_ownLabels.mpr hbegin)) rfl).elim
    · exact ⟨ws, has⟩
  obtain ⟨ws, hws⟩ := hin
  obtain ⟨es₁, es₂, rfl⟩ := List.append_of_mem hsend
  rw [List.append_assoc, List.cons_append] at hws
  obtain ⟨as₁, as₂, rfl, has₁, -⟩ := ownLabels_split hws
  refine ⟨as₁, as₂, rfl, fun e he => hkinds e (List.mem_append_left _ ?_)⟩
  rw [← has₁]
  exact mem_ownLabels.mpr he

/-- A request of the thread has ended: it has marked its port pending, and since then its sends have
followed; the result is that of its final section, the last that it has done. -/
structure RequestEnded (t : T) (port cmd : Byte) (i : Port) (s : U32) (completed : Bool) (b : Branch) (r : Int)
    (bs ys : Trace T) : Prop where
  port : getDevice port = some i
  last : Last t (.finish i cmd s completed b r) bs ys
  began : ∃ ws vs, ys = ws ++ (t, .pend i cmd s) :: vs ∧ ∀ e, (t, e) ∈ ws → e.kind ∈ attemptKinds

/-- a request returns the result of its final section, or has done nothing -/
theorem request_returned (hinit : NoInit calls) (hr : Reach (start m calls) c) {as bs : Trace T} {port cmd : Byte}
    {data : Buf} {size : Int} {ret : Ret} (htr : c.trace = as ++ (t, .returned (.request port cmd data size) ret) :: bs) :
    ∃ r, ret = .int r ∧ ((r = -EINVAL ∧ ∃ ys, Last t (.call (.request port cmd data size)) bs ys) ∨
      ∃ i s completed b ys, RequestEnded t port cmd i s completed b r bs ys) := by
  obtain ⟨es, rest, hes, -, r, rfl, hlabels⟩ := returned_labels hinit hr htr
  refine ⟨r, rfl, ?_⟩
  rcases hlabels with ⟨rfl, rfl⟩ | ⟨i, s, completed, b, qs, qs₀, hport, hevents⟩
  · obtain ⟨ys, hlast, -⟩ := last_of_ownLabels hes
    exact .inl ⟨rfl, ys, hlast⟩
  · rw [hevents.split, List.cons_append, List.append_assoc, List.cons_append] at hes
    obtain ⟨ys, hlast, hys⟩ := last_of_ownLabels hes
    obtain ⟨ws, vs, rfl, hws, -⟩ := ownLabels_split hys
    refine .inr ⟨i, s, completed, b, _, hport, hlast, ws, vs, rfl, fun e he => hevents.sends.kinds e ?_⟩
    rw [← hws]
    exact mem_ownLabels.mpr he

end RaspikeArt
