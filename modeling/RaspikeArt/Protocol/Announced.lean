import RaspikeArt.Model.Calls
import RaspikeArt.Protocol.Sessions

/-!
# The session and the protocol of the moment

The two globals change with a label only, so the history says what they are at any moment of a run,
whoever connects and disconnects in it.

* `usesV2`          whether the protocol with sequence numbers and sessions is in use;
* `Meanwhile v P`   so it was at some moment since the last label of `v`;
* `announced_run`   the globals are what the history says.
-/

set_option linter.unusedSectionVars false

namespace RaspikeArt
open Threads

variable {T : Type} [DecidableEq T]

/-- the protocol chosen last -/
def usesV2 (b₀ : Bool) : Trace T → Bool
  | [] => b₀
  | (_, e) :: tr =>
    match e with
    | .useV2 b => b
    | _ => usesV2 b₀ tr

/-! ## moments -/

/-- at some moment since the last label of `v`, the history was as `P` says -/
def Meanwhile (v : T) (P : Trace T → Prop) (tr : Trace T) : Prop :=
  ∃ as bs, tr = as ++ bs ∧ (∀ x ∈ as, x.1 ≠ v) ∧ P bs

theorem Meanwhile.now {v : T} {P : Trace T → Prop} {tr : Trace T} (h : P tr) : Meanwhile v P tr :=
  ⟨[], tr, rfl, by simp, h⟩

/-- a moment of the past stays one while others go on -/
theorem Meanwhile.other {v t : T} {P : Trace T → Prop} {tr : Trace T} (h : Meanwhile v P tr) (ht : t ≠ v)
    (x : Option Event) : Meanwhile v P (World.push t x tr) := by
  cases x with
  | none => exact h
  | some e =>
    obtain ⟨as, bs, rfl, has, hP⟩ := h
    exact ⟨(t, e) :: as, bs, rfl, List.forall_mem_cons.mpr ⟨ht, has⟩, hP⟩

/-! ## what the accesses announce -/

/-- an access that changes the session or the protocol leaves a label with the new one -/
def Announces (e : Mem → Option Event) (f : Mem → Mem) : Prop := ∀ m,
  (f m).fgSessionId = (match e m with
    | some (.session s) => s
    | _ => m.fgSessionId) ∧
  (f m).fgUseProtocolV2 = match e m with
    | some (.useV2 b) => b
    | _ => m.fgUseProtocolV2

def Announcing {α : Type} (p : P α) : Prop := p.All Announces fun _ => True

/-- the kinds of the accesses that change neither -/
def unannouncedKinds : Set Kind := {k | k ≠ .sess ∧ k ≠ .v2}

theorem Acc.announces {e : Mem → Option Event} {f : Mem → Mem} (h : Acc unannouncedKinds e f) : Announces e f := by
  intro m
  obtain ⟨k, ⟨hsess, hv2⟩, hstep⟩ := h m
  have hrest := hstep.touches.rest
  rw [hrest.session hsess, hrest.v2 hv2]
  cases hx : e m with
  | none => exact ⟨rfl, rfl⟩
  | some x =>
    have hkind : x.kind = k := hstep.label x hx
    subst hkind
    cases x with
    | session => exact (hsess rfl).elim
    | useV2 => exact (hv2 rfl).elim
    | _ => exact ⟨rfl, rfl⟩

theorem announcing_passes : Passes (fun _ p => Announcing p) unannouncedKinds Set.univ where
  pure _ := trivial
  bind hp hq := Prog.All.bind hp hq
  does hp := Prog.All.mono (fun _ _ h => h.announces) (fun _ _ => trivial) hp

theorem body_announcing (c : Call) : Announcing c.body := by
  have hF := announcing_passes
  have hk : ∀ {k : Kind}, k ≠ .sess → k ≠ .v2 → k ∈ unannouncedKinds := fun h h' => ⟨h, h'⟩
  have hall : ∀ l, l ∈ (Set.univ : Set Mutex) := Set.mem_univ
  have hq : Kind.quiet ∈ unannouncedKinds := hk (by simp) (by simp)
  have hack : Kind.ack ∈ unannouncedKinds := hk (by simp) (by simp)
  have hreset : Kind.reset ∈ unannouncedKinds := hk (by simp) (by simp)
  have hsetup : Kind.setup ∈ unannouncedKinds := hk (by simp) (by simp)
  have hdev : Kind.dev ∈ unannouncedKinds := hk (by simp) (by simp)
  apply body_around (hF.mono _ (Set.subset_univ _))
  · exact fun s => ⟨fun m => ⟨rfl, rfl⟩, fun _ => trivial⟩
  · exact fun b => ⟨fun m => ⟨rfl, rfl⟩, fun _ => trivial⟩
  · exact ⟨fun m => ⟨rfl, rfl⟩, fun _ => trivial⟩
  · exact hF.does (callocStatus_all hsetup)
  · exact hF.does (initPorts_all hq hsetup hreset hdev (fun _ => hall _) fun _ => hall _)
  · intro error clearDevices _
    exact hF.does (resetPortState_all hq hreset (fun _ => hall _) error clearDevices (fun _ => hdev) fun _ _ => hall _)
  · intro port cmd data size
    apply hF.does (raspikeRequest_all _ (Set.subset_univ _) port cmd data size)
    intro k hmem
    cases k with
    | sess | v2 => exact hmem.elim
    | _ => exact hk (by simp) (by simp)
  · exact fun i s session buf => hF.does (processAck_all hq hack (hall _) (hall _) s session buf)
  · rintro k ⟨-, -, -, -, -, hsess, hv2, -⟩
    exact hk hsess hv2

/-- **The session and the protocol** of a moment of a run are those that the history says. -/
theorem announced_run {m : Mem} {calls : T → List Call} {c : Sys T} (hr : Reach (start m calls) c) :
    c.mem.fgSessionId = currentSession m.fgSessionId c.trace ∧
      c.mem.fgUseProtocolV2 = usesV2 m.fgUseProtocolV2 c.trace := by
  have hF := announcing_passes
  have hclient : ∀ t, Announcing (client (calls t)) := fun t =>
    client_passes (hF.mono (by simp [unannouncedKinds]) (Set.empty_subset _)) fun c _ => body_announcing c
  induction hr with
  | refl => exact ⟨rfl, rfl⟩
  | @step c c' ch hr hs ih =>
    rcases (Prog.All.step (Prog.All.reach hclient hr) hs).2 with ⟨hmem, htr⟩ | ⟨t, e, f, rfl, hacc, hmem, htr⟩
    · rw [hmem, htr]
      exact ih
    obtain ⟨hsession, hv2⟩ := hacc c.mem
    rw [hmem, htr]
    cases hx : e c.mem with
    | none =>
      rw [hx] at hsession hv2
      exact ⟨hsession.trans ih.1, hv2.trans ih.2⟩
    | some x =>
      rw [hx] at hsession hv2
      cases x with
      | session => exact ⟨hsession, hv2.trans ih.2⟩
      | useV2 => exact ⟨hsession.trans ih.1, hv2⟩
      | _ => exact ⟨hsession.trans ih.1, hv2.trans ih.2⟩

end RaspikeArt
