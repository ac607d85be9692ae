import RaspikeArt.Devices.Granted
import RaspikeArt.Devices.Matched

/-!
# Device types, part 8: only configured ports are handed out

* `Granted`           an ACK for the configuration of a port, with all that is compared of it;
* `tells_run`         in every run a recorded type has been acknowledged since the device was cleared;
* `handed_out`        so has the type of every handle that is handed out, when it is decided on;
* `handed_out_stale`  a session change does not clear a device: the hub that is connected then has
                      been told nothing.
-/

set_option linter.unusedSectionVars false

namespace RaspikeArt
open Threads

variable {T : Type} [DecidableEq T] {i : Port} {t : T} {m : Mem} {calls : T → List Call} {c : Sys T}

theorem client_tells (cs : List Call) : wp (tellLogic T i) t (client cs) (fun _ g => g = .out) .out := by
  have hcall : Kind.call ∈ calmKinds := calm_mem nofun nofun nofun nofun nofun nofun
  apply client_passes (tells_passes.mono (Set.singleton_subset_iff.mpr hcall) (Set.empty_subset _))
  exact fun c _ => body_tells c

/-- every label is one of an answer, as the codes of the waits make them -/
def AllAnswers (tr : Trace T) : Prop :=
  ∀ x ∈ tr, x.2.answers

theorem tells_run (hfree : m.typeOf i = 0) (hr : Reach (start m calls) c) (hans : AllAnswers c.trace) :
    ∃ gs, Tells i c.toWorld gs := by
  have hstart : (tellLogic T i).Holds (start m calls) fun _ => .out := by
    constructor
    · show Tells i (start m calls).toWorld fun _ => Asker.out
      exact ⟨fun _ => nofun, fun _ => nofun, fun _ _ => nofun, fun _ _ => nofun, fun _ _ => nofun,
        fun _ _ => nofun, fun h => (h hfree).elim⟩
    · exact fun t => wp_mono (fun _ _ _ => trivial) (client_tells (calls t))
  have htail : ∀ (a : T × Event) tr, AllAnswers (a :: tr) → AllAnswers tr := fun _ _ h => (List.forall_mem_cons.mp h).2
  have hvia : Via (fun w => AllAnswers w.trace) (start m calls) c := hr.via htail hans
  obtain ⟨gs, hI, -⟩ := (tellLogic T i).reach hstart hvia
  exact ⟨gs, hI⟩

/-- the type of a handle has been seen recorded during the call -/
theorem decided {c' : Sys T} {ty port : Byte} (hr : Reach (start m calls) c) (hs : step c (.run t) = some c')
    (htr : c'.trace = (t, .returned (.getDevice ty port) (.handle (some i))) :: c.trace) :
    ∃ d xs, Reach (start m calls) d ∧ d.mem.typeOf i = ty ∧ c.trace = xs ++ d.trace ∧
      ∀ x ∈ xs, x.1 = t → ∀ call, x.2 ≠ .call call := by
  obtain ⟨ss, hf⟩ := hr.follows t
  obtain ⟨x, hown, htr'⟩ | ⟨-, htr', -⟩ := ownStep_cases hs
  · have hx : x = some (.returned (.getDevice ty port) (.handle (some i))) := by
      rw [htr] at htr'
      cases x with
      | none => exact (List.cons_ne_self _ _ htr').elim
      | some e => exact congrArg some (Prod.mk.inj (List.cons.inj htr').1).2.symm
    have hrelies : ∀ xs, (seeing i).Relies (fun _ => False) xs := by
      intro xs
      induction xs with
      | nil => trivial
      | cons y ys ih => exact ⟨ih, fun _ _ _ _ => trivial⟩
    have hgives := (hf.own hs).gives (client_seeing (calls t)) (hrelies _)
    rw [hown] at hgives
    obtain ⟨d, h₁, -, hty, xs, hxs, hall⟩ := seen_recorded hf (hgives.2 ty port hx)
    exact ⟨d, xs, h₁, hty, hxs, hall⟩
  · rw [htr] at htr'
    exact (List.cons_ne_self _ _ htr').elim

/-- A configuration of the port with this command is acknowledged, and the device has not been cleared since:
an ACK with this command and the value 1 was accepted while a request with the command was open.  It has the
number of that request, and the session of a moment while it was in hand, unless at such a moment the
protocol with numbers and sessions was not in use. -/
def Granted (b₀ : Bool) (s₀ : U32) (i : Port) (cmd : Byte) (tr : Trace T) : Prop :=
  ∃ xs v s session ys, tr = xs ++ (v, .ack i s session cmd.toNat 1) :: ys ∧ (∀ x ∈ xs, x.2 ≠ .devReset i) ∧
    ∃ q, AskedFor i cmd q ys ∧ (Meanwhile v (fun bs => usesV2 b₀ bs = false) ys ∨
      s = q ∧ Meanwhile v (fun bs => currentSession s₀ bs = session) ys)

theorem Acknowledged.granted {b₀ : Bool} {s₀ : U32} {cmd : Byte} {tr : Trace T} (h : Acknowledged i cmd tr)
    (hfits : Along (FitsAt b₀ s₀ i) tr) : Granted b₀ s₀ i cmd tr := by
  obtain ⟨xs, v, s, session, ys, rfl, hxs, q, hq⟩ := h
  refine ⟨xs, v, s, session, ys, rfl, hxs, q, hq, ?_⟩
  refine (hfits.split s session _ _ rfl).imp_right ?_
  rintro ⟨⟨cmd', hs⟩, hsession⟩
  have hsame := (asked_iff.mpr hs).symm.trans (asked_iff.mpr hq)
  exact ⟨(Prod.mk.inj (Option.some.inj hsame)).2, hsession⟩

/-- **Handed out.**  A handle is that of the port of the call; at some moment of the call, an ACK with
the value 1 had been accepted for a configuration of that port for that type, and the device had not been
cleared since, by a shutdown or an init. -/
theorem handed_out {ty port : Byte} {zs tr : Trace T} (hfree : ∀ i, m.typeOf i = 0)
    (hquiet : ∀ i, (m.gPortDevices i).pending = false) (hty : ty ∈ deviceTypes) (hr : Coded waitCode (start m calls) c)
    (htr : c.trace = zs ++ (t, .returned (.getDevice ty port) (.handle (some i))) :: tr) :
    getDevice (port - 65) = some i ∧ ∃ xs ys, tr = xs ++ ys ∧ (∀ x ∈ xs, x.1 = t → ∀ call, x.2 ≠ .call call) ∧
      Granted m.fgUseProtocolV2 m.fgSessionId i (makeCmd ty 0) ys := by
  have hans : ∀ x ∈ c.trace, x.2.answers := by
    intro x hx
    rcases (hr.labels (le_refl 0) fun t => client_coded (calls t)).2 x hx with h | h
    · cases h
    · exact h
  rw [htr] at hans
  have hname : getDevice (port - 65) = some i := hans _ (List.mem_append_right _ List.mem_cons_self)
  obtain ⟨a, b, ch, ha, hs, htra, htrb⟩ := hr.reach.entry rfl htr
  have hch : ch = .run t := by
    by_contra hch
    obtain hsame | ⟨u, e, hu, hother⟩ := step_other_trace hs hch
    · rw [htrb, htra] at hsame
      exact List.cons_ne_self _ _ hsame
    · rw [htrb] at hother
      exact hu (congrArg Prod.fst (List.cons.inj hother).1).symm
  subst hch
  rw [← htra] at htrb
  obtain ⟨d, xs, hd, htype, hxs, hall⟩ := decided ha hs htrb
  rw [htra] at hxs
  refine ⟨hname, xs, d.trace, hxs, hall, ?_⟩
  have hand : ∀ x ∈ d.trace, x.2.answers := by
    intro x hx
    apply hans
    exact List.mem_append_right _ (List.mem_cons_of_mem _ (hxs ▸ List.mem_append_right _ hx))
  obtain ⟨gs, hI⟩ := tells_run (hfree i) hd hand
  have hne : d.mem.typeOf i ≠ 0 := htype ▸ deviceTypes_ne_zero ty hty
  exact (acknowledged_of_told (htype ▸ hI.type hne)).granted (fits_run (hquiet i) hd)

/-! ## a session change -/

/-- one thread receives, the other one asks for the motor of port A twice -/
def twoHandles : Bool → List Call
  | false => [.receive, .receive]
  | true => [.getDevice rpCmdTypeMotor 65, .getDevice rpCmdTypeMotor 65]

/-- the configuration is acknowledged, and then the hub restarts -/
def restartMem : Mem := freshMem [.data (ackFrame 0 1 freshSession 96 1 ++ helloFrame 9)] []

/-- until the first handle is returned -/
def handleRun : List (Choice Bool) := steps 49 true ++ steps 58 false ++ steps 17 true

theorem restartMem_free (i : Port) : restartMem.typeOf i = 0 := rfl

theorem restartMem_quiet (i : Port) : (restartMem.gPortDevices i).pending = false := rfl

theorem handed_out_run : ∃ c tr, exec (start restartMem twoHandles) handleRun = some c ∧
    c.trace = (true, .returned (.getDevice rpCmdTypeMotor 65) (.handle (some 0))) :: tr ∧
    getDevice (65 - 65) = some 0 ∧ ∃ xs ys, tr = xs ++ ys ∧ (∀ x ∈ xs, x.1 = true → ∀ call, x.2 ≠ .call call) ∧
      Granted true freshSession 0 (makeCmd rpCmdTypeMotor 0) ys := by
  obtain ⟨c, hrun⟩ := Option.isSome_iff_exists.mp (show (exec (start restartMem twoHandles) handleRun).isSome by
    decide +kernel)
  have hend : ∀ c ∈ exec (start restartMem twoHandles) handleRun, c.trace.head? =
      some (true, .returned (.getDevice rpCmdTypeMotor 65) (.handle (some 0))) := by
    decide +kernel
  have htr : c.trace = [] ++ (true, .returned (.getDevice rpCmdTypeMotor 65) (.handle (some 0))) :: c.trace.tail :=
    (List.cons_head?_tail (hend c hrun)).symm
  have hcoded : Coded waitCode (start restartMem twoHandles) c := by
    apply exec_runs hrun
    simp only [handleRun, List.mem_append]
    rintro ch ((h | h) | h) <;> exact steps_run ch h
  exact ⟨c, c.trace.tail, hrun, htr, handed_out restartMem_free restartMem_quiet (by decide) hcoded htr⟩

/-- an ACK with the value 1 was accepted for a configuration since the device was cleared and the session
changed -/
def GrantedNow (i : Port) (cmd : Byte) (tr : Trace T) : Prop :=
  ∃ xs v s session ackCmd ys, tr = xs ++ (v, .ack i s session ackCmd 1) :: ys ∧
    (∀ x ∈ xs, x.2 ≠ .devReset i ∧ ∀ s, x.2 ≠ .session s) ∧
    ∃ q, AskedFor i cmd q ys

/-- no ACK has come in between a session change and the call -/
theorem not_grantedNow {call : Call} {u : T} {s : U32} {bs ds : Trace T} {cmd : Byte}
    (hbs : ∀ x ∈ bs, x.2.kind ≠ .ack) : ¬ ∃ xs ys, (t, Event.call call) :: (bs ++ (u, .session s) :: ds) = xs ++ ys ∧
      (∀ x ∈ xs, x.1 = t → ∀ call, x.2 ≠ .call call) ∧ GrantedNow i cmd ys := by
  rintro ⟨xs, ys, htr, hxs, as, v, q, session, ackCmd, zs, rfl, has, -⟩
  cases xs with
  | cons x xs =>
    obtain ⟨rfl, -⟩ := List.cons.inj htr
    exact hxs _ List.mem_cons_self rfl call rfl
  | nil =>
    have hcall : ((t, Event.call call) :: bs) ++ (u, .session s) :: ds = as ++ (v, .ack i q session ackCmd 1) :: zs :=
      htr
    obtain ⟨es, rfl, hes⟩ | ⟨es, hes, hzs⟩ := List.append_eq_append_iff.mp hcall
    · cases es with
      | nil => cases hes
      | cons e es =>
        obtain ⟨rfl, -⟩ := List.cons.inj hes
        exact (has _ (List.mem_append_right _ List.mem_cons_self)).2 s rfl
    · cases es with
      | nil => cases hzs
      | cons e es =>
        obtain ⟨rfl, -⟩ := List.cons.inj hzs
        cases as with
        | nil => cases hes
        | cons a as =>
          obtain ⟨rfl, rfl⟩ := List.cons.inj hes
          exact hbs _ (List.mem_append_right _ List.mem_cons_self) rfl

/-- A handle can be returned although no configuration has been acknowledged since the session changed. -/
theorem handed_out_stale : ¬ ∀ (T : Type) [DecidableEq T] (m : Mem) (calls : T → List Call) (c : Sys T) (i : Port)
    (t : T) (ty port : Byte) (zs tr : Trace T), (∀ i, m.typeOf i = 0) →
    (∀ i, (m.gPortDevices i).pending = false) → ty ∈ deviceTypes →
    Coded waitCode (start m calls) c →
    c.trace = zs ++ (t, .returned (.getDevice ty port) (.handle (some i))) :: tr →
    ∃ xs ys, tr = xs ++ ys ∧ (∀ x ∈ xs, x.1 = t → ∀ call, x.2 ≠ .call call) ∧ GrantedNow i (makeCmd ty 0) ys := by
  intro h
  obtain ⟨c, hrun⟩ := Option.isSome_iff_exists.mp (show (exec (start restartMem twoHandles)
    (handleRun ++ steps 80 false ++ steps 5 true)).isSome by decide +kernel)
  have hend : ∀ c ∈ exec (start restartMem twoHandles) (handleRun ++ steps 80 false ++ steps 5 true),
      c.trace.head? = some (true, .returned (.getDevice rpCmdTypeMotor 65) (.handle (some 0))) ∧
      c.trace.tail.head? = some (true, .call (.getDevice rpCmdTypeMotor 65)) ∧
      (c.trace.tail.tail.drop 12).head? = some (false, .session 9) ∧
      ∀ x ∈ c.trace.tail.tail.take 12, x.2.kind ≠ .ack := by
    decide +kernel
  obtain ⟨hret, hcall, hsession, hbs⟩ := hend c hrun
  have hcoded : Coded waitCode (start restartMem twoHandles) c := by
    apply exec_runs hrun
    simp only [handleRun, List.mem_append]
    rintro ch ((((h | h) | h) | h) | h) <;> exact steps_run ch h
  have htr : c.trace.tail = (true, .call (.getDevice rpCmdTypeMotor 65)) ::
      (c.trace.tail.tail.take 12 ++ (false, .session 9) :: (c.trace.tail.tail.drop 12).tail) := by
    rw [List.cons_head?_tail hsession, List.take_append_drop, List.cons_head?_tail hcall]
  have hgranted := h Bool restartMem twoHandles c 0 true rpCmdTypeMotor 65 [] c.trace.tail restartMem_free restartMem_quiet
    (by decide) hcoded (List.cons_head?_tail hret).symm
  rw [htr] at hgranted
  exact not_grantedNow hbs hgranted

end RaspikeArt
