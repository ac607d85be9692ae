import RaspikeArt.Model.Calls
import RaspikeArt.Threads.Codes

/-!
# Device types, part 4: what a request returns without an ACK

`pthread_cond_timedwait` ends with zero or with an error number.  The result code of a request that
is not answered is then negative.

* `waitCode`        the codes of a wait;
* `Event.answers`   the final section of a request that is not answered returns a negative number,
                    and a `pup_*_get_device` returns no handle but that of its port;
* `client_coded`    so it is for every thread, with such codes.
-/

namespace RaspikeArt
open Threads

def waitCode (r : Int) : Prop := 0 ≤ r

/-- a handle that a call returns is that of its port -/
def Call.Names : Call → Ret → Prop
  | .getDevice _ port, .handle (some i) => RaspikeArt.getDevice (port - 65) = some i
  | _, _ => True

def Event.answers : Event → Prop
  | .finish _ _ _ _ b r => b.isAnswer ∨ r < 0
  | .returned c r => c.Names r
  | _ => True

/-- the kinds of all accesses but the final section of a request, and of a call -/
def unanswerKinds : Set Kind := {k | k ≠ .finish ∧ k ≠ .call}

theorem says_of_does {α : Type} {p : P α} {R : α → Prop} (hp : Does unanswerKinds Set.univ p)
    (hy : p.Yields R) : p.Says waitCode Event.answers R := by
  apply Prog.Says.of_all _ hp hy
  intro e f hacc m x hx
  obtain ⟨k, hk, hstep⟩ := hacc m
  have hkind : x.kind ≠ .finish ∧ x.kind ≠ .call := (hstep.label x hx).symm ▸ hk
  cases x with
  | finish => exact (hkind.1 rfl).elim
  | returned => exact (hkind.2 rfl).elim
  | _ => trivial

theorem does_coded {α : Type} {p : P α} (hp : Does unanswerKinds Set.univ p) :
    p.Says waitCode Event.answers fun _ => True :=
  says_of_does hp Prog.Yields.trivial

theorem unanswer_mem {k : Kind} (h : k ≠ .finish) (h' : k ≠ .call) : k ∈ unanswerKinds := ⟨h, h'⟩

section
variable {i : Port}

theorem requestSleep_coded {result : Int} (h : result < 0) :
    (requestSleep i result).Says waitCode Event.answers (· < 0) := by
  apply Prog.Says.loopFrom (· < 0) h
  intro result hresult
  apply Prog.Says.seq (does_coded (Does.load (unanswer_mem nofun nofun)))
  intro pending _
  split
  · exact hresult
  apply Prog.Says.bind
  apply Prog.Says.condWait
  intro waitResult hcode
  split
  · exact hresult
  split
  case isTrue h =>
    have hpos : 0 < waitResult := lt_of_le_of_ne hcode (Ne.symm h.1)
    exact Int.neg_neg_of_pos hpos
  case isFalse => exact hresult

theorem requestWait_coded {result : Int} (h : result < 0) (sequence : U32) (last : Bool) :
    (requestWait i sequence last result).Says waitCode Event.answers fun r => r.1 < 0 := by
  have hall : ∀ l, l ∈ (Set.univ : Set Mutex) := Set.mem_univ
  apply Prog.Says.bind
  apply Prog.Says.seq (requestSleep_coded h)
  intro result hresult
  apply Prog.Says.seq (does_coded (Does.load (unanswer_mem nofun nofun)))
  intro pending _
  split
  · exact hresult
  apply Prog.Says.seq (R := fun _ => True)
  · split
    · exact does_coded (Does.tick (k := .gaveUp) (unanswer_mem nofun nofun) rfl (fun _ => rfl) fun _ => rfl)
    · trivial
  intro _ _
  exact hresult

theorem sendFrame_coded (port cmd : Byte) (payload : Buf) (size : Int) (sequence : U32) (flags : Byte)
    (flushNow : Bool) :
    (sendFrame port cmd payload size sequence flags flushNow).Says waitCode Event.answers fun _ => True := by
  apply does_coded
  exact sendFrame_all (unanswer_mem nofun nofun) (fun _ => unanswer_mem nofun nofun) (unanswer_mem nofun nofun)
    (unanswer_mem nofun nofun) (Set.mem_univ _) (Set.mem_univ _) (Set.mem_univ _) _ _ _ _ _ _ _

theorem requestAttempts_coded (port cmd : Byte) (data : Buf) (size : Int) (sequence : U32) (n : Nat)
    {result : Int} (h : result < 0) :
    (requestAttempts i port cmd data size sequence n result).Says waitCode Event.answers fun r => r.1 < 0 := by
  induction n generalizing result with
  | zero => exact h
  | succ n ih =>
    apply Prog.Says.bind
    apply Prog.Says.seq (does_coded (Does.load (unanswer_mem nofun nofun)))
    intro stillPending _
    split
    · exact h
    apply Prog.Says.seq (sendFrame_coded _ _ _ _ _ _ _)
    intro sent _
    split
    case isTrue hsent =>
      apply Prog.Says.seq (does_coded (Does.tick (k := .gaveUp) (unanswer_mem nofun nofun) rfl (fun _ => rfl)
        fun _ => rfl))
      exact fun _ _ => hsent
    apply Prog.Says.seq (requestWait_coded h _ _)
    intro waited hwaited
    split
    · exact hwaited
    apply Prog.Says.seq (R := fun _ => True)
    · split
      · exact does_coded (statsIncrement_all (unanswer_mem nofun nofun) (Set.mem_univ _) _)
      · trivial
    exact fun _ _ => ih hwaited

end

theorem raspikeRequest_coded (port cmd : Byte) (data : Buf) (size : Int) :
    (raspikeRequest port cmd data size).Says waitCode Event.answers fun _ => True := by
  have hall : ∀ l, l ∈ (Set.univ : Set Mutex) := Set.mem_univ
  unfold raspikeRequest
  split
  · trivial
  split
  · trivial
  case h_2 i _ =>
  apply Prog.Says.bind
  apply Prog.Says.seq (does_coded (requestBegin_all (unanswer_mem nofun nofun) (unanswer_mem nofun nofun)
    (unanswer_mem nofun nofun) (hall (.port i)) (hall _) cmd))
  intro sequence _
  apply Prog.Says.seq (does_coded (Does.load (unanswer_mem nofun nofun)))
  intro v2 _
  apply Prog.Says.seq (requestAttempts_coded port cmd data size sequence _ (by decide))
  intro waited hwaited
  apply Prog.Says.bind
  apply Prog.Says.seq (does_coded (Does.load (unanswer_mem nofun nofun)))
  intro d _
  apply Prog.Says.seq (says_of_does (requestOutcome_all (unanswer_mem nofun nofun) (hall _) _ _ _ _ _)
    (requestOutcome_yields cmd sequence waited.1 waited.2 d))
  intro outcome houtcome
  apply Prog.Says.bind
  apply Prog.Says.act
  intro m
  constructor
  · intro x hx
    cases hx
    rcases houtcome with ⟨hanswer, -, -, -⟩ | ⟨-, hresult⟩
    · exact .inl hanswer
    · exact .inr (hresult ▸ hwaited)
  · trivial

/-! ## the calls -/

theorem says_passes : Passes (fun _ p => p.Says waitCode Event.answers fun _ => True) unanswerKinds Set.univ where
  pure _ := trivial
  bind hp hq := Prog.Says.seq hp fun a _ => hq a
  does hp := does_coded hp

theorem body_coded (c : Call) : c.body.Says waitCode Event.answers fun _ => True := by
  have hk : ∀ {k : Kind}, k ≠ .finish → k ≠ .call → k ∈ unanswerKinds := fun h h' => ⟨h, h'⟩
  have hall : ∀ l, l ∈ (Set.univ : Set Mutex) := Set.mem_univ
  have hclient : c.isClient → c.body.Says waitCode Event.answers fun _ => True := by
    intro hc
    apply body_passes (says_passes.mono _ (Set.subset_univ _)) _ _ raspikeRequest_coded hc
    · rintro k (rfl | rfl | rfl | rfl) <;> exact hk nofun nofun
    · intro port cmd buf size
      apply Prog.Says.seq (does_coded (nextSequence_all (hk nofun nofun) (hk nofun nofun) (hall _)))
      exact fun _ _ => sendFrame_coded _ _ _ _ _ _ _
    · intro port cmd buf size
      apply Prog.Says.seq (does_coded (nextSequence_all (hk nofun nofun) (hk nofun nofun) (hall _)))
      exact fun _ _ => sendFrame_coded _ _ _ _ _ _ _
  cases c with
  | init desc =>
    refine says_passes.bind ?_ fun _ => trivial
    apply raspikeProtInit_passes _ (Set.subset_univ _) says_passes
    · exact fun desc buf => does_coded (raspikeComSend_all (hk nofun nofun) (fun _ _ => hk nofun nofun) (hall _) _)
    · exact fun desc => does_coded (raspikeComFlush_all (hk nofun nofun) (fun _ _ => hk nofun nofun) (hall _))
    · exact does_coded (initPorts_all (hk nofun nofun) (hk nofun nofun) (hk nofun nofun) (hk nofun nofun)
        (fun _ => hall _) fun _ => hall _)
    · exact fun b => does_coded (setUseV2_all (hk nofun nofun) b)
    · exact fun s => does_coded (setSession_all (hk nofun nofun) s)
    · exact fun _ => ⟨nofun, trivial⟩
    · intro k hmem
      constructor
      all_goals
        rintro rfl
        exact hmem
  | shutdown =>
    apply says_passes.bind (does_coded (raspikeProtShutdown_all _ (Set.subset_univ _) fun _ => hk nofun nofun))
    · exact fun _ => trivial
    · rintro k (rfl | rfl | rfl | rfl | rfl | rfl | rfl | rfl) <;> exact hk nofun nofun
  | receive =>
    apply says_passes.bind (does_coded (raspikeProtReceive_all _ (Set.subset_univ _) (fun _ => hk nofun nofun)
      (hk nofun nofun) (hall _)))
    · exact fun _ => trivial
    · rintro k (rfl | rfl | rfl | rfl | rfl | rfl | rfl | rfl) <;> exact hk nofun nofun
  | _ => exact hclient rfl

theorem getDeviceCommon_yields (fgDeviceType port : Byte) :
    (getDeviceCommon fgDeviceType port).Yields fun r => ∀ i, r = some i → getDevice (port - 65) = some i := by
  unfold getDeviceCommon
  dsimp only
  split
  · exact nofun
  split
  case h_2 => exact nofun
  case h_1 j hget =>
  have hend : ∀ r : Option Port, (∀ i, r = some i → getDevice (port - 65) = some i) →
      ∀ p : P Unit, (p >>= fun _ => pure r : P (Option Port)).Yields fun r =>
        ∀ i, r = some i → getDevice (port - 65) = some i := fun r hr p =>
    Prog.Yields.bind Prog.Yields.trivial fun _ _ => hr
  have hnone : ∀ i, (none : Option Port) = some i → getDevice (port - 65) = some i := nofun
  have hself : ∀ i, some j = some i → getDevice (port - 65) = some i := fun i h => hget.trans h
  apply Prog.Yields.bind Prog.Yields.trivial
  intro _ _
  apply Prog.Yields.bind Prog.Yields.trivial
  intro current _
  split
  · exact hend _ hself _
  split
  · exact hend _ hnone _
  apply Prog.Yields.bind Prog.Yields.trivial
  intro _ _
  apply Prog.Yields.bind Prog.Yields.trivial
  intro configResult _
  split
  · apply Prog.Yields.bind Prog.Yields.trivial
    exact fun _ _ => hend _ hnone _
  apply Prog.Yields.bind Prog.Yields.trivial
  intro _ _
  apply Prog.Yields.bind Prog.Yields.trivial
  intro _ _
  apply Prog.Yields.bind Prog.Yields.trivial
  exact fun _ _ => hend _ hself _

theorem runCall_coded (c : Call) : (runCall c).Says waitCode Event.answers fun _ => True := by
  have hmark : ∀ e : Event, e.answers → (tick e : P Unit).Says waitCode Event.answers fun _ => True := by
    intro e he
    apply Prog.Says.act
    refine fun m => ⟨?_, trivial⟩
    rintro x hx
    cases hx
    exact he
  have hnames : c.body.Says waitCode Event.answers c.Names := by
    cases c with
    | getDevice fgDeviceType port =>
      have hyields : (Call.getDevice fgDeviceType port).body.Yields (Call.getDevice fgDeviceType port).Names := by
        apply Prog.Yields.bind (getDeviceCommon_yields fgDeviceType port)
        intro r hr
        cases r with
        | none => trivial
        | some i => exact hr i rfl
      exact ((body_coded _).yields hyields).mono fun _ h => h.2
    | _ => exact (body_coded _).mono fun _ _ => trivial
  apply Prog.Says.seq (hmark (.call c) trivial)
  intro _ _
  exact Prog.Says.seq hnames fun r hr => hmark _ hr

variable {T : Type} [DecidableEq T] {m : Mem} {calls : T → List Call} {c : Sys T}

theorem client_coded (cs : List Call) : (client cs).Says waitCode Event.answers fun _ => True := by
  induction cs with
  | nil => trivial
  | cons c cs ih => exact Prog.Says.seq (runCall_coded c) fun _ _ => ih

end RaspikeArt
