import RaspikeArt.Threads.Outcome
import RaspikeArt.Transport.Device

/-!
# Programs that only listen

`Listens p`: whatever the devices answer, `p` takes no mutex and wakes nobody, and all it does to the
memory is to read input away.  It is so of everything that waits for bytes, up to the search for a
byte and the discarding of a payload.
-/

namespace RaspikeArt
open Threads

variable {α β S : Type}

/-- `m` with this input left for the devices -/
def Mem.withRx (m : Mem) (rx : Nat → List RxItem) : Mem :=
  { m with com := { m.com with desc := fun d => { m.com.desc d with rx := rx d } } }

/-- the input of one descriptor has been read -/
theorem Mem.setDesc_rx (m : Mem) (d : Nat) (rx : List RxItem) :
    m.setDesc d (fun s => { s with rx := rx }) =
      m.withRx (Function.update (fun d' => (m.com.desc d').rx) d rx) := by
  have hdesc : Function.update m.com.desc d { m.com.desc d with rx := rx } = fun d' =>
      { m.com.desc d' with rx := Function.update (fun d' => (m.com.desc d').rx) d rx d' } := by
    funext d'
    by_cases hd : d' = d
    · subst hd
      simp only [Function.update_self]
    · simp only [Function.update_of_ne hd]
  unfold Mem.withRx Mem.setDesc
  dsimp only
  rw [hdesc]

/-- an access that reads input away, and marks at most a call of `raspike_com_receive_timeout` -/
def ReadsAway (e : Mem → Option Event) (f : Mem → Mem) : Prop :=
  ∀ m, (∃ rx, f m = m.withRx rx) ∧ ∀ x, e m = some x → ∃ d, x = .io d .receive

structure Listens (p : P α) : Prop where
  accesses : p.All ReadsAway fun _ => False
  quiet : p.Wakes fun _ => False

namespace Listens

theorem bind {p : P α} {q : α → P β} (hp : Listens p) (hq : ∀ a, Listens (q a)) : Listens (p >>= q) :=
  ⟨hp.accesses.bind fun a => (hq a).accesses, hp.quiet.bind fun a => (hq a).quiet⟩

theorem pure (a : α) : Listens (Pure.pure a : P α) := ⟨True.intro, True.intro⟩

theorem act {f : Mem → α × Mem} (h : ∀ m, ∃ rx, (f m).2 = m.withRx rx) :
    Listens (.act (fun _ => none) f .ret : P α) :=
  ⟨⟨fun m => ⟨h m, by rintro _ ⟨⟩⟩, fun _ => True.intro⟩, Prog.Wakes.act⟩

theorem load {f : Mem → α} : Listens (load f : P α) := act fun m => ⟨fun d => (m.com.desc d).rx, rfl⟩

theorem receive (d : Nat) : Listens (tick (.io d .receive) : P Unit) := by
  refine ⟨⟨fun m => ⟨⟨fun d => (m.com.desc d).rx, rfl⟩, ?_⟩, fun _ => True.intro⟩, Prog.Wakes.act⟩
  intro x hx
  cases hx
  exact ⟨d, rfl⟩

theorem loopFrom {s : S} {body : S → P (S ⊕ β)} (h : ∀ s, Listens (body s)) :
    Listens (loopFrom s body) :=
  ⟨⟨fun s => (h s).accesses, fun _ => True.intro⟩, fun s => (h s).quiet, fun _ => True.intro⟩

end Listens

/-! ## the functions that wait for bytes -/

theorem clockLate_listens (d : Nat) : Listens (clockLate d .rx) := by
  apply Listens.act
  intro m
  split
  · exact ⟨_, m.setDesc_rx d _⟩
  · exact ⟨_, rfl⟩

theorem poll_listens (d : Nat) : Listens (poll d .rx) := by
  apply Listens.act
  intro m
  split
  · exact ⟨_, m.setDesc_rx d _⟩
  · exact ⟨_, rfl⟩
  · exact ⟨_, rfl⟩

theorem readFd_listens (d n : Nat) : Listens (readFd d n) := by
  apply Listens.act
  intro m
  split
  · exact ⟨_, m.setDesc_rx d _⟩
  · exact ⟨_, m.setDesc_rx d _⟩
  · exact ⟨_, rfl⟩

theorem waitFd_listens (d : Nat) : Listens (waitFd d .rx) := by
  apply Listens.loopFrom
  intro _
  apply (poll_listens d).bind
  intro r
  split <;> exact Listens.pure _

theorem readSomeFd_listens (d n : Nat) : Listens (readSomeFd d n) := by
  unfold readSomeFd
  split
  case isTrue => exact Listens.pure _
  apply (waitFd_listens d).bind
  intro ready
  split
  case isTrue => exact Listens.pure _
  apply Listens.loopFrom
  intro _
  apply (readFd_listens d n).bind
  intro r
  split
  · exact Listens.pure _
  · exact Listens.pure _
  · split
    · exact Listens.pure _
    · split <;> exact Listens.pure _

theorem rpUsbReceive_listens (d n : Nat) : Listens (rpUsbReceive d n) := by
  apply Listens.load.bind
  intro fd
  split
  case isTrue => exact Listens.pure _
  exact readSomeFd_listens d n

theorem raspikeComReceiveTimeout_listens (desc : Option Nat) (size : Nat) :
    Listens (raspikeComReceiveTimeout desc size) := by
  cases desc with
  | none => exact Listens.pure _
  | some d =>
  unfold raspikeComReceiveTimeout
  dsimp only
  split
  case isTrue => exact Listens.pure _
  apply (Listens.receive d).bind
  intro _
  apply Listens.loopFrom
  intro received
  split
  case isTrue => exact Listens.pure _
  apply (clockLate_listens d).bind
  intro late
  split
  case isTrue => exact Listens.pure _
  apply (rpUsbReceive_listens d _).bind
  intro r
  cases r with
  | ok bs => exact Listens.pure _
  | error e =>
    dsimp only
    split <;> exact Listens.pure _

theorem discardReceiveBytes_listens (size : Nat) : Listens (discardReceiveBytes size) := by
  apply Listens.loopFrom
  intro size
  split
  case isTrue => exact Listens.pure _
  apply Listens.load.bind
  intro desc
  apply (raspikeComReceiveTimeout_listens desc _).bind
  intro r
  cases r <;> exact Listens.pure _

theorem scanLate_listens (desc : Option Nat) : Listens (scanLate desc) := by
  cases desc with
  | none => exact Listens.pure _
  | some d => exact clockLate_listens d

theorem scanForByte_listens (target : Byte) : Listens (scanForByte target) := by
  apply Listens.loopFrom
  intro _
  apply Listens.load.bind
  intro desc
  apply (raspikeComReceiveTimeout_listens desc 1).bind
  intro r
  cases r with
  | ok byte =>
    dsimp only
    split
    · exact Listens.pure _
    apply (scanLate_listens desc).bind
    intro late
    split <;> exact Listens.pure _
  | error e =>
    dsimp only
    split
    · exact Listens.pure _
    apply (scanLate_listens desc).bind
    intro late
    split <;> exact Listens.pure _

/-! ## what an end leaves -/

/-- the memory but for the input, and the mutexes -/
structure Listened (w w' : Solo) : Prop where
  mem : ∃ rx, w'.mem = w.mem.withRx rx
  own : w'.own = w.own

theorem Listens.ends {p : P α} (hp : Listens p) {w w' : Solo} {a : α} (h : Ends p w a w') :
    Listened w w' := by
  refine ⟨?_, h.own_eq hp.accesses⟩
  have hpath := hp.accesses.path h
  clear h
  induction hpath with
  | refl => exact ⟨fun d => (w.mem.com.desc d).rx, rfl⟩
  | own _ _ ih => exact ih
  | act _ hA ih =>
    obtain ⟨e, f, hok, -, rfl⟩ := hA
    obtain ⟨rx, hmem⟩ := ih
    obtain ⟨⟨rx', hf⟩, -⟩ := hok (w.mem.withRx rx)
    refine ⟨rx', ?_⟩
    show f _ = _
    rw [hmem]
    exact hf

end RaspikeArt
