import RaspikeArt.Model.Calls
import RaspikeArt.Threads.History

/-!
# Device types, part 1: the section under a device mutex

`pup_*_get_device` looks at the recorded type of a port, asks the hub to configure it and records
the type, all under the mutex of the device.

* `Mem.typeOf`     the recorded type, `0` when the port is free;
* `configs i`      what the history says of the configurations of a port: which thread is at one,
                   whether it has been acknowledged, the type acknowledged last, and how many were;
* `Section`        where in its section a thread is;
* `Sectioned`      the recorded type and the section of the one holder agree with the history.

The invariant is over a bound `n` on the acknowledged configurations: past it, `vacantAfter n`
takes for granted that no type has been recorded yet.
-/

set_option linter.unusedSectionVars false

namespace RaspikeArt
open Threads

variable {T : Type} [DecidableEq T]

/-- `device_type` of a port -/
def Mem.typeOf (m : Mem) (i : Port) : Byte := (m.gPortDevices i).device.deviceType

/-- the device types of the four files with a `pup_*_get_device` -/
def deviceTypes : List Byte := [rpCmdTypeColor, rpCmdTypeForce, rpCmdTypeMotor, rpCmdTypeUs]

/-- the device type in the command that configures a port -/
def configuredType (cmd : Byte) : Byte := cmd >>> 5

theorem deviceTypes_ne_zero : ∀ ty ∈ deviceTypes, ty ≠ 0 := by decide

theorem configuredType_makeCmd : ∀ ty ∈ deviceTypes, configuredType (makeCmd ty 0) = ty := by decide

/-! ## the history of a port -/

structure Configs (T : Type) where
  /-- the thread between `configure` and `configured` -/
  who : Option T
  acked : Bool
  last : Byte
  count : Nat

namespace Configs

def start (ty : Byte) : Configs T := ⟨none, false, ty, 0⟩

def next (i : Port) (a : Configs T) (t : T) : Event → Configs T
  | .configure j => if j = i then { a with who := some t, acked := false } else a
  | .configured j => if j = i then { a with who := none, acked := false } else a
  | .finish j cmd _ _ _ r =>
    if j = i ∧ a.who = some t ∧ r = 1 then
      { a with acked := true, last := configuredType cmd, count := a.count + 1 }
    else a
  | _ => a

/-- a configuration is acknowledged once -/
def ok (i : Port) (a : Configs T) (t : T) : Event → Prop
  | .finish j _ _ _ _ r => j = i → a.who = some t → r = 1 → a.acked = false
  | _ => True

end Configs

def configs (T : Type) [DecidableEq T] (i : Port) : Machine T Event (Configs T) where
  next := Configs.next i
  ok := Configs.ok i

/-- the configurations of the port `i`, whose recorded type was `ty` at first -/
def configsOf (i : Port) (ty : Byte) (tr : Trace T) : Configs T := (configs T i).replay (.start ty) tr

theorem Configs.next_count {i : Port} {a : Configs T} {t : T} {e : Event} :
    (a.next i t e).count = a.count ∧ (a.next i t e).last = a.last ∨
      (a.next i t e).count = a.count + 1 ∧ a.who = some t ∧ (Configs.ok i a t e → a.acked = false) := by
  cases e with
  | finish j cmd s completed b r =>
    by_cases h : j = i ∧ a.who = some t ∧ r = 1
    · refine .inr ⟨?_, h.2.1, fun hok => hok h.1 h.2.1 h.2.2⟩
      simp only [next, if_pos h]
    · simp only [next, if_neg h, true_or, and_self]
  | configure j | configured j =>
    left
    simp only [next]
    split <;> exact ⟨rfl, rfl⟩
  | _ => exact .inl ⟨rfl, rfl⟩

/-- a label that says nothing of the configurations -/
theorem Configs.next_other {i : Port} {a : Configs T} {t : T} {e : Event} (h : e ≠ .configure i)
    (h' : e ≠ .configured i) (hf : e.kind = .finish → a.who ≠ some t) :
    a.next i t e = a ∧ a.ok i t e := by
  cases e with
  | configure j =>
    have hj : j ≠ i := fun hj => h (hj ▸ rfl)
    exact ⟨if_neg hj, trivial⟩
  | configured j =>
    have hj : j ≠ i := fun hj => h' (hj ▸ rfl)
    exact ⟨if_neg hj, trivial⟩
  | finish j cmd s completed b r =>
    exact ⟨if_neg fun hc => hf rfl hc.2.1, fun _ hw _ => (hf rfl hw).elim⟩
  | _ => exact ⟨rfl, trivial⟩

/-! ## the section -/

inductive Section where
  | out
  /-- the thread holds the mutex -/
  | held
  /-- it has seen that the port is free -/
  | vacant
  /-- it is at a configuration that has not been acknowledged -/
  | asked
  /-- it is at one that has, for a type that it has not recorded yet -/
  | acked (ty : Byte)
  | recorded
  deriving DecidableEq

namespace Section

/-- between `configure` and `configured` -/
def configures : Section → Bool
  | asked | acked _ | recorded => true
  | _ => false

/-- its configuration has been acknowledged -/
def isAcked : Section → Bool
  | acked _ | recorded => true
  | _ => false

/-- the holder knows that no type is recorded -/
def isFree : Section → Bool
  | vacant | asked | acked _ => true
  | _ => false

end Section

structure Sectioned (i : Port) (ty : Byte) (n : Nat) (w : World T Mutex Event Mem)
    (gs : T → Section) : Prop where
  legal : (configs T i).Legal (.start ty) w.trace
  own : ∀ t, gs t ≠ .out → w.own (.device i) = some t
  who : ∀ t, (configsOf i ty w.trace).who = some t ↔ (gs t).configures
  free : ∀ t, (gs t).isFree → w.mem.typeOf i = 0
  asked : ∀ t, gs t = .asked → (configsOf i ty w.trace).acked = false
  acked : ∀ t, (gs t).isAcked → (configsOf i ty w.trace).acked = true
  last : ∀ t ty', gs t = .acked ty' → (configsOf i ty w.trace).last = ty'
  type : w.mem.typeOf i ≠ 0 → w.mem.typeOf i = (configsOf i ty w.trace).last
  beyond : (configsOf i ty w.trace).count = n + 1 → ∃ t ty', gs t = .acked ty'

/-- past the bound no type has been recorded -/
def vacantAfter (i : Port) (ty : Byte) (n : Nat) (w : World T Mutex Event Mem) : Prop :=
  (configsOf i ty w.trace).count = n + 1 → w.mem.typeOf i = 0

def sectionLogic (T : Type) [DecidableEq T] (i : Port) (ty : Byte) (n : Nat) :
    Logic T Mutex CondVar Event Mem where
  G := Section
  K := vacantAfter i ty n
  I := Sectioned i ty n
  A := fun _ _ _ => True

variable {i : Port} {ty : Byte} {n : Nat} {t : T} {w : World T Mutex Event Mem} {gs : T → Section}

namespace Sectioned

/-- the mutex has one holder -/
theorem alone (h : Sectioned i ty n w gs) (ht : gs t ≠ .out) {u : T} (hu : u ≠ t) : gs u = .out := by
  by_contra hout
  have hown := h.own u hout
  rw [h.own t ht] at hown
  exact hu (Option.some.inj hown).symm

/-- what a step by the holder has to show -/
theorem of_holder {w' : World T Mutex Event Mem} {g : Section} (hothers : ∀ u ≠ t, gs u = .out)
    (hlegal : (configs T i).Legal (.start ty) w'.trace)
    (hown : g ≠ .out → w'.own (.device i) = some t)
    (hwho : (configsOf i ty w'.trace).who = if g.configures then some t else none)
    (hfree : g.isFree → w'.mem.typeOf i = 0)
    (hasked : g = .asked → (configsOf i ty w'.trace).acked = false)
    (hacked : g.isAcked → (configsOf i ty w'.trace).acked = true)
    (hlast : ∀ ty', g = .acked ty' → (configsOf i ty w'.trace).last = ty')
    (htype : w'.mem.typeOf i ≠ 0 → w'.mem.typeOf i = (configsOf i ty w'.trace).last)
    (hbeyond : (configsOf i ty w'.trace).count = n + 1 → ∃ ty', g = .acked ty') :
    Sectioned i ty n w' (Function.update gs t g) := by
  have hself : Function.update gs t g t = g := Function.update_self ..
  have hout : ∀ u ≠ t, Function.update gs t g u = .out := fun u hu =>
    (Function.update_of_ne hu ..).trans (hothers u hu)
  have hat : ∀ {P : T → Section → Prop}, P t g → (∀ u ≠ t, P u .out) →
      ∀ u, P u (Function.update gs t g u) := by
    intro P ht hu u
    by_cases h : u = t
    · rw [h, hself]
      exact ht
    · rw [hout u h]
      exact hu u h
  refine ⟨hlegal, ?_, ?_, ?_, ?_, ?_, ?_, htype, fun h => ?_⟩
  · exact hat (P := fun u g => g ≠ .out → w'.own (.device i) = some u) hown fun _ _ h => (h rfl).elim
  · refine hat (P := fun u g => (configsOf i ty w'.trace).who = some u ↔ g.configures) ?_ fun u hu => ?_
    · rw [hwho]
      cases g.configures <;> simp
    · rw [hwho]
      cases g.configures <;> simp [Section.configures, hu.symm]
  · exact hat (P := fun _ g => g.isFree → w'.mem.typeOf i = 0) hfree fun _ _ => nofun
  · exact hat (P := fun _ g => g = .asked → _) hasked fun _ _ => nofun
  · exact hat (P := fun _ g => g.isAcked → (configsOf i ty w'.trace).acked = true) hacked fun _ _ => nofun
  · exact hat (P := fun _ g => ∀ ty', g = .acked ty' → (configsOf i ty w'.trace).last = ty') hlast
      fun _ _ _ => nofun
  · obtain ⟨ty', hg⟩ := hbeyond h
    exact ⟨t, ty', hself.trans hg⟩

/-- an access that says nothing of the configurations, and records no type -/
theorem access (h : Sectioned i ty n w gs) {x : Option Event} {m' : Mem}
    (hm : m'.typeOf i = w.mem.typeOf i ∨ m'.typeOf i = 0)
    (hx : ∀ e, x = some e → (configsOf i ty w.trace).next i t e = configsOf i ty w.trace ∧
      (configsOf i ty w.trace).ok i t e) :
    Sectioned i ty n { w with mem := m', trace := World.push t x w.trace } gs := by
  have htr : configsOf i ty (World.push t x w.trace) = configsOf i ty w.trace ∧
      (configs T i).Legal (.start ty) (World.push t x w.trace) := by
    cases x with
    | none => exact ⟨rfl, h.legal⟩
    | some e =>
      obtain ⟨hnext, hok⟩ := hx e rfl
      exact ⟨hnext, hok, h.legal⟩
  refine ⟨htr.2, h.own, ?_, ?_, ?_, ?_, ?_, ?_, ?_⟩
  · rw [htr.1]
    exact h.who
  · intro u hu
    obtain hm | hm := hm
    · exact hm.trans (h.free u hu)
    · exact hm
  · rw [htr.1]
    exact h.asked
  · rw [htr.1]
    exact h.acked
  · rw [htr.1]
    exact h.last
  · intro hne
    rw [htr.1]
    obtain hm | hm := hm
    · exact hm.trans (h.type (hm ▸ hne))
    · exact (hne hm).elim
  · rw [htr.1]
    exact h.beyond

theorem mutex (h : Sectioned i ty n w gs) {own : Mutex → Option T}
    (hown : own (.device i) = w.own (.device i)) : Sectioned i ty n { w with own := own } gs :=
  { h with own := fun t ht => hown.trans (h.own t ht) }

theorem who_none (h : Sectioned i ty n w gs) (ht : gs t ≠ .out) (hg : (gs t).configures = false) :
    (configsOf i ty w.trace).who = none := by
  cases hw : (configsOf i ty w.trace).who with
  | none => rfl
  | some u =>
    have hu := (h.who u).mp hw
    by_cases hut : u = t
    · rw [hut, hg] at hu
      cases hu
    · rw [h.alone ht hut] at hu
      cases hu

end Sectioned

/-! ## programs that stay out of the section -/

/-- an access that leaves the type of the port alone, or clears it -/
def TypeKept (i : Port) (e : Mem → Option Event) (f : Mem → Mem) : Prop :=
  ∀ m, ((f m).typeOf i = m.typeOf i ∨ (f m).typeOf i = 0) ∧
    ∀ x, e m = some x → x ≠ .configure i ∧ x ≠ .configured i

theorem Kind.Touches.typeOf {k : Kind} {m m' : Mem} (h : k.Touches m m') (hk : k ≠ .dev) :
    m'.typeOf i = m.typeOf i ∨ m'.typeOf i = 0 := by
  cases k with
  | dev => exact (hk rfl).elim
  | quiet =>
    obtain ⟨c, s, x, y, z, -, rfl⟩ := h
    exact .inl rfl
  | pend | finish | ack | reset =>
    obtain ⟨p, rfl⟩ := h
    exact .inl (congrArg PupDevice.deviceType (p.property i))
  | io | v2 | seq | receivers | sess | status | statusPtr =>
    obtain ⟨x, rfl⟩ := h
    exact .inl rfl
  | prot =>
    obtain ⟨x, y, rfl⟩ := h
    exact .inl rfl
  | life =>
    obtain ⟨x, y, z, rfl⟩ := h
    exact .inl rfl
  | setup =>
    obtain ⟨p, b, s, x, y, rfl⟩ := h
    exact (p.property i).imp (congrArg PupDevice.deviceType) (congrArg PupDevice.deviceType)
  | input | call | send | recv | hello | config | frame | gaveUp =>
    cases h
    exact .inl rfl

/-- the kinds that neither record a type nor begin or end a configuration -/
def asideKinds : Set Kind := {k | k ≠ .dev ∧ k ≠ .config}

theorem Acc.aside {ks : Set Kind} {e : Mem → Option Event} {f : Mem → Mem} (h : Acc ks e f)
    (hks : ks ⊆ asideKinds) : TypeKept i e f := by
  intro m
  obtain ⟨k, hk, hstep⟩ := h m
  refine ⟨hstep.touches.typeOf (hks hk).1, fun x hx => ?_⟩
  have hkind : x.kind ≠ .config := (hstep.label x hx).symm ▸ (hks hk).2
  constructor
  all_goals
    rintro rfl
    exact hkind rfl

theorem aside_neutral {g : Section} (hg : g.configures = false) :
    (sectionLogic T i ty n).Neutral (TypeKept i) (· ≠ .device i) t g where
  act := by
    rintro e f hacc w gs (hI : Sectioned i ty n w gs) hgs -
    obtain ⟨hm, hx⟩ := hacc w.mem
    refine hI.access hm fun x he => Configs.next_other (hx x he).1 (hx x he).2 fun _ hw => ?_
    rw [hI.who t, hgs, hg] at hw
    cases hw
  acquire := by
    rintro l hl w gs (hI : Sectioned i ty n w gs) - -
    exact hI.mutex (Function.update_of_ne (Ne.symm hl) ..)
  release := by
    rintro l hl w gs (hI : Sectioned i ty n w gs) -
    exact hI.mutex (Function.update_of_ne (Ne.symm hl) ..)
  places _ := ⟨trivial, trivial, fun _ => trivial, trivial⟩

/-- the kinds of a request before its final section -/
def unfinishedKinds : Set Kind := {k | k ∈ asideKinds ∧ k ≠ .finish}

theorem unfinished_neutral {g : Section} :
    (sectionLogic T i ty n).Neutral (Acc unfinishedKinds) (· ∈ {l | l ≠ .device i}) t g where
  act := by
    rintro e f hacc w gs (hI : Sectioned i ty n w gs) - -
    obtain ⟨hm, hx⟩ := hacc.aside (i := i) (fun _ h => h.1) w.mem
    refine hI.access hm fun x he => Configs.next_other (hx x he).1 (hx x he).2 fun hfin => ?_
    obtain ⟨k, hk, hstep⟩ := hacc w.mem
    exact (hk.2 ((hstep.label x he).symm.trans hfin)).elim
  acquire := by
    rintro l hl w gs (hI : Sectioned i ty n w gs) - -
    exact hI.mutex (Function.update_of_ne (Ne.symm hl) ..)
  release := by
    rintro l hl w gs (hI : Sectioned i ty n w gs) -
    exact hI.mutex (Function.update_of_ne (Ne.symm hl) ..)
  places _ := ⟨trivial, trivial, fun _ => trivial, trivial⟩

end RaspikeArt
