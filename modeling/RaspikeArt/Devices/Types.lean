import RaspikeArt.Devices.Section

/-!
# Device types, part 2: every call keeps the section

* `*_section`            what each function does to the section of its thread;
* `sectioned`            so the recorded types agree with the history, in every run;
-/

set_option linter.unusedSectionVars false

namespace RaspikeArt
open Threads

variable {T : Type} [DecidableEq T] {i : Port} {ty : Byte} {n : Nat} {t : T}
variable {w : World T Mutex Event Mem} {gs : T → Section}

/-! ## the mutex -/

theorem Sectioned.beyond_holder (h : Sectioned i ty n w gs) (ht : gs t ≠ .out)
    (hn : (configsOf i ty w.trace).count = n + 1) : ∃ ty', gs t = .acked ty' := by
  obtain ⟨u, ty', hu⟩ := h.beyond hn
  by_cases hut : u = t
  · exact ⟨ty', hut ▸ hu⟩
  · rw [h.alone ht hut] at hu
    cases hu

theorem Sectioned.all_out (h : Sectioned i ty n w gs) (hfree : w.own (.device i) = none) (u : T) :
    gs u = .out := by
  by_contra hu
  have hown := h.own u hu
  rw [hfree] at hown
  cases hown

theorem lock_section {Q : Unit → Section → Prop} (hQ : Q () .held) :
    wp (sectionLogic T i ty n) t (lock (.device i)) Q .out := by
  refine wp_lock trivial fun w gs hI hg hfree => ⟨.held, ?_, hQ⟩
  have hI' : Sectioned i ty n w gs := hI
  have hothers : ∀ u, gs u = .out := hI'.all_out hfree
  have hnone : (configsOf i ty w.trace).who = none := by
    cases hw : (configsOf i ty w.trace).who with
    | none => rfl
    | some u =>
      have hu := (hI'.who u).mp hw
      rw [hothers u] at hu
      cases hu
  refine Sectioned.of_holder (fun u _ => hothers u) hI'.legal (fun _ => ?_) hnone nofun nofun nofun
    nofun hI'.type fun h => ?_
  · exact Function.update_self ..
  · obtain ⟨u, ty', hu⟩ := hI'.beyond h
    rw [hothers u] at hu
    cases hu

/-- the mutex is given back, or what is known of the port forgotten -/
theorem Sectioned.leave {g : Section} (h : Sectioned i ty n w gs) (hg : gs t = g) (hne : g ≠ .out)
    (hconf : g.configures = false) {g' : Section} (hg' : g' = .out ∨ g' = .held)
    {own : Mutex → Option T} (hown : g' = .held → own (.device i) = w.own (.device i)) :
    Sectioned i ty n { w with own := own } (Function.update gs t g') := by
  have ht : gs t ≠ .out := fun h' => hne (hg.symm.trans h')
  have hc : (gs t).configures = false := by rw [hg, hconf]
  have hfacts : g'.configures = false ∧ g'.isFree = false ∧ g'.isAcked = false := by
    rcases hg' with rfl | rfl <;> exact ⟨rfl, rfl, rfl⟩
  obtain ⟨h1, h2, h3⟩ := hfacts
  refine Sectioned.of_holder (fun u hu => h.alone ht hu) h.legal (fun hout => ?_) ?_ ?_ ?_ ?_ ?_ h.type
    fun hn => ?_
  · rcases hg' with rfl | rfl
    · exact (hout rfl).elim
    · exact (hown rfl).trans (h.own t ht)
  · rw [h1]
    exact h.who_none ht hc
  · rw [h2]
    exact nofun
  · rintro rfl
    cases h1
  · rw [h3]
    exact nofun
  · rintro ty' rfl
    cases h1
  · obtain ⟨ty', hty⟩ := h.beyond_holder ht hn
    rw [hty] at hc
    cases hc

theorem unlock_section {g : Section} {Q : Unit → Section → Prop} (hne : g ≠ .out)
    (hg : g.configures = false) (hQ : Q () .out) :
    wp (sectionLogic T i ty n) t (unlock (.device i)) Q g := by
  refine wp_unlock trivial fun w gs hI hgs => ⟨.out, ?_, hQ⟩
  exact Sectioned.leave (h := hI) hgs hne hg (.inl rfl) nofun

/-! ## functions that stay out -/

theorem aside_skip {α : Type} {p : P α} {g : Section} {Q : α → Section → Prop}
    (hp : Does asideKinds {l | l ≠ .device i} p) (hg : g.configures = false) (hQ : ∀ a, Q a g) :
    wp (sectionLogic T i ty n) t p Q g := by
  refine wp_all (aside_neutral hg) (Prog.All.mono ?_ (fun _ h => h) hp) hQ
  exact fun _ _ h => h.aside (subset_refl _)

/-- `memset(&device, 0, ..)`, of any port -/
theorem devReset_aside (j : Port) : TypeKept i (fun _ => some (.devReset j)) fun m => m.setPort j fun d =>
    { d with device := .zero } := by
  intro m
  constructor
  · by_cases hj : j = i
    · subst hj
      right
      simp [Mem.typeOf, Mem.setPort, PupDevice.zero]
    · left
      simp [Mem.typeOf, Mem.setPort, Ne.symm hj]
  · rintro x hx
    cases hx
    exact ⟨by simp, by simp⟩

theorem resetDevice_section (j : Port) :
    wp (sectionLogic T i ty n) t (resetDevice j) (fun _ g => g = .out) .out := by
  by_cases hj : j = i
  · subst hj
    apply wp_bind
    apply lock_section
    apply wp_bind
    have hclear : Prog.All (TypeKept j) (· ≠ .device j) (.act (fun _ => some (.devReset j))
        (fun m => ((), m.setPort j fun d => { d with device := .zero })) .ret : P Unit) :=
      ⟨devReset_aside j, fun _ => trivial⟩
    apply wp_all (aside_neutral rfl) hclear
    intro _
    exact unlock_section nofun rfl rfl
  · have hne : Mutex.device j ≠ .device i := fun h => hj (Mutex.device.inj h)
    have hall : Prog.All (TypeKept i) (· ≠ .device i) (resetDevice j) :=
      ⟨hne, devReset_aside j, fun _ => ⟨hne, trivial⟩⟩
    exact wp_all (aside_neutral rfl) hall fun _ => rfl

theorem resetPortState_section (error : Int) (clearDevices : Bool) :
    wp (sectionLogic T i ty n) t (resetPortState error clearDevices) (fun _ g => g = .out) .out := by
  refine wp_forEach (fun _ g => g = .out) rfl ?_ fun _ h => h
  rintro j is _ rfl
  refine wp_bind (aside_skip (resetSlot_all ?_ ?_ ?_ error) rfl fun _ => ?_)
  · exact ⟨nofun, nofun⟩
  · exact ⟨nofun, nofun⟩
  · exact nofun
  split
  · exact resetDevice_section j
  · exact wp_pure rfl

/-! ## requests -/

theorem requestKinds_aside : requestKinds ⊆ asideKinds := by
  intro k hk
  constructor
  all_goals
    rintro rfl
    exact hk

theorem requestMutexes_aside : requestMutexes ⊆ {l | l ≠ .device i} := by
  rintro l hl rfl
  exact hl

theorem request_section (port cmd : Byte) (data : Buf) (size : Int) :
    wp (sectionLogic T i ty n) t (raspikeRequest port cmd data size) (fun _ g => g = .out) .out :=
  aside_skip (raspikeRequest_all requestKinds_aside requestMutexes_aside port cmd data size) rfl
    fun _ => rfl

/-- what a request of the holder leaves: an acknowledgement, or nothing -/
def Acknowledges (cmd : Byte) (r : Int) (g : Section) : Prop :=
  r = 1 ∧ g = .acked (configuredType cmd) ∨ r ≠ 1 ∧ g = .asked

theorem unfinished_skip {α : Type} {p : P α} {g : Section} {Q : α → Section → Prop}
    (hp : Does unfinishedKinds {l | l ≠ .device i} p) (hQ : ∀ a, Q a g) :
    wp (sectionLogic T i ty n) t p Q g :=
  wp_all unfinished_neutral hp hQ

/-- the final section of a configuration -/
theorem finish_section {s : U32} {completed : Bool} {b : Branch} {cmd : Byte} {r : Int}
    {f : Mem → Unit × Mem} (hf : ∀ m, (f m).2.typeOf i = m.typeOf i) :
    wp (sectionLogic T i ty n) t (.act (fun _ => some (.finish i cmd s completed b r)) f .ret : P Unit)
      (fun _ g => Acknowledges cmd r g) .asked := by
  apply wp_act
  intro w gs hI hg hK
  have hI' : Sectioned i ty n w gs := hI
  have ht : gs t ≠ .out := by rw [hg]; exact nofun
  have hwho : (configsOf i ty w.trace).who = some t := (hI'.who t).mpr (by rw [hg]; rfl)
  have hacked : (configsOf i ty w.trace).acked = false := hI'.asked t hg
  have hzero : w.mem.typeOf i = 0 := hI'.free t (by rw [hg]; rfl)
  have hzero' : (f w.mem).2.typeOf i = 0 := (hf w.mem).trans hzero
  by_cases hr : r = 1
  · refine ⟨.acked (configuredType cmd), ?_, .inl ⟨hr, rfl⟩⟩
    have hnext : configsOf i ty ((t, .finish i cmd s completed b r) :: w.trace) =
        { configsOf i ty w.trace with
          acked := true, last := configuredType cmd, count := (configsOf i ty w.trace).count + 1 } :=
      if_pos ⟨rfl, hwho, hr⟩
    apply Sectioned.of_holder (fun u hu => hI'.alone ht hu)
    · exact ⟨fun _ _ _ => hacked, hI'.legal⟩
    · exact fun _ => hI'.own t ht
    · show (configsOf i ty ((t, _) :: w.trace)).who = _
      rw [hnext]
      exact hwho
    · exact fun _ => hzero'
    · exact nofun
    · intro _
      show (configsOf i ty ((t, _) :: w.trace)).acked = true
      rw [hnext]
    · intro ty' h
      cases h
      show (configsOf i ty ((t, _) :: w.trace)).last = _
      rw [hnext]
    · exact fun h => (h hzero').elim
    · exact fun _ => ⟨_, rfl⟩
  · refine ⟨.asked, ?_, .inr ⟨hr, rfl⟩⟩
    rw [update_self_of_eq hg]
    apply hI'.access (.inl (hf w.mem))
    rintro e he
    cases he
    exact ⟨if_neg fun h => hr h.2.2, fun _ _ h => (hr h).elim⟩

theorem request_asked {port cmd : Byte} (hport : getDevice port = some i) (hvalid : raspikeIsValidPort port) :
    wp (sectionLogic T i ty n) t (raspikeRequest port cmd none 0) (Acknowledges cmd) .asked := by
  have hks : ∀ {k : Kind}, k ≠ .dev → k ≠ .config → k ≠ .finish → k ∈ unfinishedKinds :=
    fun h h' h'' => ⟨⟨h, h'⟩, h''⟩
  have hq : Kind.quiet ∈ unfinishedKinds := hks nofun nofun nofun
  have hls : ∀ {l : Mutex}, (∀ j, l ≠ .device j) → l ∈ ({l | l ≠ .device i} : Set Mutex) := fun h => h i
  have hslot : Mutex.request i ∈ ({l | l ≠ .device i} : Set Mutex) := nofun
  have hmutex : Mutex.port i ∈ ({l | l ≠ .device i} : Set Mutex) := nofun
  unfold raspikeRequest
  rw [if_neg (by simp [hvalid]), hport]
  apply wp_bind
  apply unfinished_skip (Does.lock hslot)
  intro _
  apply wp_bind
  apply unfinished_skip (requestBegin_all hq (hks nofun nofun nofun) (hks nofun nofun nofun)
    (hls nofun) (hls nofun) cmd)
  intro sequence
  apply wp_bind
  apply unfinished_skip (Does.load hq)
  intro v2
  apply wp_bind
  apply unfinished_skip (requestAttempts_all hq (fun _ => hks nofun nofun nofun) (hks nofun nofun nofun)
    (hks nofun nofun nofun) (hks nofun nofun nofun) (hls nofun) (hls nofun) (hls nofun) (hls nofun)
    _ _ _ _ _ _ _)
  intro waited
  apply wp_bind
  apply unfinished_skip (Does.lock hmutex)
  intro _
  apply wp_bind
  apply unfinished_skip (Does.load hq)
  intro d
  apply wp_bind
  apply unfinished_skip (requestOutcome_all hq (hls nofun) cmd sequence waited.1 waited.2 d)
  intro outcome
  apply wp_seq _ (finish_section fun m => ?_)
  · intro _ g hg
    apply wp_bind
    apply unfinished_skip (Does.unlock hmutex)
    intro _
    apply wp_bind
    apply unfinished_skip (Does.unlock hslot)
    exact fun _ => hg
  · simp [Mem.typeOf, Mem.setPort]

/-! ## the configuration -/

/-- the type is looked at -/
theorem look_section {Q : Byte → Section → Prop} (hseen : ∀ current ≠ 0, Q current .held)
    (hfree : Q 0 .vacant) :
    wp (sectionLogic T i ty n) t (load fun m => (m.gPortDevices i).device.deviceType) Q .held := by
  apply wp_act
  intro w gs hI hg hK
  have hI' : Sectioned i ty n w gs := hI
  by_cases h : w.mem.typeOf i = 0
  · have ht : gs t ≠ .out := by rw [hg]; exact nofun
    have hnone := hI'.who_none ht (by rw [hg]; rfl)
    have hcurrent : (w.mem.gPortDevices i).device.deviceType = 0 := h
    have hQ : Q (w.mem.gPortDevices i).device.deviceType .vacant := hcurrent ▸ hfree
    refine ⟨.vacant, ?_, hQ⟩
    refine Sectioned.of_holder (fun u hu => hI'.alone ht hu) hI'.legal (fun _ => hI'.own t ht) hnone
      (fun _ => h) nofun nofun nofun hI'.type fun hn => ?_
    obtain ⟨ty', hty⟩ := hI'.beyond_holder ht hn
    rw [hg] at hty
    cases hty
  · refine ⟨.held, ?_, hseen _ h⟩
    rw [update_self_of_eq hg]
    exact hI'

theorem configure_section {Q : Unit → Section → Prop} (hQ : Q () .asked) :
    wp (sectionLogic T i ty n) t (tick (.configure i)) Q .vacant := by
  apply wp_act
  intro w gs hI hg hK
  have hI' : Sectioned i ty n w gs := hI
  have ht : gs t ≠ .out := by rw [hg]; exact nofun
  have hzero : w.mem.typeOf i = 0 := hI'.free t (by rw [hg]; rfl)
  have hnext : configsOf i ty ((t, .configure i) :: w.trace) =
      { configsOf i ty w.trace with who := some t, acked := false } := if_pos rfl
  refine ⟨.asked, ?_, hQ⟩
  apply Sectioned.of_holder (fun u hu => hI'.alone ht hu)
  · exact ⟨trivial, hI'.legal⟩
  · exact fun _ => hI'.own t ht
  · exact congrArg Configs.who hnext
  · exact fun _ => hzero
  · exact fun _ => congrArg Configs.acked hnext
  · exact nofun
  · exact nofun
  · exact fun h => (h hzero).elim
  · intro hn
    have hcount : (configsOf i ty ((t, .configure i) :: w.trace)).count = (configsOf i ty w.trace).count := by
      rw [hnext]
    obtain ⟨ty', hty⟩ := hI'.beyond_holder ht (hcount.symm.trans hn)
    rw [hg] at hty
    cases hty

theorem configured_section {g : Section} {Q : Unit → Section → Prop} (hg : g = .asked ∨ g = .recorded)
    (hQ : Q () .held) : wp (sectionLogic T i ty n) t (tick (.configured i)) Q g := by
  apply wp_act
  intro w gs hI hgs hK
  have hI' : Sectioned i ty n w gs := hI
  have ht : gs t ≠ .out := by
    rw [hgs]
    rcases hg with rfl | rfl <;> exact nofun
  have hnext : configsOf i ty ((t, .configured i) :: w.trace) =
      { configsOf i ty w.trace with who := none, acked := false } := if_pos rfl
  refine ⟨.held, ?_, hQ⟩
  apply Sectioned.of_holder (fun u hu => hI'.alone ht hu)
  · exact ⟨trivial, hI'.legal⟩
  · exact fun _ => hI'.own t ht
  · exact congrArg Configs.who hnext
  · exact nofun
  · exact nofun
  · exact nofun
  · exact nofun
  · intro hne
    have hlast : (configsOf i ty ((t, .configured i) :: w.trace)).last = (configsOf i ty w.trace).last := by
      rw [hnext]
    exact (hI'.type hne).trans hlast.symm
  · intro hn
    have hcount : (configsOf i ty ((t, .configured i) :: w.trace)).count = (configsOf i ty w.trace).count := by
      rw [hnext]
    obtain ⟨ty', hty⟩ := hI'.beyond_holder ht (hcount.symm.trans hn)
    rw [hgs] at hty
    rcases hg with rfl | rfl <;> cases hty

/-- the type of the acknowledged configuration is recorded -/
theorem record_section {ty' : Byte} (hne : ty' ≠ 0) {Q : Unit → Section → Prop} (hQ : Q () .recorded) :
    wp (sectionLogic T i ty n) t (modify fun m => m.setPort i fun d =>
      { d with device := { d.device with deviceType := ty' } }) Q (.acked ty') := by
  apply wp_act
  intro w gs hI hg hK
  have hI' : Sectioned i ty n w gs := hI
  have ht : gs t ≠ .out := by rw [hg]; rintro ⟨⟩
  have hlast := hI'.last t ty' hg
  have hrecord : (w.mem.setPort i fun d =>
      { d with device := { d.device with deviceType := ty' } }).typeOf i = ty' := by
    simp [Mem.typeOf, Mem.setPort]
  refine ⟨.recorded, ?_, hQ⟩
  apply Sectioned.of_holder (fun u hu => hI'.alone ht hu)
  · exact hI'.legal
  · exact fun _ => hI'.own t ht
  · exact (hI'.who t).mpr (by rw [hg]; rfl)
  · rintro ⟨⟩
  · simp
  · exact fun _ => hI'.acked t (by rw [hg]; rfl)
  · simp
  · exact fun _ => hrecord.trans hlast.symm
  -- past the bound a type is taken not to be recorded
  · intro hn
    exact (hne (hrecord.symm.trans (hK hn))).elim

/-- an access without a label that leaves the type alone -/
theorem modify_section {g : Section} {f : Mem → Mem} (hf : ∀ m, (f m).typeOf i = m.typeOf i)
    {Q : Unit → Section → Prop} (hQ : Q () g) : wp (sectionLogic T i ty n) t (modify f) Q g := by
  apply wp_act
  intro w gs hI hg hK
  have hI' : Sectioned i ty n w gs := hI
  refine ⟨g, ?_, hQ⟩
  rw [update_self_of_eq hg]
  exact hI'.access (x := none) (.inl (hf w.mem)) nofun

/-- a mark of another port -/
theorem mark_section {e : Event} (h : e ≠ .configure i ∧ e ≠ .configured i) {Q : Unit → Section → Prop}
    (hQ : Q () .out) : wp (sectionLogic T i ty n) t (tick e) Q .out := by
  have hall : Prog.All (TypeKept i) (· ≠ .device i) (tick e : P Unit) :=
    ⟨fun m => ⟨.inl rfl, fun x hx => Option.some.inj hx ▸ h⟩, fun _ => trivial⟩
  exact wp_all (aside_neutral rfl) hall fun _ => hQ

/-- a configuration of another port -/
theorem getDeviceCommon_aside {fgDeviceType port : Byte} {j : Port} (hj : getDevice (port - 65) = some j)
    (hne : j ≠ i) :
    wp (sectionLogic T i ty n) t (getDeviceCommon fgDeviceType port) (fun _ g => g = .out) .out := by
  have hdev : Mutex.device j ∈ ({l | l ≠ .device i} : Set Mutex) := fun h => hne (Mutex.device.inj h)
  have hq : Kind.quiet ∈ asideKinds := ⟨by simp, by simp⟩
  have hset : ∀ f : RPPortDevice → RPPortDevice, ∀ m : Mem, (m.setPort j f).typeOf i = m.typeOf i := by
    intro f m
    simp [Mem.typeOf, Mem.setPort, Ne.symm hne]
  have hunlock : ∀ r : Option Port, wp (sectionLogic T i ty n) t (do
      unlock (.device j)
      return r : P (Option Port)) (fun _ g => g = .out) .out := fun r =>
    wp_bind (aside_skip (Does.unlock hdev) rfl fun _ => wp_pure rfl)
  unfold getDeviceCommon
  dsimp only
  rw [hj]
  split
  · exact wp_pure rfl
  apply wp_bind
  apply aside_skip (Does.lock hdev) rfl
  intro _
  apply wp_bind
  apply aside_skip (Does.load hq) rfl
  intro current
  split
  · exact hunlock _
  split
  · exact hunlock _
  apply wp_bind
  apply mark_section (e := .configure j) ⟨fun h => hne (Event.configure.inj h), by simp⟩
  apply wp_call (request_section _ _ _ _)
  intro configResult
  have hend : ∀ r : Option Port, wp (sectionLogic T i ty n) t (do
      tick (.configured j)
      unlock (.device j)
      return r : P (Option Port)) (fun _ g => g = .out) .out := by
    intro r
    apply wp_bind
    apply mark_section (e := .configured j) ⟨by simp, fun h => hne (Event.configured.inj h)⟩
    exact hunlock r
  split
  · exact hend none
  apply wp_bind
  apply modify_section (hset _)
  apply wp_bind
  apply modify_section (hset _)
  exact hend (some j)

theorem getDeviceCommon_section {fgDeviceType port : Byte} (hty : fgDeviceType ∈ deviceTypes) :
    wp (sectionLogic T i ty n) t (getDeviceCommon fgDeviceType port) (fun _ g => g = .out) .out := by
  by_cases hj : getDevice (port - 65) = some i
  case neg =>
    cases h : getDevice (port - 65) with
    | none =>
      unfold getDeviceCommon
      dsimp only
      rw [h]
      split <;> exact wp_pure rfl
    | some j => exact getDeviceCommon_aside h fun hji => hj (h.trans (congrArg some hji))
  have hunlock : ∀ (r : Option Port) {g : Section}, g ≠ .out → g.configures = false →
      wp (sectionLogic T i ty n) t (do
        unlock (.device i)
        return r : P (Option Port)) (fun _ g => g = .out) g := fun r g hne hg =>
    wp_bind (unlock_section hne hg (wp_pure rfl))
  have hend : ∀ (r : Option Port) {g : Section}, g = .asked ∨ g = .recorded →
      wp (sectionLogic T i ty n) t (do
        tick (.configured i)
        unlock (.device i)
        return r : P (Option Port)) (fun _ g => g = .out) g := fun r g hg =>
    wp_bind (configured_section hg (hunlock r (by simp) rfl))
  unfold getDeviceCommon
  dsimp only
  rw [hj]
  split
  · exact wp_pure rfl
  case isFalse hvalid =>
  apply wp_bind
  apply lock_section
  apply wp_bind
  apply look_section
  · intro current hne
    split
    · exact hunlock _ (by simp) rfl
    · exact hunlock _ (by simp) rfl
  rw [if_neg (Ne.symm (deviceTypes_ne_zero _ hty)), if_neg (not_not.mpr rfl)]
  apply wp_bind
  apply configure_section
  have hport : raspikeIsValidPort (port - 65) := by simp_all
  apply wp_seq _ (request_asked hj hport)
  rintro r g (⟨rfl, rfl⟩ | ⟨hr, rfl⟩)
  · rw [if_neg (not_not.mpr rfl), configuredType_makeCmd _ hty]
    apply wp_bind
    apply record_section (deviceTypes_ne_zero _ hty)
    apply wp_bind
    apply modify_section
    · intro m
      simp [Mem.typeOf, Mem.setPort]
    exact hend (some i) (.inr rfl)
  · rw [if_pos hr]
    exact hend none (.inl rfl)

/-! ## the calls -/

/-- the kinds that stay out of the section -/
theorem aside_passes : Passes (fun _ p => wp (sectionLogic T i ty n) t p (fun _ g => g = .out) .out)
    asideKinds {l | l ≠ .device i} where
  pure _ := wp_pure rfl
  bind hp hq := wp_call hp hq
  does hp := aside_skip hp rfl fun _ => rfl

theorem initPorts_section : wp (sectionLogic T i ty n) t initPorts (fun _ g => g = .out) .out := by
  have hq : Kind.quiet ∈ asideKinds := ⟨nofun, nofun⟩
  have hsetup : Kind.setup ∈ asideKinds := ⟨nofun, nofun⟩
  apply wp_bind
  apply aside_skip (Does.load hq) rfl
  intro synchronized
  split
  · exact resetPortState_section _ _
  apply wp_bind
  apply aside_skip (Does.forEach fun j => initPortDevice_all hsetup j) rfl
  intro _
  apply modify_section
  · exact fun _ => rfl
  · rfl

/-- a `pup_*_get_device` asks for a type of the four files -/
def Call.IsPup : Call → Prop
  | .getDevice fgDeviceType _ => fgDeviceType ∈ deviceTypes
  | _ => True

theorem body_section {c : Call} (hc : c.IsPup) :
    wp (sectionLogic T i ty n) t c.body (fun _ g => g = .out) .out := by
  have hk : ∀ {k : Kind}, k ≠ .dev → k ≠ .config → k ∈ asideKinds := fun h h' => ⟨h, h'⟩
  have hv2 : ∀ b, wp (sectionLogic T i ty n) t (setUseV2 b) (fun _ g => g = .out) .out := fun b =>
    aside_skip (setUseV2_all (hk (by simp) (by simp)) b) rfl fun _ => rfl
  have hsess : ∀ s, wp (sectionLogic T i ty n) t (setSession s) (fun _ g => g = .out) .out := fun s =>
    aside_skip (setSession_all (hk (by simp) (by simp)) s) rfl fun _ => rfl
  have hcom : Mutex.comSend ∈ ({l | l ≠ .device i} : Set Mutex) := by simp
  have hflush : ∀ desc, wp (sectionLogic T i ty n) t (raspikeComFlush desc) (fun _ g => g = .out) .out :=
    fun desc => aside_skip (raspikeComFlush_all (hk (by simp) (by simp)) (fun _ _ => hk (by simp) (by simp)) hcom) rfl
      fun _ => rfl
  have hclient : c.isClient → wp (sectionLogic T i ty n) t c.body (fun _ g => g = .out) .out := by
    intro hclient
    have hgetters : Passes (fun _ p => wp (sectionLogic T i ty n) t p (fun _ g => g = .out) .out)
        getterKinds {.fgStatus} := by
      apply aside_passes.mono
      · rintro k (rfl | rfl) <;> exact ⟨by simp, by simp⟩
      · rintro l rfl
        simp
    apply calls_around hgetters (fun _ _ _ => True) (fun _ => trivial)
    · exact fun port cmd buf size _ => aside_skip
        (raspikeProtSend_all requestKinds_aside requestMutexes_aside port cmd buf size) rfl fun _ => rfl
    · exact fun port cmd buf size _ => aside_skip
        (raspikeProtSendPriority_all requestKinds_aside requestMutexes_aside port cmd buf size) rfl
        fun _ => rfl
    · exact fun port cmd data size _ => request_section port cmd data size
    · rintro fgDeviceType port rfl
      exact getDeviceCommon_section hc
    · exact hclient
    · cases c <;> trivial
  cases c with
  | init desc =>
    refine wp_call ?_ fun _ => wp_pure rfl
    apply raspikeProtInit_passes ?_ ?_ aside_passes ?_ hflush initPorts_section hv2 hsess
    · apply modify_section
      · exact fun _ => rfl
      · rfl
    · intro k hmem
      constructor
      all_goals
        rintro rfl
        exact hmem
    · rintro l hmem rfl
      exact hmem
    · exact fun desc buf => aside_skip (raspikeComSend_all (hk (by simp) (by simp)) (fun _ _ => hk (by simp) (by simp)) hcom _)
        rfl fun _ => rfl
  | shutdown =>
    refine wp_call ?_ fun _ => wp_pure rfl
    apply raspikeProtShutdown_around aside_passes ?_ ?_ (resetPortState_section _ _)
      (fun d => hflush (some d)) (hv2 false) (hsess 0)
    · rintro k (rfl | rfl | rfl | rfl) <;> exact hk (by simp) (by simp)
    · rintro l (rfl | rfl | rfl) <;> simp
  | receive =>
    have hreceive : Does asideKinds {l | l ≠ .device i} raspikeProtReceive := by
      have hlife : Mutex.fgLifecycle ∈ ({l | l ≠ .device i} : Set Mutex) := by simp
      apply raspikeProtReceive_all ?_ ?_ (fun _ => hk (by simp) (by simp)) (hk (by simp) (by simp)) hlife
      · intro k hmem
        constructor
        all_goals
          rintro rfl
          simp [commandKinds] at hmem
      · rintro l hmem rfl
        simp [commandMutexes] at hmem
    exact wp_call (aside_skip hreceive rfl fun _ => rfl) fun _ => wp_pure rfl
  | _ => exact hclient rfl

theorem client_section {calls : List Call} (hc : ∀ c ∈ calls, c.IsPup) :
    wp (sectionLogic T i ty n) t (client calls) (fun _ g => g = .out) .out := by
  have hN : (sectionLogic T i ty n).Neutral (Acc {.call}) (· ∈ (∅ : Set Mutex)) t .out := by
    apply (aside_neutral rfl).mono
    · intro e f hacc
      apply hacc.aside
      rintro k rfl
      exact ⟨nofun, nofun⟩
    · exact fun l hl => hl.elim
  exact client_keeps hN calls fun c hmem => body_section (hc c hmem)

end RaspikeArt
