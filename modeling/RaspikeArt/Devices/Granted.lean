import RaspikeArt.Devices.OneType
import RaspikeArt.Devices.Told

/-!
# Device types, part 7: every call keeps its place

* `*_besides`      the functions that leave the port and its two mutexes alone;
* `*_tells`        what the others do to the place of their thread;
* `request_tells`  a configuration returns 1 only if it was acknowledged with 1.
-/

set_option linter.unusedSectionVars false

namespace RaspikeArt
open Threads

variable {T : Type} [DecidableEq T] {i : Port} {t : T}

theorem besides_skip {α : Type} {p : P α} {g : Asker} {Q : α → Asker → Prop} (hp : Besides i p)
    (hQ : ∀ a, Q a g) : wp (tellLogic T i) t p Q g :=
  wp_all tells_neutral hp hQ

theorem calm_skip {α : Type} {p : P α} {g : Asker} {Q : α → Asker → Prop}
    (hp : Does calmKinds (otherMutexes i) p) (hQ : ∀ a, Q a g) : wp (tellLogic T i) t p Q g :=
  besides_skip (.of_does hp) hQ

/-- the programs that do not stay inside -/
theorem tells_passes : Passes (fun _ p => wp (tellLogic T i) t p (fun _ g => g = .out) .out) calmKinds
    (otherMutexes i) where
  pure _ := wp_pure rfl
  bind hp hq := wp_call hp hq
  does hp := calm_skip hp fun _ => rfl

theorem calm_quiet : Kind.quiet ∈ calmKinds := calm_mem nofun nofun nofun nofun nofun nofun

/-! ## the mutexes -/

/-- how a thread takes the two mutexes, and how it gives them back -/
inductive Asker.Locks (i : Port) : Asker → Mutex → Asker → Prop where
  | held : Locks i .out (.device i) .held
  | slot : Locks i .out (.request i) .slot
  | begun : Locks i .held (.request i) .begun

inductive Asker.Unlocks (i : Port) : Asker → Mutex → Asker → Prop where
  | held : Unlocks i .held (.device i) .out
  | ready (cmd : Byte) : Unlocks i (.ready cmd) (.device i) .out
  | slot : Unlocks i .slot (.request i) .out
  | begun : Unlocks i .begun (.request i) .held
  | answered (cmd : Byte) : Unlocks i (.answered cmd) (.request i) (.ready cmd)

theorem lock_tells {g g' : Asker} {l : Mutex} (hg : Asker.Locks i g l g') {Q : Unit → Asker → Prop} (hQ : Q () g') :
    wp (tellLogic T i) t (lock l) Q g := by
  refine wp_lock trivial fun w gs hI hgs hfree => ⟨g', ?_, hQ⟩
  have hI' : Tells i w gs := hI
  -- the mutex was free, so nobody else holds it
  have hnone : ∀ u, w.own l ≠ some u := fun u hu => by
    rw [hfree] at hu
    cases hu
  have hothers : ∀ u ≠ t, (gs u).asking = none := by
    intro u _
    cases hasking : (gs u).asking with
    | none => rfl
    | some cmd =>
      obtain ⟨hdevice, hrequest⟩ := Asker.of_asking hasking
      cases hg with
      | held => exact (hnone u (hI'.device u hdevice)).elim
      | slot | begun => exact (hnone u (hI'.request u hrequest)).elim
  have hkeep : ∀ l' u, w.own l' = some u → Function.update w.own l (some t) l' = w.own l' := by
    intro l' u hu
    apply Function.update_of_ne
    rintro rfl
    exact hnone u hu
  show Tells i { w with own := Function.update w.own l (some t) } (Function.update gs t g')
  apply hI'.relock hothers
  · exact fun u _ hu => hkeep _ u (hI'.device u hu)
  · exact fun u _ hu => hkeep _ u (hI'.request u hu)
  · intro hdevice
    cases hg with
    | held => exact Function.update_self ..
    | slot => cases hdevice
    | begun =>
      have hown := hI'.device t (hgs ▸ rfl)
      exact (hkeep _ t hown).trans hown
  · intro hrequest
    cases hg with
    | held => cases hrequest
    | slot | begun => exact Function.update_self ..
  · cases hg <;> rfl
  · cases hg <;> exact nofun

theorem unlock_tells {g g' : Asker} {l : Mutex} (hg : Asker.Unlocks i g l g') {Q : Unit → Asker → Prop}
    (hQ : Q () g') : wp (tellLogic T i) t (unlock l) Q g := by
  refine wp_unlock trivial fun w gs hI hgs => ⟨g', ?_, hQ⟩
  have hI' : Tells i w gs := hI
  have hother : ∀ l', l' ≠ l → Function.update w.own l none l' = w.own l' := fun _ h =>
    Function.update_of_ne h ..
  have hothers : ∀ u ≠ t, (gs u).asking = none := by
    apply hI'.silent hgs
    cases hg with
    | held | ready => exact .inl rfl
    | slot | begun | answered => exact .inr rfl
  show Tells i { w with own := Function.update w.own l none } (Function.update gs t g')
  apply hI'.relock hothers
  · intro u hu hud
    cases hg with
    | held | ready =>
      rw [(hI'.alone hgs hu).1 rfl] at hud
      cases hud
    | slot | begun | answered => exact hother _ nofun
  · intro u hu hur
    cases hg with
    | held | ready => exact hother _ nofun
    | slot | begun | answered =>
      rw [(hI'.alone hgs hu).2 rfl] at hur
      cases hur
  · intro hdevice
    cases hg with
    | held | ready | slot => cases hdevice
    | begun | answered => exact (hother (.device i) nofun).trans (hI'.device t (hgs ▸ rfl))
  · cases hg <;> exact nofun
  · cases hg <;> rfl
  · intro cmd hcmd
    cases hg with
    | answered => exact hgs ▸ hcmd
    | _ => cases hcmd

/-! ## the ports -/

theorem setPort_typeOf {m : Mem} {j : Port} {f : RPPortDevice → RPPortDevice}
    (hf : (f (m.gPortDevices j)).device = (m.gPortDevices j).device) : (m.setPort j f).typeOf i = m.typeOf i := by
  by_cases hj : i = j
  · subst hj
    rw [Mem.typeOf, setPort_self, hf]
    rfl
  · rw [Mem.typeOf, setPort_of_ne _ _ hj]
    rfl

/-- a labelled change of one port -/
theorem besides_port {j : Port} {e : Event} {f : RPPortDevice → RPPortDevice} (hother : j ≠ i → Plain i (some e))
    (hown : j = i → ∀ m : Mem, Untold i m (some e) (m.setPort i f)) :
    Besides i (.act (fun _ => some e) (fun m => ((), m.setPort j f)) .ret) := by
  refine ⟨fun m => ?_, fun _ => trivial⟩
  by_cases hj : j = i
  · subst hj
    exact hown rfl m
  · exact .of_ports (hother hj) (setPort_of_ne _ _ (Ne.symm hj))

theorem plain_port {e : Event} (h : ∀ a : Told, a.next i e = a) : Plain i (some e) := by
  rintro e' he
  cases he
  exact h

theorem processAck_besides (j : Port) (sequence session : U32) (buf : List Byte) :
    Besides i (processAck j sequence session buf) := by
  have hport : Mutex.port j ∈ otherMutexes i := ⟨by simp, by simp⟩
  have hstats : Mutex.fgLinkStats ∈ otherMutexes i := ⟨by simp, by simp⟩
  have hF := besides_passes (i := i)
  have hunlock : ∀ r : Int, Besides i (do
      unlock (.port j)
      return r : P Int) := fun r => hF.bind (hF.does (Does.unlock hport)) fun _ => hF.pure r
  refine hF.bind (hF.does (Does.lock hport)) fun _ => hF.bind (hF.does (Does.load calm_quiet)) fun d => ?_
  -- the answer of a cancellation is not that of an ACK
  by_cases hcmd : getInt32 buf ≥ 0
  case neg =>
    have hstale : ackMatches d sequence session (getInt32 buf) = pure false := if_neg (by simp [hcmd])
    rw [hstale]
    have hrefused : Besides i (do
        statsIncrement .staleAcks
        unlock (.port j)
        return -ESTALE : P Int) := hF.bind (hF.does (statsIncrement_all calm_quiet hstats _)) fun _ => hunlock _
    exact hrefused
  refine hF.bind (hF.does (ackMatches_all calm_quiet d sequence session _)) fun isCurrent => ?_
  refine hF.bind ?_ fun _ => hunlock _
  split
  case isFalse => exact hF.does (statsIncrement_all calm_quiet hstats _)
  refine hF.bind (besides_port (fun hj => plain_port fun a => if_neg fun h => hj h.1) ?_) fun _ =>
    hF.does Does.broadcast
  rintro rfl m
  refine .acked sequence session ?_ ?_ ?_ (setPort_typeOf rfl)
  · rw [setPort_self]
  · rw [setPort_self]
    show getInt32 buf ≠ -1
    omega
  · rw [setPort_self]

theorem resetSlot_besides {error : Int} (herror : error ≠ 1) (j : Port) : Besides i (resetSlot error j) := by
  have hport : Mutex.port j ∈ otherMutexes i := ⟨nofun, nofun⟩
  have hF := besides_passes (i := i)
  refine hF.bind (hF.does (Does.lock hport)) fun _ => hF.bind (hF.does (Does.load calm_quiet)) fun canceled => ?_
  refine hF.bind ?_ fun _ => hF.does (Does.unlock hport)
  split
  · refine hF.bind (hF.does (Does.load calm_quiet)) fun session => ?_
    refine hF.bind (besides_port (fun _ => plain_port fun _ => rfl) fun _ m => ?_) fun _ =>
      hF.does Does.broadcast
    refine .reset (plain_port fun _ => rfl) (fun _ => ?_) ?_ (.inl (setPort_typeOf rfl))
    · rw [setPort_self]
    · rw [setPort_self]
      exact herror
  · refine besides_port (fun _ => plain_port fun _ => rfl) fun _ m => ?_
    refine .reset (plain_port fun _ => rfl) (fun hp => ?_) ?_ (.inl (setPort_typeOf rfl))
    · rw [setPort_self]
      exact hp
    · rw [setPort_self]
      exact nofun

theorem resetDevice_tells (j : Port) :
    wp (tellLogic T i) t (resetDevice j) (fun _ g => g = .out) .out := by
  by_cases hj : j = i
  case neg =>
    have hl : Mutex.device j ∈ otherMutexes i := ⟨fun h => hj (Mutex.device.inj h), nofun⟩
    have hF := besides_passes (i := i)
    have hclear : Besides i (resetDevice j) := hF.bind (hF.does (Does.lock hl)) fun _ =>
      hF.bind (besides_port (fun _ => plain_port fun _ => if_neg hj) fun h => (hj h).elim) fun _ =>
      hF.does (Does.unlock hl)
    exact besides_skip hclear fun _ => rfl
  rw [hj]
  apply wp_bind
  apply lock_tells .held
  apply wp_bind
  apply wp_act
  intro w gs hI hg _
  have hI' : Tells i w gs := hI
  refine ⟨.held, ?_, unlock_tells .held rfl⟩
  -- nobody else counts on what the hub has been told
  refine hI'.of_alone (hI'.silent hg (.inl rfl)) (fun _ _ _ => rfl) (fun _ _ _ => rfl)
    (fun _ => hI'.device t (hg ▸ rfl)) nofun nofun nofun nofun nofun ?_ ?_
  · intro u hu cmd hknows
    have hdevice := Asker.of_knows hknows
    rw [(hI'.alone hg hu).1 rfl] at hdevice
    cases hdevice
  · intro hne
    exact (hne (by simp [Mem.typeOf, PupDevice.zero])).elim

theorem resetPortState_tells {error : Int} (herror : error ≠ 1) (clearDevices : Bool) :
    wp (tellLogic T i) t (resetPortState error clearDevices) (fun _ g => g = .out) .out := by
  refine wp_forEach (fun _ g => g = .out) rfl ?_ fun _ h => h
  rintro j is _ rfl
  apply wp_bind
  apply besides_skip (resetSlot_besides herror j)
  intro _
  split
  · exact resetDevice_tells j
  · exact wp_pure rfl

/-! ## requests -/

/-- the kinds of a request but for its begin and its end -/
theorem attempts_calm {ls : Set Mutex} {j : Port} (hp : Mutex.port j ∈ ls) (hl : Mutex.fgSend ∈ ls)
    (hc : Mutex.comSend ∈ ls) (ht : Mutex.fgLinkStats ∈ ls) (port cmd : Byte) (data : Buf) (size : Int)
    (sequence : U32) (n : Nat) (result : Int) :
    Does calmKinds ls (requestAttempts j port cmd data size sequence n result) :=
  requestAttempts_all calm_quiet (fun _ => calm_mem nofun nofun nofun nofun nofun nofun)
    (calm_mem nofun nofun nofun nofun nofun nofun) (calm_mem nofun nofun nofun nofun nofun nofun)
    (calm_mem nofun nofun nofun nofun nofun nofun) hp hl hc ht port cmd data size sequence n result

/-- a request of another port -/
theorem request_besides {port : Byte} (hport : getDevice port ≠ some i) (cmd : Byte) (data : Buf) (size : Int) :
    Besides i (raspikeRequest port cmd data size) := by
  have hF := besides_passes (i := i)
  unfold raspikeRequest
  split
  · exact hF.pure _
  split
  · exact hF.pure _
  case h_2 j hget =>
  have hj : j ≠ i := by
    rintro rfl
    exact hport hget
  have hl : Mutex.port j ∈ otherMutexes i := ⟨nofun, nofun⟩
  have hr : Mutex.request j ∈ otherMutexes i := ⟨nofun, fun h => hj (Mutex.request.inj h)⟩
  have hstats : Mutex.fgLinkStats ∈ otherMutexes i := ⟨nofun, nofun⟩
  refine hF.bind (hF.does (Does.lock hr)) fun _ => hF.bind ?_ fun sequence => ?_
  · refine hF.bind (hF.does (nextSequence_all calm_quiet (calm_mem nofun nofun nofun nofun nofun nofun)
      ⟨nofun, nofun⟩)) fun sequence => hF.bind (hF.does (Does.lock hl)) fun _ => ?_
    exact hF.bind (besides_port (fun _ => plain_port fun _ => if_neg hj) fun h => (hj h).elim) fun _ =>
      hF.bind (hF.does (Does.unlock hl)) fun _ => hF.pure _
  refine hF.bind (hF.does (Does.load calm_quiet)) fun v2 => hF.bind (hF.does ?_) fun waited => ?_
  · exact attempts_calm hl ⟨nofun, nofun⟩ ⟨nofun, nofun⟩ hstats _ _ _ _ _ _ _
  refine hF.bind (hF.does (Does.lock hl)) fun _ => hF.bind (hF.does (Does.load calm_quiet)) fun d => ?_
  refine hF.bind (hF.does (requestOutcome_all calm_quiet hstats _ _ _ _ _)) fun outcome => ?_
  exact hF.bind (besides_port (fun _ => plain_port fun _ => if_neg hj) fun h => (hj h).elim) fun _ =>
    hF.bind (hF.does (Does.unlock hl)) fun _ => hF.bind (hF.does (Does.unlock hr)) fun _ => hF.pure _

/-- the begin and the end of a request, by a thread that holds the request mutex alone -/
theorem slot_tells {e : Event} {f : RPPortDevice → RPPortDevice} {α : Type} {a : α}
    (he : ∀ a : Told, (a.next i e).told = a.told) (hf : ∀ d, (f d).device = d.device) {Q : α → Asker → Prop}
    (hQ : Q a .slot) :
    wp (tellLogic T i) t (.act (fun _ => some e) (fun m => (a, m.setPort i f)) .ret : P α) Q .slot := by
  apply wp_act
  intro w gs hI hg _
  have hI' : Tells i w gs := hI
  have htold : (toldOf i ((t, e) :: w.trace)).told = (toldOf i w.trace).told := he _
  refine ⟨.slot, ?_, hQ⟩
  refine hI'.own_access hg (.inr rfl) nofun (fun h => h) ?_ nofun nofun nofun nofun ?_
  · intro cmd hcmd
    rw [World.push_some, htold]
    exact hcmd
  · have htype : (w.mem.setPort i f).typeOf i = w.mem.typeOf i := setPort_typeOf (hf _)
    show (w.mem.setPort i f).typeOf i ≠ 0 → makeCmd ((w.mem.setPort i f).typeOf i) 0 ∈ _
    rw [htype]
    exact hI'.type

/-- a request by a thread that holds no mutex of the port -/
theorem request_plain (port cmd : Byte) (data : Buf) (size : Int) :
    wp (tellLogic T i) t (raspikeRequest port cmd data size) (fun _ g => g = .out) .out := by
  by_cases hport : getDevice port = some i
  case neg => exact besides_skip (request_besides hport cmd data size) fun _ => rfl
  have hl : Mutex.port i ∈ otherMutexes i := ⟨by simp, by simp⟩
  have hstats : Mutex.fgLinkStats ∈ otherMutexes i := ⟨by simp, by simp⟩
  unfold raspikeRequest
  split
  · exact wp_pure rfl
  rw [hport]
  apply wp_bind
  apply lock_tells .slot
  apply wp_bind
  apply wp_bind
  apply calm_skip (nextSequence_all calm_quiet (calm_mem (by simp) (by simp) (by simp) (by simp) (by simp) (by simp))
    ⟨by simp, by simp⟩)
  intro sequence
  apply wp_bind
  apply calm_skip (Does.lock hl)
  intro _
  apply wp_bind
  apply slot_tells
  · intro a
    simp [Told.next]
  · exact fun _ => rfl
  apply wp_bind
  apply calm_skip (Does.unlock hl)
  intro _
  apply wp_bind
  apply calm_skip (Does.load calm_quiet)
  intro v2
  apply wp_bind
  apply calm_skip (attempts_calm hl ⟨by simp, by simp⟩ ⟨by simp, by simp⟩ hstats _ _ _ _ _ _ _)
  intro waited
  apply wp_bind
  apply calm_skip (Does.lock hl)
  intro _
  apply wp_bind
  apply calm_skip (Does.load calm_quiet)
  intro d
  apply wp_bind
  apply calm_skip (requestOutcome_all calm_quiet hstats _ _ _ _ _)
  intro outcome
  apply wp_bind
  apply slot_tells
  · intro a
    simp [Told.next]
  · exact fun _ => rfl
  apply wp_bind
  apply calm_skip (Does.unlock hl)
  intro _
  apply wp_bind
  apply unlock_tells .slot
  exact wp_pure rfl

/-! ## a configuration -/

/-- the port is marked pending for the configuration -/
theorem pend_tells {cmd : Byte} {s : U32} {f : RPPortDevice → RPPortDevice} (hdevice : ∀ d, (f d).device = d.device)
    (hpending : ∀ d, (f d).pending = true) {Q : Unit → Asker → Prop} (hQ : Q () (.asked cmd)) :
    wp (tellLogic T i) t (.act (fun _ => some (.pend i cmd s)) (fun m => ((), m.setPort i f)) .ret : P Unit) Q
      .begun := by
  apply wp_act
  intro w gs hI hg _
  have hI' : Tells i w gs := hI
  have hnext : toldOf i ((t, .pend i cmd s) :: w.trace) = { toldOf i w.trace with asked := some (cmd, s) } :=
    if_pos rfl
  refine ⟨.asked cmd, ?_, hQ⟩
  refine hI'.own_access hg (.inl rfl) (fun _ => rfl) (fun _ => rfl) ?_ ?_ nofun ?_ nofun ?_
  · intro cmd' h
    rw [World.push_some, hnext]
    exact h
  · rintro cmd' h
    cases h
    rw [World.push_some, hnext]
    exact ⟨s, rfl⟩
  · intro cmd' _ hp
    rw [setPort_self, hpending] at hp
    cases hp
  · have htype : (w.mem.setPort i f).typeOf i = w.mem.typeOf i := setPort_typeOf (hdevice _)
    show (w.mem.setPort i f).typeOf i ≠ 0 → makeCmd ((w.mem.setPort i f).typeOf i) 0 ∈ _
    rw [htype]
    exact hI'.type

/-- a look at the port -/
theorem see_tells {α : Type} {f : Mem → α} {g : Asker} {cmd : Byte} (hasking : g.asking = some cmd)
    {Q : α → Asker → Prop} (g' : Mem → Asker)
    (hg' : ∀ m, (g' m).asking = some cmd ∧
      (∀ cmd', g' m = .done cmd' → (m.gPortDevices i).pending = false ∨ g = .done cmd') ∧
      ∀ cmd', (g' m).knows = some cmd' → cmd' = cmd ∧ g = .done cmd ∧ (m.gPortDevices i).Grants cmd)
    (hQ : ∀ m, Q (f m) (g' m)) : wp (tellLogic T i) t (load f) Q g := by
  apply wp_act
  intro w gs hI hg _
  have hI' : Tells i w gs := hI
  obtain ⟨hdev, hreq⟩ := Asker.of_asking hasking
  obtain ⟨hsame, hdone, hknows⟩ := hg' w.mem
  have hcmd : ∀ cmd', (g' w.mem).asking = some cmd' → cmd' = cmd := fun cmd' h =>
    (Option.some.inj (hsame.symm.trans h)).symm
  refine ⟨g' w.mem, ?_, hQ w.mem⟩
  refine hI'.own_access (x := none) hg (.inl hdev) (fun _ => hdev) (fun _ => hreq) (fun _ h => h) ?_ ?_ ?_ ?_
    hI'.type
  · intro cmd' h
    rw [hcmd cmd' h]
    exact hI'.asked t cmd (hg ▸ hasking)
  · intro cmd' h
    rcases hdone cmd' h with hp | rfl
    · exact hp
    · exact hI'.done t cmd' hg
  · intro cmd' h hp hd
    obtain rfl := hcmd cmd' h
    exact hI'.answer t cmd' (hg ▸ hasking) hp hd
  · intro cmd' h
    obtain ⟨rfl, rfl, hd⟩ := hknows cmd' h
    exact hI'.answer t cmd' (hg ▸ rfl) (hI'.done t cmd' hg) hd

/-- the loop of a configuration over its attempts: a configuration that is completed is pending no more -/
def Completed (cmd : Byte) (completed : Bool) (g : Asker) : Prop :=
  g = if completed then .done cmd else .asked cmd

/-- a look at `pending`, after which the place is known -/
theorem pending_tells {cmd : Byte} {Q : Bool → Asker → Prop} (hpending : Q true (.asked cmd))
    (hdone : Q false (.done cmd)) :
    wp (tellLogic T i) t (load fun m => (m.gPortDevices i).pending) Q (.asked cmd) := by
  apply see_tells rfl (fun m => if (m.gPortDevices i).pending then .asked cmd else .done cmd)
  · intro m
    cases (m.gPortDevices i).pending with
    | true => exact ⟨rfl, nofun, nofun⟩
    | false => exact ⟨rfl, fun _ _ => .inl rfl, nofun⟩
  · intro m
    cases (m.gPortDevices i).pending with
    | true => exact hpending
    | false => exact hdone

theorem attempts_tells (port cmd : Byte) (data : Buf) (size : Int) (sequence : U32) (n : Nat) (result : Int) :
    wp (tellLogic T i) t (requestAttempts i port cmd data size sequence n result)
      (fun r g => Completed cmd r.2 g) (.asked cmd) := by
  have hl : Mutex.port i ∈ otherMutexes i := ⟨nofun, nofun⟩
  have hstats : Mutex.fgLinkStats ∈ otherMutexes i := ⟨nofun, nofun⟩
  have hsend : Mutex.fgSend ∈ otherMutexes i := ⟨nofun, nofun⟩
  have hcom : Mutex.comSend ∈ otherMutexes i := ⟨nofun, nofun⟩
  have hcalm : ∀ {k : Kind}, k = .gaveUp ∨ k = .send ∨ k = .frame → k ∈ calmKinds := by
    rintro k (rfl | rfl | rfl) <;> exact calm_mem nofun nofun nofun nofun nofun nofun
  have hmark : ∀ r : Int, Does calmKinds (otherMutexes i) (tick (.gaveUp i sequence r)) := fun r =>
    Does.tick (k := .gaveUp) (hcalm (.inl rfl)) rfl (fun _ => rfl) fun _ => rfl
  induction n generalizing result with
  | zero => exact wp_pure rfl
  | succ n ih =>
    apply wp_bind
    apply calm_skip (Does.lock hl)
    intro _
    apply wp_bind
    apply pending_tells
    case hdone =>
      apply wp_bind
      apply calm_skip (Does.unlock hl)
      exact fun _ => rfl
    apply wp_bind
    apply calm_skip (Does.unlock hl)
    intro _
    apply wp_bind
    apply calm_skip (sendFrame_all calm_quiet (fun _ => calm_mem nofun nofun nofun nofun nofun nofun)
      (hcalm (.inr (.inr rfl))) (hcalm (.inr (.inl rfl))) hsend hcom hstats _ _ _ _ _ _ _)
    intro sent
    split
    · apply wp_bind
      apply calm_skip (hmark sent)
      exact fun _ => rfl
    -- the wait of the attempt
    apply wp_seq (fun r g => Completed cmd r.2 g)
    · apply wp_bind
      apply calm_skip (Does.lock hl)
      intro _
      apply wp_bind
      apply calm_skip (requestSleep_all calm_quiet hl _)
      intro slept
      apply wp_bind
      apply pending_tells
      case hdone =>
        apply wp_bind
        apply calm_skip (Does.unlock hl)
        exact fun _ => rfl
      apply wp_bind
      apply calm_skip (p := if decide (n = 0) then tick (.gaveUp i sequence slept) else pure ())
      · split
        · exact hmark slept
        · exact Does.pure _
      intro _
      apply wp_bind
      apply calm_skip (Does.unlock hl)
      exact fun _ => rfl
    rintro ⟨waited, completed⟩ g hg
    cases completed with
    | true => exact hg
    | false =>
      have hg' : g = .asked cmd := hg
      subst hg'
      apply wp_bind
      apply calm_skip (p := if n ≠ 0 then statsIncrement .requestRetries else pure ())
      · split
        · exact statsIncrement_all calm_quiet hstats _
        · exact Does.pure _
      exact fun _ => ih waited

/-- the port has been looked at for the final section -/
structure Looked (cmd : Byte) (completed : Bool) (d : RPPortDevice) (g : Asker) : Prop where
  asking : g.asking = some cmd
  told : completed = true → d.Grants cmd → g = .told cmd

/-- what a configuration leaves -/
def Configured (cmd : Byte) (r : Int) (g : Asker) : Prop := r = 1 ∧ g = .ready cmd ∨ r ≠ 1 ∧ g = .held

theorem look_tells {cmd : Byte} {completed : Bool} {g : Asker} (hg : Completed cmd completed g)
    {Q : RPPortDevice → Asker → Prop} (hQ : ∀ d g', Looked cmd completed d g' → Q d g') :
    wp (tellLogic T i) t (load fun m => m.gPortDevices i) Q g := by
  cases completed with
  | false =>
    have hg' : g = .asked cmd := hg
    subst hg'
    apply see_tells rfl (fun _ => .asked cmd)
    · exact fun m => ⟨rfl, nofun, nofun⟩
    · exact fun m => hQ _ _ ⟨rfl, nofun⟩
  | true =>
    have hg' : g = .done cmd := hg
    subst hg'
    apply see_tells rfl (fun m => if (m.gPortDevices i).Grants cmd then .told cmd else .done cmd)
    · intro m
      by_cases hd : (m.gPortDevices i).Grants cmd
      · rw [if_pos hd]
        refine ⟨rfl, by simp, fun cmd' h => ?_⟩
        cases h
        exact ⟨rfl, rfl, hd⟩
      · rw [if_neg hd]
        refine ⟨rfl, fun cmd' h => ?_, by rintro _ ⟨⟩⟩
        cases h
        exact .inr rfl
    · intro m
      by_cases hd : (m.gPortDevices i).Grants cmd
      · rw [if_pos hd]
        exact hQ _ _ ⟨rfl, fun _ _ => rfl⟩
      · rw [if_neg hd]
        exact hQ _ _ ⟨rfl, fun _ h => (hd h).elim⟩

/-- the final section of a configuration: only an ACK gives it the value 1 -/
theorem finish_tells {cmd : Byte} {s : U32} {result : Int} {completed : Bool} {b : Branch} {r : Int} {d : RPPortDevice} {g : Asker}
    {f : RPPortDevice → RPPortDevice} (hf : ∀ d, (f d).device = d.device) (hg : Looked cmd completed d g)
    (hout : (b.isAnswer = true ∧ completed = true ∧ r = d.ackData ∧ (d.ackCmd = -1 ∨ d.ackCmd = cmd.toNat)) ∨
      b.isAnswer = false ∧ r = result)
    {Q : Unit → Asker → Prop} (hQ : ∀ g', (r = 1 ∧ g' = .answered cmd ∨ r ≠ 1 ∧ g' = .begun) → Q () g') :
    wp (tellLogic T i) t (.act (fun _ => some (.finish i cmd s completed b r)) (fun m => ((), m.setPort i f)) .ret :
      P Unit) Q g := by
  apply wp_act
  intro w gs hI hgs hK
  have hI' : Tells i w gs := hI
  obtain ⟨hdev, hreq⟩ := Asker.of_asking hg.asking
  have hnext : (toldOf i ((t, .finish i cmd s completed b r) :: w.trace)).told = (toldOf i w.trace).told := by
    show ((toldOf i w.trace).next i _).told = _
    simp [Told.next]
  have htold : ∀ cmd' ∈ (toldOf i w.trace).told,
      cmd' ∈ (toldOf i (World.push t (some (.finish i cmd s completed b r)) w.trace)).told := by
    intro cmd' h
    rw [World.push_some, hnext]
    exact h
  have htype : (w.mem.setPort i f).typeOf i ≠ 0 →
      makeCmd ((w.mem.setPort i f).typeOf i) 0 ∈ (toldOf i w.trace).told := by
    rw [setPort_typeOf (hf _)]
    exact hI'.type
  by_cases hr : r = 1
  · have hanswers : b.isAnswer = true ∨ r < 0 := hK _ List.mem_cons_self
    have htold' : g = .told cmd := by
      rcases hout with ⟨-, hcompleted, hdata, hcmd⟩ | ⟨hno, -⟩
      · exact hg.told hcompleted ⟨hdata ▸ hr, hcmd⟩
      · rw [hno] at hanswers
        rcases hanswers with h | h
        · cases h
        · omega
    refine ⟨.answered cmd, ?_, hQ _ (.inl ⟨hr, rfl⟩)⟩
    refine hI'.own_access hgs (.inl hdev) (fun _ => hdev) (fun _ => hreq) htold (by rintro _ ⟨⟩) (by simp)
      (by rintro _ ⟨⟩) ?_ htype
    intro cmd' h
    cases h
    exact hI'.knows t cmd (by rw [hgs, htold']; rfl)
  · refine ⟨.begun, ?_, hQ _ (.inr ⟨hr, rfl⟩)⟩
    exact hI'.own_access hgs (.inl hdev) (fun _ => hdev) (fun _ => hreq) htold (by rintro _ ⟨⟩) (by simp)
      (by rintro _ ⟨⟩) (by rintro _ ⟨⟩) htype

theorem request_tells {port cmd : Byte} (hport : getDevice port = some i) (hvalid : raspikeIsValidPort port) :
    wp (tellLogic T i) t (raspikeRequest port cmd none 0) (Configured cmd) .held := by
  have hl : Mutex.port i ∈ otherMutexes i := ⟨nofun, nofun⟩
  have hstats : Mutex.fgLinkStats ∈ otherMutexes i := ⟨nofun, nofun⟩
  have hsequence : Mutex.fgSequence ∈ otherMutexes i := ⟨nofun, nofun⟩
  unfold raspikeRequest
  rw [if_neg (by simp [hvalid]), hport]
  apply wp_bind
  apply lock_tells .begun
  -- the port is marked
  apply wp_bind
  apply wp_bind
  apply calm_skip (nextSequence_all calm_quiet (calm_mem nofun nofun nofun nofun nofun nofun) hsequence)
  intro sequence
  apply wp_bind
  apply calm_skip (Does.lock hl)
  intro _
  apply wp_bind
  apply pend_tells
  · exact fun _ => rfl
  · exact fun _ => rfl
  apply wp_bind
  apply calm_skip (Does.unlock hl)
  intro _
  -- the attempts
  apply wp_bind
  apply calm_skip (Does.load calm_quiet)
  intro v2
  apply wp_seq _ (attempts_tells _ _ _ _ _ _ _)
  intro waited g hg
  -- the final section
  apply wp_bind
  apply wp_mono _ (calm_skip (Q := fun _ g' => g' = g) (Does.lock hl) fun _ => rfl)
  rintro _ _ rfl
  apply wp_bind
  apply look_tells hg
  intro d g' hlooked
  apply wp_bind
  apply wp_yields tells_neutral (Besides.of_does (requestOutcome_all calm_quiet hstats _ _ _ _ _))
    (requestOutcome_yields _ _ _ _ _)
  intro outcome hout
  apply wp_bind
  refine finish_tells ?_ hlooked hout ?_
  · exact fun _ => rfl
  intro g₁ hg₁
  apply wp_bind
  apply calm_skip (Does.unlock hl)
  intro _
  apply wp_bind
  rcases hg₁ with ⟨hr, rfl⟩ | ⟨hr, rfl⟩
  · apply unlock_tells (.answered cmd)
    exact .inl ⟨hr, rfl⟩
  · apply unlock_tells .begun
    exact .inr ⟨hr, rfl⟩

/-- the type of the acknowledged configuration is recorded -/
theorem record_tells {ty : Byte} {Q : Unit → Asker → Prop} (hQ : Q () (.ready (makeCmd ty 0))) :
    wp (tellLogic T i) t (modify fun m => m.setPort i fun d =>
      { d with device := { d.device with deviceType := ty } }) Q (.ready (makeCmd ty 0)) := by
  apply wp_act
  intro w gs hI hg _
  have hI' : Tells i w gs := hI
  have htype : (w.mem.setPort i fun d => { d with device := { d.device with deviceType := ty } }).typeOf i = ty := by
    simp [Mem.typeOf]
  refine ⟨.ready (makeCmd ty 0), ?_, hQ⟩
  refine hI'.own_access (x := none) hg (.inl rfl) (fun _ => rfl) (by simp) (fun _ h => h) (by rintro _ ⟨⟩) (by simp)
    (by rintro _ ⟨⟩) ?_ ?_
  · exact fun cmd h => hI'.knows t cmd (hg ▸ h)
  · intro _
    rw [htype]
    exact hI'.knows t _ (hg ▸ rfl)

/-- a change of a device that leaves its type alone, or one of another port -/
theorem modify_besides {j : Port} {f : RPPortDevice → RPPortDevice} (hpending : ∀ d, (f d).pending = d.pending)
    (hdata : ∀ d, (f d).ackData = d.ackData) (hcmd : ∀ d, (f d).ackCmd = d.ackCmd)
    (htype : j = i → ∀ d, (f d).device.deviceType = d.device.deviceType) :
    Besides i (modify fun m => m.setPort j f) := by
  refine ⟨fun m => ?_, fun _ => trivial⟩
  by_cases hj : i = j
  · subst hj
    refine .kept plain_none ?_ ?_ ?_ ?_
    · show ((m.setPort i f).gPortDevices i).pending = _
      rw [setPort_self, hpending]
    · show ((m.setPort i f).gPortDevices i).ackData = _
      rw [setPort_self, hdata]
    · show ((m.setPort i f).gPortDevices i).ackCmd = _
      rw [setPort_self, hcmd]
    · show ((m.setPort i f).gPortDevices i).device.deviceType = _
      rw [setPort_self, htype rfl]
      rfl
  · exact .of_ports plain_none (setPort_of_ne _ _ hj)

/-- a configuration of another port -/
theorem getDeviceCommon_besides {fgDeviceType port : Byte} (hport : getDevice (port - 65) ≠ some i) :
    Besides i (getDeviceCommon fgDeviceType port) := by
  have hF := besides_passes (i := i)
  have hcalm : Kind.config ∈ calmKinds := calm_mem nofun nofun nofun nofun nofun nofun
  unfold getDeviceCommon
  dsimp only
  split
  · exact hF.pure _
  split
  case h_2 => exact hF.pure _
  case h_1 j hget =>
  have hj : j ≠ i := by
    rintro rfl
    exact hport hget
  have hl : Mutex.device j ∈ otherMutexes i := ⟨fun h => hj (Mutex.device.inj h), nofun⟩
  have hunlock : ∀ r : Option Port, Besides i (do
      unlock (.device j)
      return r : P (Option Port)) := fun r => hF.bind (hF.does (Does.unlock hl)) fun _ => hF.pure r
  have hend : ∀ r : Option Port, Besides i (do
      tick (.configured j)
      unlock (.device j)
      return r : P (Option Port)) := fun r =>
    hF.bind (hF.does (Does.tick hcalm rfl (fun _ => rfl) fun _ => rfl)) fun _ => hunlock r
  refine hF.bind (hF.does (Does.lock hl)) fun _ => hF.bind (hF.does (Does.load calm_quiet)) fun current => ?_
  split
  · exact hunlock _
  split
  · exact hunlock _
  refine hF.bind (hF.does (Does.tick hcalm rfl (fun _ => rfl) fun _ => rfl)) fun _ => ?_
  refine hF.bind (request_besides hport _ _ _) fun configResult => ?_
  split
  · exact hend _
  refine hF.bind (modify_besides (fun _ => rfl) (fun _ => rfl) (fun _ => rfl) fun h => (hj h).elim) fun _ => ?_
  exact hF.bind (modify_besides (fun _ => rfl) (fun _ => rfl) (fun _ => rfl) fun h => (hj h).elim) fun _ => hend _

theorem getDeviceCommon_tells (fgDeviceType port : Byte) :
    wp (tellLogic T i) t (getDeviceCommon fgDeviceType port) (fun _ g => g = .out) .out := by
  by_cases hport : getDevice (port - 65) = some i
  case neg => exact besides_skip (getDeviceCommon_besides hport) fun _ => rfl
  have hcalm : Kind.config ∈ calmKinds := calm_mem nofun nofun nofun nofun nofun nofun
  have hunlock : ∀ (r : Option Port) {g : Asker}, Asker.Unlocks i g (.device i) .out →
      wp (tellLogic T i) t (do
        unlock (.device i)
        return r : P (Option Port)) (fun _ g => g = .out) g := fun r g hg =>
    wp_bind (unlock_tells hg (wp_pure rfl))
  have hend : ∀ (r : Option Port) {g : Asker}, Asker.Unlocks i g (.device i) .out →
      wp (tellLogic T i) t (do
        tick (.configured i)
        unlock (.device i)
        return r : P (Option Port)) (fun _ g => g = .out) g := fun r g hg =>
    wp_bind (calm_skip (Does.tick hcalm rfl (fun _ => rfl) fun _ => rfl) fun _ => hunlock r hg)
  unfold getDeviceCommon
  dsimp only
  rw [hport]
  split
  · exact wp_pure rfl
  case isFalse hno =>
  have hvalid : raspikeIsValidPort (port - 65) := by simp_all
  apply wp_bind
  apply lock_tells .held
  apply wp_bind
  apply calm_skip (Does.load calm_quiet)
  intro current
  split
  · exact hunlock _ .held
  split
  · exact hunlock _ .held
  apply wp_bind
  apply calm_skip (Does.tick hcalm rfl (fun _ => rfl) fun _ => rfl)
  intro _
  apply wp_seq _ (request_tells hport hvalid)
  rintro configResult g (⟨rfl, rfl⟩ | ⟨hr, rfl⟩)
  · rw [if_neg (not_not.mpr rfl)]
    apply wp_bind
    apply record_tells
    apply wp_bind
    have hport : Besides i (modify fun m => m.setPort i fun d =>
        { d with device := { d.device with portId := port - 65 } }) :=
      modify_besides (fun _ => rfl) (fun _ => rfl) (fun _ => rfl) fun _ _ => rfl
    apply besides_skip hport
    exact fun _ => hend _ (.ready _)
  · rw [if_pos hr]
    exact hend _ .held

/-! ## the calls -/

theorem initPorts_tells : wp (tellLogic T i) t initPorts (fun _ g => g = .out) .out := by
  apply wp_bind
  apply calm_skip (Does.load calm_quiet)
  intro synchronized
  split
  · exact resetPortState_tells (by decide) true
  have hzero : ∀ j, Besides i (initPortDevice j) := by
    refine fun j => ⟨fun m => ?_, fun _ => trivial⟩
    by_cases hj : i = j
    · subst hj
      refine .reset plain_none (fun _ => ?_) ?_ (.inr ?_)
      · show ((m.setPort i fun _ => .zero).gPortDevices i).pending = false
        rw [setPort_self]
        rfl
      · show ((m.setPort i fun _ => .zero).gPortDevices i).ackData ≠ 1
        rw [setPort_self]
        decide
      · show ((m.setPort i fun _ => .zero).gPortDevices i).device.deviceType = 0
        rw [setPort_self]
        rfl
    · exact .of_ports plain_none (setPort_of_ne m (fun _ => .zero) hj)
  apply wp_bind
  apply besides_skip (Prog.All.forEach hzero)
  intro _
  have hset : Besides i (modify fun m => { m with fgPortSynchronizationInitialized := true }) :=
    ⟨fun m => .of_ports plain_none rfl, fun _ => trivial⟩
  exact besides_skip hset fun _ => rfl

theorem callocStatus_besides : Besides i callocStatus := by
  refine ⟨fun m => .of_ports plain_none ?_, fun _ => trivial⟩
  dsimp only
  split <;> rfl

theorem io_calm (d : Nat) : Kind.io d ∈ calmKinds := by simp [calmKinds]

theorem raspikeProtInit_tells (desc : Option Nat) :
    wp (tellLogic T i) t (raspikeProtInit desc) (fun _ g => g = .out) .out := by
  have hF := tells_passes (T := T) (i := i) (t := t)
  have hl : initMutexes ⊆ otherMutexes i := by
    intro l hmem
    cases l with
    | fgLifecycle | comSend => exact ⟨by simp, by simp⟩
    | _ => exact hmem.elim
  apply raspikeProtInit_around _ (by simp [calmKinds]) hl hF (besides_skip callocStatus_besides fun _ => rfl)
  · exact fun desc buf => hF.does (raspikeComSend_all calm_quiet (fun d _ => io_calm d) (hl trivial) buf)
  · exact fun desc => hF.does (raspikeComFlush_all calm_quiet (fun d _ => io_calm d) (hl trivial))
  · exact initPorts_tells
  · exact fun b => hF.does (setUseV2_all (by simp [calmKinds]) b)
  · exact fun s => hF.does (setSession_all (by simp [calmKinds]) s)
  · have hzero : Besides i (modify fun m => { m with fgActiveReceivers := 0 }) :=
      ⟨fun _ => .of_ports plain_none rfl, fun _ => trivial⟩
    exact besides_skip hzero fun _ => rfl
  · intro k hk
    cases k with
    | quiet | input | life | prot | status | statusPtr => simp [calmKinds]
    | _ => exact hk.elim

theorem raspikeProtShutdown_tells : wp (tellLogic T i) t raspikeProtShutdown (fun _ g => g = .out) .out := by
  have hF := tells_passes (T := T) (i := i) (t := t)
  apply raspikeProtShutdown_around hF
  · rintro k (rfl | rfl | rfl | rfl) <;> simp [calmKinds]
  · rintro l (rfl | rfl | rfl) <;> exact ⟨by simp, by simp⟩
  · exact resetPortState_tells (by decide) true
  · exact fun d => hF.does (raspikeComFlush_all calm_quiet (fun d _ => io_calm d) ⟨by simp, by simp⟩)
  · exact hF.does (setUseV2_all (by simp [calmKinds]) _)
  · exact hF.does (setSession_all (by simp [calmKinds]) _)

/-! ### every call -/

theorem receiveFrame_tells : wp (tellLogic T i) t receiveFrame (fun _ g => g = .out) .out := by
  have hN : (tellLogic T i).Neutral (Acc receiveKinds) (· ∈ receiveMutexes) t .out := by
    apply (tells_neutral (g := .out)).mono
    · intro e f hacc
      apply Acc.calm
      intro m
      obtain ⟨k, hk, hstep⟩ := hacc m
      refine ⟨k, ?_, hstep⟩
      cases k with
      | quiet | input | recv | prot | status => exact calm_mem nofun nofun nofun nofun nofun nofun
      | _ => exact hk.elim
    · intro l hl
      cases l with
      | fgStatus | fgRuntimeTelemetry | fgLinkStats => exact ⟨nofun, nofun⟩
      | _ => exact hl.elim
  apply receiveFrame_keeps hN
  · intro buf
    have hF := tells_passes (T := T) (i := i) (t := t)
    have hcalm : ∀ {k : Kind}, k = .sess ∨ k = .prot ∨ k = .hello ∨ k = .status → k ∈ calmKinds := by
      rintro k (rfl | rfl | rfl | rfl) <;> exact calm_mem nofun nofun nofun nofun nofun nofun
    unfold processHelloPayload
    split
    · exact hF.pure _
    refine hF.bind (hF.does (Does.load calm_quiet)) fun old => ?_
    split
    · exact hF.pure _
    refine hF.bind (hF.does (setSession_all (hcalm (.inl rfl)) _)) fun _ => ?_
    refine hF.bind (hF.does (setCapabilities_all (hcalm (.inr (.inl rfl))) _)) fun _ => ?_
    refine hF.bind (resetPortState_tells (by decide) false) fun _ => ?_
    refine hF.bind (hF.does (Does.tick (k := .hello) (hcalm (.inr (.inr (.inl rfl)))) rfl (fun _ => rfl)
      fun _ => rfl)) fun _ => ?_
    refine hF.bind (hF.does ?_) fun _ => hF.does ?_
    · exact clearSavedStatus_all calm_quiet (hcalm (.inr (.inr (.inr rfl)))) ⟨nofun, nofun⟩
    · exact clearRuntimeTelemetry_all (hcalm (.inr (.inl rfl))) ⟨nofun, nofun⟩
  · exact fun j s session buf => besides_skip (processAck_besides j s session buf) fun _ => rfl

theorem body_tells (c : Call) : wp (tellLogic T i) t c.body (fun _ g => g = .out) .out := by
  have hF := tells_passes (T := T) (i := i) (t := t)
  have hio : ∀ d, Kind.io d ∈ calmKinds := fun _ => calm_mem nofun nofun nofun nofun nofun nofun
  have hc : Mutex.comSend ∈ otherMutexes i := ⟨nofun, nofun⟩
  have hstats : Mutex.fgLinkStats ∈ otherMutexes i := ⟨nofun, nofun⟩
  have hsend : Mutex.fgSend ∈ otherMutexes i := ⟨nofun, nofun⟩
  have hcalm : ∀ {k : Kind}, k = .seq ∨ k = .send ∨ k = .frame ∨ k = .status ∨ k = .receivers →
      k ∈ calmKinds := by
    rintro k (rfl | rfl | rfl | rfl | rfl) <;> exact calm_mem nofun nofun nofun nofun nofun nofun
  have hsends : ∀ port cmd buf size flags flushNow, wp (tellLogic T i) t (do
      let sequence ← nextSequence
      sendFrame port cmd buf size sequence flags flushNow) (fun _ g => g = .out) .out := by
    intro port cmd buf size flags flushNow
    apply hF.bind (hF.does (nextSequence_all calm_quiet (hcalm (.inl rfl)) ⟨nofun, nofun⟩))
    intro s
    exact hF.does (sendFrame_all calm_quiet hio (hcalm (.inr (.inr (.inl rfl)))) (hcalm (.inr (.inl rfl))) hsend hc
      hstats _ _ _ _ _ _ _)
  have hclient : c.isClient → wp (tellLogic T i) t c.body (fun _ g => g = .out) .out := by
    intro hclient
    have hgetters : Passes (fun _ p => wp (tellLogic T i) t p (fun _ g => g = .out) .out) getterKinds {.fgStatus} := by
      apply hF.mono
      · rintro k (rfl | rfl)
        · exact calm_quiet
        · exact hcalm (.inr (.inr (.inr (.inl rfl))))
      · rintro l rfl
        exact ⟨nofun, nofun⟩
    apply calls_around hgetters (fun _ _ _ => True) (fun _ => trivial)
    · exact fun port cmd buf size _ => hsends port cmd buf size 0 false
    · exact fun port cmd buf size _ => hsends port cmd buf size rpV2FlagHighPriority true
    · exact fun port cmd data size _ => request_plain port cmd data size
    · exact fun fgDeviceType port _ => getDeviceCommon_tells fgDeviceType port
    · exact hclient
    · cases c <;> trivial
  cases c with
  | init desc => exact hF.bind (raspikeProtInit_tells desc) fun _ => wp_pure rfl
  | shutdown => exact hF.bind raspikeProtShutdown_tells fun _ => wp_pure rfl
  | receive =>
    refine hF.bind ?_ fun _ => wp_pure rfl
    apply raspikeProtReceive_passes (hF.mono _ _) receiveFrame_tells
    · rintro k (rfl | rfl)
      · exact calm_quiet
      · exact hcalm (.inr (.inr (.inr (.inr rfl))))
    · rintro l rfl
      exact ⟨nofun, nofun⟩
  | _ => exact hclient rfl

end RaspikeArt
