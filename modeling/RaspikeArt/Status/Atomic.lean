import RaspikeArt.Status.ModeRead

/-!
# The saved status, part 9: reads and waits are atomic

`GET_AND_RET_SENSOR_COMMON` and `read_status_snapshot` fetch the pointer, and copy under the mutex; a wait for
a mode looks at the record again each time it is awake.

* `Call.shows`         what a call that reads shows of a record;
* `Call.awaits`        the port and the mode that a call waits for;
* `use_moment`         what is used last is what the record was at one moment of the call;
* `reads_linearizable` a read returns what the record was at such a moment;
* `counts_fresh`       so the count of a motor is the one that the last frame before that moment carries;
* `waits_see`          a wait that succeeds has seen its mode at such a moment.
-/

namespace RaspikeArt
open Threads

/-- what a call that reads the saved status at once shows of the record -/
def Call.shows : Call → Option (SpikeStatus → Ret)
  | .readStatusSnapshot => some fun s => .bytes (List.ofFn s)
  | .sensor (some i) index size => some fun s => .bytes (s.bytes (portOffset i.val + dataOffset + index) size)
  | _ => none

/-- the begin or the end of a call -/
def Event.isBound : Event → Bool
  | .call _ | .returned _ _ => true
  | _ => false

/-- a read through a handle is through one of `hs` -/
def Call.Through (hs : Set Port) (call : Call) : Prop :=
  ∀ i index size, call = .sensor (some i) index size → i ∈ hs

/-! ## what a read does last -/

/-- the last label is a use of the saved status that shows `r` -/
def ReadLabels (f : SpikeStatus → Ret) (r : Ret) (g : List (Event × SpikeStatus)) : Prop :=
  ∃ q s g', g = (.statusUse q, s) :: g' ∧ r = f s

def readPromise (hs : Set Port) (g : List (Event × SpikeStatus)) (e : Event) (_ : SpikeStatus) : Prop :=
  ∀ call r f, e = .returned call r → call.shows = some f → call.Through hs → ReadLabels f r g

theorem readPromise_atCalls (hs : Set Port) : AtCalls (readPromise hs) := by
  rintro g e v he call r f rfl
  exact (he rfl).elim

section
variable {p : Nat} {hs : Set Port} {i : Port} {g : List (Event × SpikeStatus)}

/-- a copy under the mutex, through the pointer that has been fetched -/
theorem copy_labels {α β : Type} (view : SpikeStatus → α) (k : α → β) :
    along (watching p hs (readPromise hs)) (do
      lock .fgStatus
      let value ← readStatus (some p) view
      unlock .fgStatus
      return k value) (fun r g' => ∃ q s g₀, g' = (.statusUse q, s) :: g₀ ∧ r = k (view s)) g := by
  apply along_bind
  apply along_lock
  apply along_bind
  apply along_act
  intro m hm
  refine ⟨readPromise_atCalls hs _ (.statusUse (some p)) m.record (by rintro ⟨⟩), ?_⟩
  apply along_bind
  apply along_unlock
  refine ⟨some p, m.record, g, rfl, ?_⟩
  rw [Mem.record, hm.pointer]

theorem snapshot_labels : along (watching p hs (readPromise hs)) readStatusSnapshot
    (fun snapshot g' => ∃ q s g₀, g' = (.statusUse q, s) :: g₀ ∧ snapshot = some s) g := by
  apply along_bind
  apply along_act
  intro m hm
  refine ⟨readPromise_atCalls hs _ (.statusFetch m.fgStatus) m.record (by rintro ⟨⟩), ?_⟩
  show along (watching p hs (readPromise hs)) (if m.fgStatus.isNone = true then _ else _) _ _
  rw [hm.pointer, if_neg (by simp)]
  exact copy_labels id some

theorem getter_labels (hmem : i ∈ hs) (hi : i.val < 6) (index size : Nat) :
    along (watching p hs (readPromise hs)) (getAndRetSensorCommon (some i) index size)
      (fun bs g' => ∃ q s g₀, g' = (.statusUse q, s) :: g₀ ∧
        bs = s.bytes (portOffset i.val + dataOffset + index) size) g := by
  apply along_bind
  apply along_act
  intro m hm
  refine ⟨trivial, ?_⟩
  -- the handle is still that of its port
  have hvalid : raspikeIsValidPort (m.gPortDevices i).device.portId = true := by
    have hport : (m.gPortDevices i).device.portId.toNat = i.val := hm.held i hmem
    simp [raspikeIsValidPort, rpDevicePortCount, hport, hi]
  show along (watching p hs (readPromise hs)) (if (!raspikeIsValidPort (m.gPortDevices i).device.portId) = true
    then _ else _) _ _
  rw [hvalid, if_neg (by simp)]
  apply along_bind
  apply along_act
  intro m₁ hm₁
  refine ⟨readPromise_atCalls hs _ (.statusFetch m₁.fgStatus) m₁.record (by rintro ⟨⟩), ?_⟩
  show along (watching p hs (readPromise hs)) (if m₁.fgStatus.isNone = true then _ else _) _ _
  rw [hm₁.pointer, if_neg (by simp)]
  apply along_bind
  apply along_act
  intro m₂ hm₂
  refine ⟨trivial, ?_⟩
  have hport : (m₂.gPortDevices i).device.portId.toNat = i.val := hm₂.held i hmem
  rw [← hport]
  exact copy_labels _ id

theorem client_reads (hports : ∀ j ∈ hs, j.val < 6) {cs : List Call} (hinit : ∀ c ∈ cs, ∀ desc, c ≠ .init desc) :
    along (watching p hs (readPromise hs)) (client cs) (fun _ _ => True) [] := by
  have hA := readPromise_atCalls hs
  apply client_reading
  · intro call _ g v call' r f heq
    cases heq
  · intro call hcall g v
    by_cases hreads : call.shows ≠ none ∧ call.Through hs
    · obtain ⟨hshows, hthrough⟩ := hreads
      cases call with
      | readStatusSnapshot =>
        apply along_seq snapshot_labels
        rintro _ g' ⟨q, s, g₀, rfl, rfl⟩ v' call' r f heq hf -
        cases heq
        cases hf
        exact ⟨q, s, g₀, rfl, rfl⟩
      | sensor pdev index size =>
        cases pdev with
        | none => exact (hshows rfl).elim
        | some i =>
          have hmem := hthrough i index size rfl
          apply along_seq (getter_labels hmem (hports i hmem) index size)
          rintro _ g' ⟨q, s, g₀, rfl, rfl⟩ v' call' r f heq hf -
          cases heq
          cases hf
          exact ⟨q, s, g₀, rfl, rfl⟩
      | _ => exact (hshows rfl).elim
    · apply along_mono _ (body_reading hA (hinit call hcall))
      intro r g' _ v' call' r' f heq hf hthrough
      cases heq
      refine (hreads ⟨?_, hthrough⟩).elim
      rw [hf]
      exact Option.some_ne_none f

end

/-! ## what a wait does last -/

/-- the port and the mode that a call waits for -/
def Call.awaits : Call → Option (Byte × Byte)
  | .waitPortCmdChange port cmd | .portComChangeIfNeeded port cmd => some (port, cmd)
  | _ => none

/-- a wait succeeds when it has found its mode last -/
def waitPromise (g : List (Event × SpikeStatus)) (e : Event) (_ : SpikeStatus) : Prop :=
  ∀ call port cmd, e = .returned call (.int 0) → call.awaits = some (port, cmd) →
    ∃ q s g', g = (.statusUse q, s) :: g' ∧ s.cmd port = cmd

theorem waitPromise_atCalls : AtCalls waitPromise := by
  rintro g e v he call port cmd rfl
  exact (he rfl).elim

section
variable {p : Nat} {hs : Set Port} {g : List (Event × SpikeStatus)}

/-- a wait for a mode of the port, which is one of the six or refused -/
theorem awaits_labels {call : Call} {port cmd : Byte} (hcall : call.awaits = some (port, cmd)) :
    along (watching p hs waitPromise) call.body (fun r g' => r = .int 0 →
      ∃ q s g₀, g' = (.statusUse q, s) :: g₀ ∧ s.cmd port = cmd) g := by
  have hA := waitPromise_atCalls
  by_cases hport : port.toNat < 6
  · have hfound : ∀ r g', ChangeLabels ⟨port.toNat, by omega⟩ cmd r g' → Ret.int r = .int 0 →
        ∃ q s g₀, g' = (.statusUse q, s) :: g₀ ∧ s.cmd port = cmd := by
      intro r g' hchange hr
      rcases hchange with ⟨-, hfound⟩ | ⟨hne, -⟩
      · exact hfound
      · exact (hne (Ret.int.inj hr)).elim
    cases call with
    | waitPortCmdChange port' cmd' =>
      cases hcall
      exact along_seq (wait_labels hA hport rfl) hfound
    | portComChangeIfNeeded port' cmd' =>
      cases hcall
      exact along_seq (change_labels hA hport rfl) hfound
    | _ => cases hcall
  · have hrefused : port.toNat ≥ rpDevicePortCount := Nat.le_of_not_lt hport
    cases call with
    | waitPortCmdChange port' cmd' =>
      cases hcall
      apply along_bind
      unfold raspikeWaitPortCmdChange
      rw [if_pos hrefused]
      rintro ⟨⟩
    | portComChangeIfNeeded port' cmd' =>
      cases hcall
      apply along_bind
      unfold raspikePortComChangeIfNeeded
      rw [if_pos hrefused]
      rintro ⟨⟩
    | _ => cases hcall

theorem client_waits {cs : List Call} (hinit : ∀ c ∈ cs, ∀ desc, c ≠ .init desc) :
    along (watching p hs waitPromise) (client cs) (fun _ _ => True) [] := by
  apply client_reading
  · intro call _ g v call' port cmd heq
    cases heq
  · intro call hcall g v
    cases hawaits : call.awaits with
    | some awaited =>
      obtain ⟨port, cmd⟩ := awaited
      apply along_mono _ (awaits_labels hawaits)
      intro r g' hfound v' call' port' cmd' heq hawaits'
      cases heq
      cases hawaits.symm.trans hawaits'
      exact hfound rfl
    | none =>
      apply along_mono _ (body_reading waitPromise_atCalls (hinit call hcall))
      intro r g' _ v' call' port cmd heq hawaits'
      cases heq
      cases hawaits.symm.trans hawaits'

end

/-! ## the moment of the last use -/

variable {T : Type} [DecidableEq T] {p : Nat} {hs : Set Port} {calls : T → List Call} {m : Mem} {c : Sys T} {t : T}

/-- the call that a thread is in began last -/
theorem doing_split {tr : Trace T} {call : Call} (h : (doing t tr).call = some call) :
    ∃ ws us, tr = ws ++ (t, .call call) :: us ∧ ∀ e, (t, e) ∈ ws → e.isBound = false := by
  induction tr with
  | nil => cases h
  | cons x tr ih =>
    obtain ⟨u, e⟩ := x
    -- an entry that neither begins nor ends a call of the thread
    have hskip : (doing t tr).call = some call → (u = t → e.isBound = false) →
        ∃ ws us, (u, e) :: tr = ws ++ (t, .call call) :: us ∧ ∀ e, (t, e) ∈ ws → e.isBound = false := by
      intro hcall hkind
      obtain ⟨ws, us, rfl, hws⟩ := ih hcall
      refine ⟨(u, e) :: ws, us, rfl, fun e' he' => ?_⟩
      rcases List.mem_cons.mp he' with heq | he'
      · cases heq
        exact hkind rfl
      · exact hws e' he'
    by_cases hu : u = t
    · subst hu
      have hnext : ((doing u tr).next e).call = some call := by rwa [doing, ownFold, if_pos rfl] at h
      cases e with
      | call c' =>
        cases hnext
        exact ⟨[], tr, rfl, by simp⟩
      | returned => cases hnext
      | _ => exact hskip hnext fun _ => rfl
    · rw [doing, ownFold, if_neg hu] at h
      exact hskip h fun heq => (hu heq).elim

/-- what a call has used last is what the record was at one moment between its begin and its end -/
theorem use_moment (hl : Live p hs m) (hports : ∀ j ∈ hs, j.val < 6) (hinit : NoInit calls)
    (hdown : NoShutdown calls) (hreset : Resets hs calls) (hr : Reach (start m calls) c) {call : Call} {r : Ret}
    {as tr : Trace T} (htr : c.trace = as ++ (t, .returned call r) :: tr) {q : Option Nat} {s : SpikeStatus}
    {g : List (Event × SpikeStatus)} (hg : ownReads (recordOf m.record) t tr = (.statusUse q, s) :: g) :
    ∃ zs ws us, tr = zs ++ (t, .statusUse q) :: (ws ++ (t, .call call) :: us) ∧ (∀ x ∈ zs, x.1 ≠ t) ∧
      (∀ e, (t, e) ∈ ws → e.isBound = false) ∧ s = recordOf m.record (ws ++ (t, .call call) :: us) := by
  obtain ⟨zs, ys, rfl, hzs, hs, -⟩ := ownReads_eq_cons hg
  -- the thread was in this call already
  have hcall := (record_history hports hinit hdown hreset hl hr).2.2 as t call r _ htr
  rw [doing_others hzs, doing_use] at hcall
  obtain ⟨ws, us, rfl, hws⟩ := doing_split hcall
  exact ⟨zs, ws, us, rfl, hzs, hws, hs⟩

omit [DecidableEq T] in
/-- no call of the thread begins or ends around its last use of the saved status -/
theorem unbound {zs ws : Trace T} {q : Option Nat} (hzs : ∀ x ∈ zs, x.1 ≠ t)
    (hws : ∀ e, (t, e) ∈ ws → e.isBound = false) :
    ∀ e, (t, e) ∈ zs ++ (t, .statusUse q) :: ws → e.isBound = false := by
  intro e he
  rcases List.mem_append.mp he with he | he
  · exact (hzs _ he rfl).elim
  rcases List.mem_cons.mp he with heq | he
  · cases heq
    rfl
  · exact hws e he

/-- one thread reads the first port, the other one receives -/
def glanceAndReceive : Bool → List Call
  | true => [.sensor (some 0) 0 4]
  | false => [.receive]

theorem glanceAndReceive_noInit : NoInit glanceAndReceive := by
  intro t c hc desc
  cases t <;> simp [glanceAndReceive] at hc <;> subst hc <;> simp

theorem glanceAndReceive_noShutdown : NoShutdown glanceAndReceive := by
  intro t
  cases t <;> simp [glanceAndReceive]

theorem glanceAndReceive_resets : Resets {0} glanceAndReceive := by
  intro t i h
  cases t <;> simp [glanceAndReceive] at h

/-- **Counts are fresh.**  When no thread connects, disconnects or resets the count of the motor, a read of the count
returns the one that the last frame carries that is stored before one moment of the call; if there is none, the
first one. -/
theorem counts_fresh {i : Port} (hl : Live p hs m) (hports : ∀ j ∈ hs, j.val < 6) (hinit : NoInit calls)
    (hdown : NoShutdown calls) (hreset : Resets hs calls) (hi : i ∈ hs)
    (hno : ∀ u, .motorResetCount (some i) ∉ calls u) (hr : Reach (start m calls) c) {bs : List Byte} {as tr : Trace T}
    (htr : c.trace = as ++ (t, .returned (.sensor (some i) rpMotorIndexCount 4) (.bytes bs)) :: tr) :
    ∃ zs q ws us, tr = zs ++ (t, .statusUse q) :: (ws ++ (t, .call (.sensor (some i) rpMotorIndexCount 4)) :: us) ∧
      (∀ e, (t, e) ∈ zs ++ (t, .statusUse q) :: ws → e.isBound = false) ∧
      bs = (lastStored (frameCount i) [] (ws ++ (t, .call (.sensor (some i) rpMotorIndexCount 4)) :: us)).getD
        (m.record.count i) := by
  have hthrough : (Call.sensor (some i) rpMotorIndexCount 4).Through hs := by
    intro j index size heq
    cases heq
    exact hi
  obtain ⟨q, s, g', hg, hrecord⟩ := seen_history hports hinit hdown hreset hl hr
    (client_reads hports (hinit t)) htr _ _ _ rfl rfl hthrough
  obtain ⟨zs, ws, us, rfl, hzs, hws, rfl⟩ := use_moment hl hports hinit hdown hreset hr htr hg
  refine ⟨zs, q, ws, us, rfl, unbound hzs hws, ?_⟩
  -- the only other writes to the record are of other counts
  have hcarries : Carries (fun s => s.count i) (frameCount i) []
      (ws ++ (t, .call (.sensor (some i) rpMotorIndexCount 4)) :: us) := by
    refine ⟨frameStore_count (hports i hi), fun as' u e bs' j hsplit _ hcall s => ?_⟩
    apply clearCount_other
    rintro rfl
    rw [List.append_nil] at hcall
    have hmem : (u, .call (.motorResetCount (some j))) ∈ c.trace := by
      rw [htr, hsplit]
      simp [doing_call hcall]
    exact hno u (called hinit hr hmem)
  have hpart := part_recordOf (s := m.record) hcarries
  rw [List.append_nil] at hpart
  exact (Ret.bytes.inj hrecord).trans hpart

/-- the count of the status that comes in after the begin of the call -/
theorem counts_fresh_run : ∃ c tr, exec (start modeMem glanceAndReceive)
      (steps 4 true ++ steps 54 false ++ steps 4 true) = some c ∧
    c.trace = (true, .returned (.sensor (some 0) rpMotorIndexCount 4) (.bytes [2, 2, 2, 2])) :: tr ∧
    ∃ zs q ws us,
      tr = zs ++ (true, .statusUse q) :: (ws ++ (true, .call (.sensor (some 0) rpMotorIndexCount 4)) :: us) ∧
      (∀ e, (true, e) ∈ zs ++ (true, .statusUse q) :: ws → e.isBound = false) ∧
      [2, 2, 2, 2] = (lastStored (frameCount 0) [] (ws ++
        (true, .call (.sensor (some 0) rpMotorIndexCount 4)) :: us)).getD (modeMem.record.count 0) := by
  obtain ⟨c, hrun⟩ := Option.isSome_iff_exists.mp (show (exec (start modeMem glanceAndReceive)
    (steps 4 true ++ steps 54 false ++ steps 4 true)).isSome by decide +kernel)
  have hend : ∀ c ∈ exec (start modeMem glanceAndReceive) (steps 4 true ++ steps 54 false ++ steps 4 true),
      c.trace.head? = some (true, .returned (.sensor (some 0) rpMotorIndexCount 4) (.bytes [2, 2, 2, 2])) := by
    decide +kernel
  have htr : c.trace = [] ++ (true, .returned (.sensor (some 0) rpMotorIndexCount 4) (.bytes [2, 2, 2, 2])) ::
      c.trace.tail := (List.cons_head?_tail (hend c hrun)).symm
  have hno : ∀ u, .motorResetCount (some 0) ∉ glanceAndReceive u := by
    intro u
    cases u <;> simp [glanceAndReceive]
  refine ⟨c, c.trace.tail, hrun, htr, ?_⟩
  exact counts_fresh modeMem_live (by simp) glanceAndReceive_noInit glanceAndReceive_noShutdown
    glanceAndReceive_resets rfl hno (exec_reach hrun) htr

/-! ## waits -/

/-- **A wait sees its mode.**  When no thread connects or disconnects, a wait for a mode that returns zero has looked
at the record last of all, at a moment between the begin of the call and its end, and the record that the frames and
the resets up to then make of the first one has the port in that mode. -/
theorem waits_see (hl : Live p hs m) (hports : ∀ j ∈ hs, j.val < 6) (hinit : NoInit calls)
    (hdown : NoShutdown calls) (hreset : Resets hs calls) (hr : Reach (start m calls) c) {call : Call}
    {port cmd : Byte} {as tr : Trace T} (hawaits : call.awaits = some (port, cmd))
    (htr : c.trace = as ++ (t, .returned call (.int 0)) :: tr) :
    ∃ zs q ws us, tr = zs ++ (t, .statusUse q) :: (ws ++ (t, .call call) :: us) ∧ (∀ x ∈ zs, x.1 ≠ t) ∧
      (∀ e, (t, e) ∈ ws → e.isBound = false) ∧
      (recordOf m.record (ws ++ (t, .call call) :: us)).cmd port = cmd := by
  obtain ⟨q, s, g', hg, hmode⟩ : ∃ q s g', ownReads (recordOf m.record) t tr = (.statusUse q, s) :: g' ∧
      s.cmd port = cmd :=
    seen_history hports hinit hdown hreset hl hr (client_waits (hinit t)) htr call port cmd rfl hawaits
  obtain ⟨zs, ws, us, hsplit, hzs, hws, rfl⟩ := use_moment hl hports hinit hdown hreset hr htr hg
  exact ⟨zs, q, ws, us, hsplit, hzs, hws, hmode⟩

/-- one thread waits for mode HSV of the first port, the other one receives -/
def waitAndReceive : Bool → List Call
  | true => [.waitPortCmdChange 0 rpCmdIdColHsv]
  | false => [.receive]

theorem waitAndReceive_noInit : NoInit waitAndReceive := by
  intro t c hc desc
  cases t <;> simp [waitAndReceive] at hc <;> subst hc <;> simp

theorem waitAndReceive_noShutdown : NoShutdown waitAndReceive := by
  intro t
  cases t <;> simp [waitAndReceive]

theorem waitAndReceive_resets : Resets {0} waitAndReceive := by
  intro t i h
  cases t <;> simp [waitAndReceive] at h

/-- the thread sleeps until the status comes in -/
theorem waits_see_run : ∃ c tr, exec (start modeMem waitAndReceive)
      (steps 7 true ++ steps 56 false ++ steps 7 true) = some c ∧
    c.trace = (true, .returned (.waitPortCmdChange 0 rpCmdIdColHsv) (.int 0)) :: tr ∧
    ∃ zs q ws us,
      tr = zs ++ (true, .statusUse q) :: (ws ++ (true, .call (.waitPortCmdChange 0 rpCmdIdColHsv)) :: us) ∧
      (∀ x ∈ zs, x.1 ≠ true) ∧ (∀ e, (true, e) ∈ ws → e.isBound = false) ∧
      (recordOf modeMem.record (ws ++ (true, .call (.waitPortCmdChange 0 rpCmdIdColHsv)) :: us)).cmd 0 =
        rpCmdIdColHsv := by
  obtain ⟨c, hrun⟩ := Option.isSome_iff_exists.mp (show (exec (start modeMem waitAndReceive)
    (steps 7 true ++ steps 56 false ++ steps 7 true)).isSome by decide +kernel)
  have hend : ∀ c ∈ exec (start modeMem waitAndReceive) (steps 7 true ++ steps 56 false ++ steps 7 true),
      c.trace.head? = some (true, .returned (.waitPortCmdChange 0 rpCmdIdColHsv) (.int 0)) := by
    decide +kernel
  have htr : c.trace = [] ++ (true, .returned (.waitPortCmdChange 0 rpCmdIdColHsv) (.int 0)) :: c.trace.tail :=
    (List.cons_head?_tail (hend c hrun)).symm
  refine ⟨c, c.trace.tail, hrun, htr, ?_⟩
  exact waits_see modeMem_live (by simp) waitAndReceive_noInit waitAndReceive_noShutdown waitAndReceive_resets
    (exec_reach hrun) rfl htr

end RaspikeArt
