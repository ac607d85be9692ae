import RaspikeArt.Status.Seen
import RaspikeArt.Status.Drive
import RaspikeArt.Protocol.Correlation

/-!
# The saved status, part 7: the reset of a count

`pup_motor_reset_count` waits for its ACK and then clears the count in the saved status.  A frame that
a receiver stores in between is lost to the clear.

* `frameCount`          the count that a frame carries for a port;
* `reset_labels`        what the call does last: its request ends, and if the answer is 1 it clears;
* `CountKept`           the count is that of the last frame since the ACK, or 0;
* `reset_count_lost`    when it is;
* `newer_count_lost`    a run in which it is not.
-/

namespace RaspikeArt
open Threads

/-! ## the count of a port -/

def SpikeStatus.count (s : SpikeStatus) (i : Port) : List Byte := s.bytes (portOffset i.val + dataOffset) 4

def zeroCount : List Byte := [0, 0, 0, 0]

/-- the bytes of the count that a drive telemetry message carries for the port; its color slot writes
them too -/
def driveCount (i : Port) (t : List Byte) : Option (List Byte) :=
  if ColorValid t ∧ (colorPort t).toNat = i.val then some (reflectionBytes t)
  else if MotorValid t 1 ∧ (motorPort t 1).toNat = i.val then some (motorCount t 1)
  else if MotorValid t 0 ∧ (motorPort t 0).toNat = i.val then some (motorCount t 0)
  else none

/-- the count that a frame carries for the port; a new session clears every count -/
def frameCount (i : Port) (cmd : Byte) (payload : List Byte) : Option (List Byte) :=
  if cmd = rpCmdIdLinkHello then some zeroCount
  else if cmd = rpCmdIdAllStatus then some ((SpikeStatus.ofBytes payload).count i)
  else if cmd = rpCmdIdDriveTelemetry ∧ payload.length = driveTelemetrySize then driveCount i payload
  else none

variable {i : Port} {t : List Byte} {slot : Nat} {s : SpikeStatus}

/-- the entry of a port, by its number -/
theorem entry_of_port (hi : i.val < 6) : ∃ port : Byte, port.toNat = i.val := ⟨BitVec.ofNat 8 i.val, by
  rw [BitVec.toNat_ofNat]
  omega⟩

theorem count_same {port : Byte} (hport : port.toNat = i.val) {s' : SpikeStatus} (h : SameEntry port s s') :
    s'.count i = s.count i := by
  have hbytes := h.bytes (i := 0) (n := 4) (by decide)
  rwa [dataAt, hport] at hbytes

theorem driveMotor_count (hi : i.val < 6) (hlen : t.length = driveTelemetrySize) (hs : slot < 2) :
    (driveMotor t slot s).count i =
      if MotorValid t slot ∧ (motorPort t slot).toNat = i.val then motorCount t slot else s.count i := by
  obtain ⟨port, hport⟩ := entry_of_port hi
  split
  case isTrue h =>
    have hcount := (driveMotor_entry (s := s) hlen hs h.1).count
    rwa [dataAt, h.2] at hcount
  case isFalse h =>
    apply count_same hport
    apply driveMotor_same hlen hs
    rintro hvalid rfl
    exact h ⟨hvalid, hport⟩

theorem driveColor_count (hi : i.val < 6) : (driveColor t s).count i =
    if ColorValid t ∧ (colorPort t).toNat = i.val then reflectionBytes t else s.count i := by
  obtain ⟨port, hport⟩ := entry_of_port hi
  split
  case isTrue h =>
    have hcount := (driveColor_entry (s := s) h.1).reflection
    rwa [dataAt, h.2] at hcount
  case isFalse h =>
    apply count_same hport
    apply driveColor_same
    rintro hvalid rfl
    exact h ⟨hvalid, hport⟩

theorem driveMerge_count (hi : i.val < 6) (hlen : t.length = driveTelemetrySize) :
    (driveMerge t s).count i = (driveCount i t).getD (s.count i) := by
  rw [driveMerge, driveColor_count hi, driveMotor_count hi hlen (by decide), driveMotor_count hi hlen (by decide),
    driveCount]
  split
  · rfl
  split
  · rfl
  split <;> rfl

theorem zeroStatus_count (i : Port) : zeroStatus.count i = zeroCount := by
  simp [SpikeStatus.count, SpikeStatus.bytes, SpikeStatus.byte, zeroStatus, zeroCount, List.range_succ]

theorem frameStore_count (hi : i.val < 6) (cmd : Byte) (payload : List Byte) (s : SpikeStatus) :
    (frameStore cmd payload s).count i = (frameCount i cmd payload).getD (s.count i) := by
  unfold frameStore frameCount
  split
  · exact zeroStatus_count i
  split
  · rfl
  split
  case isTrue h => exact driveMerge_count hi h.2
  case isFalse => rfl

theorem clearCount_self (hi : i.val < 6) (s : SpikeStatus) : (clearCount i s).count i = zeroCount := by
  apply SpikeStatus.bytes_write
  have hend := portOffset_le hi
  show portOffset i.val + 4 + 4 ≤ 136
  omega

theorem clearCount_other {j : Port} (h : j ≠ i) (s : SpikeStatus) : (clearCount j s).count i = s.count i := by
  apply SpikeStatus.bytes_other
  have hne : j.val ≠ i.val := fun heq => h (Fin.ext heq)
  have hapart := portOffset_ne hne
  show portOffset i.val + 4 + 4 ≤ portOffset j.val + 4 ∨ portOffset j.val + 4 + 4 ≤ portOffset i.val + 4
  omega

/-! ## what the call does last -/

/-- the labels of the call's request, the last first: they say that its result is `r` -/
structure RequestLabels (i : Port) (r : Int) (s : U32) (completed : Bool) (b : Branch)
    (g qs g₀ : List (Event × SpikeStatus)) : Prop where
  split : ∃ v v', g = (.finish i rpCmdIdMotRst s completed b r, v) :: (qs ++ (.pend i rpCmdIdMotRst s, v') :: g₀)
  attempts : ∀ q ∈ qs, q.1.kind ∈ attemptKinds

/-- with the answer 1 the call clears the count after its request, with 0 it returns -/
def ResetLabels (p : Nat) (i : Port) (r : Int) (g : List (Event × SpikeStatus)) : Prop :=
  (r = 1 → ∃ v v' g', g = (.statusUse (some p), v) :: (.statusFetch (some p), v') :: g' ∧
    ∃ s completed b qs g₀, RequestLabels i 1 s completed b g' qs g₀) ∧
  (r = 0 → ∃ s completed b qs g₀, RequestLabels i 0 s completed b g qs g₀)

/-- the promise of a thread that resets counts -/
def resetPromise (p : Nat) (i : Port) (g : List (Event × SpikeStatus)) (e : Event) (_ : SpikeStatus) : Prop :=
  ∀ r, e = .returned (.motorResetCount (some i)) (.int r) → ResetLabels p i r g

theorem resetPromise_atCalls (p : Nat) (i : Port) : AtCalls (resetPromise p i) := by
  rintro g e v he r rfl
  exact (he rfl).elim

theorem getDevice_of_toNat {port : Byte} (hi : i.val < 6) (h : port.toNat = i.val) : getDevice port = some i := by
  have hnone : port ≠ rpPortNone := by
    rintro rfl
    have h255 : i.val = 255 := h.symm
    omega
  rw [getDevice, if_neg hnone, dif_pos (h ▸ hi)]
  exact congrArg some (Fin.ext h)

section
variable {p : Nat} {hs : Set Port}

theorem RequestLeaves.labels {r : Int} {s : U32} {completed : Bool} {b : Branch} {v v' : SpikeStatus}
    {qs qs₀ g g' : List (Event × SpikeStatus)} (h : RequestLeaves i rpCmdIdMotRst r s completed b v v' qs qs₀ g g') :
    RequestLabels i r s completed b g' qs (qs₀ ++ g) :=
  ⟨⟨v, v', h.split⟩, fun _ hq => h.sends.kinds _ (List.mem_map_of_mem hq)⟩

theorem reset_labels (hi : i.val < 6) (hmem : i ∈ hs) (g : List (Event × SpikeStatus)) :
    along (watching p hs (resetPromise p i)) (pupMotorResetCount (some i)) (fun r g' => ResetLabels p i r g') g := by
  have hA := resetPromise_atCalls p i
  apply along_bind
  apply along_act
  intro m hm
  refine ⟨trivial, ?_⟩
  have hport : getDevice (m.gPortDevices i).device.portId = some i := getDevice_of_toNat hi (hm.held i hmem)
  apply along_seq (request_reading hA hport rpCmdIdMotRst none 0)
  rintro r g₁ hr
  split
  case isFalse h =>
    refine ⟨fun h' => (h h').elim, ?_⟩
    rintro rfl
    obtain ⟨hinval, -⟩ | ⟨s, completed, b, v, v', qs, qs₀, hreq⟩ := hr
    · cases hinval
    · exact ⟨s, completed, b, qs, _, hreq.labels⟩
  case isTrue h =>
    subst h
    obtain ⟨hinval, -⟩ | ⟨s, completed, b, v, v', qs, qs₀, hreq⟩ := hr
    · cases hinval
    apply along_bind
    apply along_act
    intro m₁ hm₁
    refine ⟨hA _ (.statusFetch m₁.fgStatus) m₁.record nofun, ?_⟩
    show along (watching p hs (resetPromise p i)) (if m₁.fgStatus.isSome = true then _ else _) _ _
    rw [hm₁.pointer, if_pos (show (some p).isSome = true from rfl)]
    apply along_bind
    apply along_lock
    apply along_bind
    apply along_act
    intro m₂ _
    refine ⟨trivial, ?_⟩
    apply along_bind
    apply along_act
    intro m₃ _
    refine ⟨hA _ (.statusUse (some p)) m₃.record nofun, ?_⟩
    apply along_bind
    apply along_unlock
    exact ⟨fun _ => ⟨_, _, _, rfl, s, completed, b, qs, _, hreq.labels⟩, by rintro ⟨⟩⟩

variable {T : Type} [DecidableEq T] {calls : T → List Call} {m : Mem} {c : Sys T} {t : T}

omit [DecidableEq T] in
theorem client_resets (hi : i.val < 6) (hmem : i ∈ hs) (hinit : NoInit calls) (t : T) :
    along (watching p hs (resetPromise p i)) (client (calls t)) (fun _ _ => True) [] := by
  have hA := resetPromise_atCalls p i
  apply client_reading
  · rintro call _ g v r heq
    cases heq
  · intro call hcall g v₀
    by_cases hreset : call = .motorResetCount (some i)
    · subst hreset
      apply along_seq (reset_labels hi hmem _)
      intro r g' hlabels v r' heq
      cases heq
      exact hlabels
    · apply along_mono _ (body_reading hA (hinit t call hcall))
      intro r g' _ v r' heq
      cases heq
      exact (hreset rfl).elim

/-! ## the count after the call -/

/-- the count is the one that the last frame stored in `xs` carries, after `ys`, and 0 if there is none -/
def CountKept (i : Port) (s : SpikeStatus) (ys xs : Trace T) : Prop :=
  s.count i = (lastStored (frameCount i) ys xs).getD zeroCount

/-- no other thread resets the count of the motor -/
def OnlyResets (t : T) (i : Port) (calls : T → List Call) : Prop :=
  ∀ u, u ≠ t → .motorResetCount (some i) ∉ calls u

/-- a stretch of a history in which `t` does not use the saved status -/
theorem reset_carries (honly : OnlyResets t i calls) {xs ys : Trace T}
    (hcalled : ∀ u call, (u, .call call) ∈ xs ++ ys → call ∈ calls u)
    (hxs : ∀ e, (t, e) ∈ xs → e.isUse = false) (hi : i.val < 6) :
    Carries (fun s => s.count i) (frameCount i) ys xs where
  frame := frameStore_count hi
  other as u e bs j hsplit huse hcall s := by
    apply clearCount_other
    rintro rfl
    have hmem : (u, .call (.motorResetCount (some j))) ∈ xs ++ ys := by
      rw [hsplit, List.append_assoc]
      exact List.mem_append_right _ (List.mem_cons_of_mem _ (doing_call hcall))
    have hu : u = t := Classical.not_not.mp fun hne => honly u hne (hcalled u _ hmem)
    subst hu
    have hno := hxs e (hsplit ▸ List.mem_append_right _ List.mem_cons_self)
    rw [huse] at hno
    cases hno

@[simp] theorem doing_use (q : Option Nat) (tr : Trace T) : doing t ((t, .statusUse q) :: tr) = doing t tr :=
  if_pos rfl

@[simp] theorem doing_fetch (q : Option Nat) (tr : Trace T) : doing t ((t, .statusFetch q) :: tr) = doing t tr :=
  if_pos rfl

theorem doing_others {as tr : Trace T} (h : ∀ x ∈ as, x.1 ≠ t) : doing t (as ++ tr) = doing t tr := by
  induction as with
  | nil => rfl
  | cons x as ih =>
    obtain ⟨u, e⟩ := x
    rw [List.cons_append, doing, ownFold, if_neg (h _ List.mem_cons_self)]
    exact ih fun y hy => h y (List.mem_cons_of_mem _ hy)

/-- the stretches before the first `a` of two equal lists -/
theorem before_first {E : Type} {a : E} {xs ys zs ws : List E} (hx : a ∉ xs) (hy : a ∉ ys)
    (h : xs ++ a :: zs = ys ++ a :: ws) : xs = ys := by
  obtain ⟨bs, rfl, hbs⟩ | ⟨bs, rfl, hbs⟩ := List.append_eq_append_iff.mp h
  · cases bs with
    | nil => exact (List.append_nil _).symm
    | cons b bs =>
      cases hbs
      exact (hy (List.mem_append_right _ List.mem_cons_self)).elim
  · cases bs with
    | nil => exact List.append_nil _
    | cons b bs =>
      cases hbs
      exact (hx (List.mem_append_right _ List.mem_cons_self)).elim

/-- between its accepted ACK and its end, a request of `t` does not use the saved status -/
theorem request_apart {val : Trace T → SpikeStatus} {x₁ x₂ ys : Trace T} {v : T} {s session : U32} {r r' : Int}
    {cmd : Byte} {e : Event} {w : SpikeStatus} {qs g₀ : List (Event × SpikeStatus)}
    (hg : ownReads val t (x₁ ++ (v, .ack i s session r' r) :: (x₂ ++ (t, .pend i cmd s) :: ys)) =
      qs ++ (.pend i cmd s, w) :: g₀) (hqs : ∀ q ∈ qs, q.1.kind ∈ attemptKinds)
    (hopens : ∀ x ∈ x₁ ++ x₂, ¬ x.2.opens i) (he : (t, e) ∈ x₁) : e.isUse = false := by
  obtain ⟨gs, hgs, hmem⟩ := ownReads_split val t (x₁ ++ (v, .ack i s session r' r) :: x₂)
    ((t, .pend i cmd s) :: ys)
  have hassoc : x₁ ++ (v, .ack i s session r' r) :: (x₂ ++ (t, .pend i cmd s) :: ys) =
      (x₁ ++ (v, .ack i s session r' r) :: x₂) ++ (t, .pend i cmd s) :: ys := by
    rw [List.append_assoc, List.cons_append]
  rw [hassoc, hgs, ownReads_self] at hg
  -- the newest mark of the port is the same in both
  have hnone : Event.pend i cmd s ∉ gs.map Prod.fst := by
    intro h
    have hin := (hmem _).mpr h
    rcases List.mem_append.mp hin with h₁ | h₁
    · exact hopens _ (List.mem_append_left _ h₁) rfl
    · rcases List.mem_cons.mp h₁ with heq | h₂
      · cases heq
      · exact hopens _ (List.mem_append_right _ h₂) rfl
  have hnone' : Event.pend i cmd s ∉ qs.map Prod.fst := by
    intro h
    obtain ⟨q, hq, heq⟩ := List.mem_map.mp h
    have hkind := hqs q hq
    rw [heq] at hkind
    exact hkind
  have hlabels := congrArg (List.map Prod.fst) hg
  simp only [List.map_append, List.map_cons] at hlabels
  have hsame := before_first hnone hnone' hlabels
  have hin := (hmem e).mp (List.mem_append_left _ he)
  rw [hsame] at hin
  obtain ⟨q, hq, rfl⟩ := List.mem_map.mp hin
  have hkind := hqs q hq
  cases hev : q.1 with
  | statusUse =>
    rw [hev] at hkind
    exact hkind.elim
  | _ => rfl

/-- the ACK that has answered a request, and what the port has seen since -/
structure AnsweredBy (t v : T) (i : Port) (s session : U32) (r : Int) (bs x₁ ys : Trace T) : Prop where
  split : bs = x₁ ++ (v, .ack i s session rpCmdIdMotRst.toNat r) :: ys
  pending : ∃ x₂ zs, ys = x₂ ++ (t, .pend i rpCmdIdMotRst s) :: zs ∧
    ∀ x ∈ x₁ ++ x₂, ¬ x.2.opens i ∧ ¬ x.2.completes i

/-- The reset of a count has returned `r`.  Its request has ended in `bs` with the ACK `v`, accepted after
`ys`; `old` is the history up to that ACK and `since` what has happened from there to the return. -/
structure ResetReturned (p : Nat) (s₀ : SpikeStatus) (t : T) (i : Port) (r : Int) (s : SpikeStatus)
    (old since : Trace T) : Prop where
  /-- with the answer 1 the call clears the count, and loses what has come before -/
  cleared : r = 1 → ∃ zs ws, since = zs ++ (t, .statusUse (some p)) :: ws ∧
    (CountKept i s old since ↔
      (lastStored (frameCount i) ((t, .statusUse (some p)) :: (ws ++ old)) zs = none →
        (lastStored (frameCount i) old ws).getD zeroCount = zeroCount))
  /-- the answer 0 is a success too, and the call clears nothing -/
  untouched : r ≠ 1 → (CountKept i s old since ↔
    (lastStored (frameCount i) old since = none → (recordOf s₀ old).count i = zeroCount))

theorem recordOf_clear {s₀ : SpikeStatus} {tr : Trace T} {q : Option Nat}
    (h : (doing t tr).call = some (.motorResetCount (some i))) :
    recordOf s₀ ((t, .statusUse q) :: tr) = clearCount i (recordOf s₀ tr) := by
  show (doing t tr).writes (recordOf s₀ tr) = _
  rw [Doing.writes, h]

theorem countKept_cleared (s₀ : SpikeStatus) {s : SpikeStatus} {old zs ws : Trace T} {u : T × Event} (hi : i.val < 6)
    (hold : Carries (fun s => s.count i) (frameCount i) (u :: (ws ++ old)) zs)
    (hclear : recordOf s₀ (u :: (ws ++ old)) = clearCount i (recordOf s₀ (ws ++ old)))
    (hs : s = recordOf s₀ (zs ++ u :: (ws ++ old)))
    (hnone : lastStored (frameCount i) (ws ++ old) [u] = none) :
    CountKept i s old (zs ++ u :: ws) ↔ (lastStored (frameCount i) (u :: (ws ++ old)) zs = none →
      (lastStored (frameCount i) old ws).getD zeroCount = zeroCount) := by
  have hcount : s.count i = (lastStored (frameCount i) (u :: (ws ++ old)) zs).getD zeroCount := by
    have hpart := part_recordOf (s := s₀) hold
    rw [hclear] at hpart
    rw [hs]
    exact hpart.trans (congrArg _ (clearCount_self hi _))
  have hsplit : lastStored (frameCount i) old (zs ++ u :: ws) =
      Option.or (lastStored (frameCount i) (u :: (ws ++ old)) zs) (lastStored (frameCount i) old ws) := by
    have hcons : lastStored (frameCount i) old (u :: ws) = lastStored (frameCount i) old ws := by
      have h := lastStored_append (frameCount i) old [u] ws
      rw [hnone, Option.none_or] at h
      exact h
    have h := lastStored_append (frameCount i) old zs (u :: ws)
    rw [hcons] at h
    exact h
  rw [CountKept, hcount, hsplit]
  cases lastStored (frameCount i) (u :: (ws ++ old)) zs with
  | none => exact ⟨fun h _ => h.symm, fun h => (h rfl).symm⟩
  | some n => exact ⟨fun _ h => (nomatch h), fun _ => rfl⟩

theorem lastStored_clear {tr : Trace T} {q : Option Nat} (carry : Byte → List Byte → Option (List Byte))
    (h : (doing t tr).call = some (.motorResetCount (some i))) :
    lastStored carry tr [(t, .statusUse q)] = none := by
  show Option.or ((doing t tr).stores carry) none = none
  rw [Doing.stores, h]
  rfl

theorem countKept_untouched {s₀ s : SpikeStatus} {old since : Trace T}
    (hold : Carries (fun s => s.count i) (frameCount i) old since) (hs : s = recordOf s₀ (since ++ old)) :
    CountKept i s old since ↔
      (lastStored (frameCount i) old since = none → (recordOf s₀ old).count i = zeroCount) := by
  have hcount : s.count i = (lastStored (frameCount i) old since).getD ((recordOf s₀ old).count i) := by
    rw [hs]
    exact part_recordOf hold
  rw [CountKept, hcount]
  cases lastStored (frameCount i) old since with
  | none => exact ⟨fun h _ => h, fun h => h rfl⟩
  | some n => exact ⟨fun _ h => (nomatch h), fun _ => rfl⟩

variable {d₀ : Nat} {rx : T}

/-- **When a reset loses a count.**  A successful `pup_motor_reset_count` has made a request, and with the
codes of `pthread_cond_timedwait` this was answered by an ACK; the count that the call leaves is the one of
the last frame stored since that ACK, or 0, just when no frame with another count has come last before the
call cleared it (with the answer 1), or when a frame has come or the count was 0 (with the answer 0, which
clears nothing). -/
theorem reset_count_lost (hm : Connected d₀ m) (hl : Live p hs m) (hports : ∀ j ∈ hs, j.val < 6)
    (hinit : NoInit calls) (hdown : NoShutdown calls) (hreset : Resets hs calls) (hrx : OneReceiver rx calls)
    (hi : i ∈ hs) (honly : OnlyResets t i calls) (hr : Reach (start m calls) c) {r : Int} {tr : Trace T}
    (htr : c.trace = (t, .returned (.motorResetCount (some i)) (.int r)) :: tr)
    (hsuccess : requestResultToPbio r = .success) :
    ∃ as s completed b bs, tr = as ++ (t, .finish i rpCmdIdMotRst s completed b r) :: bs ∧
      (∀ e, (t, e) ∈ as → e.kind = .status) ∧ (Coded waitCode (start m calls) c → b = .acked) ∧ (b = .acked →
      ∃ v session xs ys, AnsweredBy t v i s session r bs xs ys ∧
        ResetReturned p m.record t i r c.mem.record ((v, .ack i s session rpCmdIdMotRst.toNat r) :: ys)
          (as ++ (t, .finish i rpCmdIdMotRst s completed b r) :: xs)) := by
  have hi' := hports i hi
  obtain ⟨-, hrecord, hdoing⟩ := record_history hports hinit hdown hreset hl hr
  have htr' : c.trace = [] ++ (t, .returned (.motorResetCount (some i)) (.int r)) :: tr := htr
  have hlabels : ResetLabels p i r (ownReads (recordOf m.record) t tr) :=
    seen_history hports hinit hdown hreset hl hr (client_resets hi' hi hinit t) htr' r rfl
  have hcall : (doing t tr).call = some (.motorResetCount (some i)) := hdoing [] t _ _ tr htr'
  have hcalled : ∀ as ys : Trace T, tr = as ++ ys → ∀ u call, (u, .call call) ∈ ys → call ∈ calls u := by
    rintro as ys rfl u call h
    apply called hinit hr
    rw [htr]
    exact List.mem_cons_of_mem _ (List.mem_append_right _ h)
  have hrecord' : c.mem.record = recordOf m.record tr := by
    rw [hrecord, htr]
    rfl
  -- the request that has ended, and its ACK
  have hanswered : ∀ as s completed b bs, tr = as ++ (t, .finish i rpCmdIdMotRst s completed b r) :: bs →
      (Coded waitCode (start m calls) c → 0 ≤ r → b = .acked) ∧
      (b = .acked → Answered m.fgSessionId bs t i rpCmdIdMotRst s r) := by
    intro as s completed b bs hsplit
    have hlast : c.trace = ((t, .returned (.motorResetCount (some i)) (.int r)) :: as) ++
        (t, .finish i rpCmdIdMotRst s completed b r) :: bs := by
      rw [htr, hsplit]
      rfl
    exact request_answered hm hinit hdown hrx hr hlast
  have hone : r = 1 ∨ r = 0 := by
    by_contra hno
    rw [requestResultToPbio, if_neg hno] at hsuccess
    split at hsuccess
    · cases hsuccess
    split at hsuccess
    · cases hsuccess
    split at hsuccess <;> cases hsuccess
  rcases hone with rfl | rfl
  case inl =>
    obtain ⟨v₁, v₂, g', hg, s, completed, b, qs, g₀, ⟨⟨v₃, v₄, hg'⟩, -⟩⟩ := hlabels.1 rfl
    obtain ⟨zs, tr₁, rfl, hzs, -, hg₁⟩ := ownReads_eq_cons hg
    obtain ⟨ws₁, tr₂, rfl, hws₁, -, hg₂⟩ := ownReads_eq_cons hg₁
    rw [hg'] at hg₂
    obtain ⟨ws₂, bs, rfl, hws₂, -, -⟩ := ownReads_eq_cons hg₂
    obtain ⟨hacked, hack⟩ := hanswered
      (zs ++ (t, .statusUse (some p)) :: (ws₁ ++ (t, .statusFetch (some p)) :: ws₂)) s completed b bs (by simp)
    refine ⟨zs ++ (t, .statusUse (some p)) :: (ws₁ ++ (t, .statusFetch (some p)) :: ws₂), s, completed, b, bs,
      by simp, fun e he => ?_, fun hcoded => hacked hcoded (by decide), ?_⟩
    · simp only [List.mem_append, List.mem_cons, Prod.mk.injEq, true_and] at he
      rcases he with he | rfl | he | rfl | he
      · exact (hzs _ he rfl).elim
      · rfl
      · exact (hws₁ _ he rfl).elim
      · rfl
      · exact (hws₂ _ he rfl).elim
    rintro rfl
    obtain ⟨xs, v, session, x₂, ys, rfl, hquiet, -, -⟩ := hack rfl
    refine ⟨v, session, xs, _, ⟨rfl, x₂, ys, rfl, hquiet⟩, fun _ => ?_, fun h => (h rfl).elim⟩
    -- from the ACK to the clear, and from there to the return
    obtain ⟨ws, hws⟩ : ∃ ws, ws = ws₁ ++ (t, .statusFetch (some p)) ::
      (ws₂ ++ (t, .finish i rpCmdIdMotRst s completed .acked 1) :: xs) := ⟨_, rfl⟩
    obtain ⟨old, hold⟩ : ∃ old, old = (v, .ack i s session rpCmdIdMotRst.toNat 1) ::
      (x₂ ++ (t, .pend i rpCmdIdMotRst s) :: ys) := ⟨_, rfl⟩
    have hafter : ws ++ old = ws₁ ++ (t, .statusFetch (some p)) ::
        (ws₂ ++ (t, .finish i rpCmdIdMotRst s completed .acked 1) ::
          (xs ++ (v, .ack i s session rpCmdIdMotRst.toNat 1) :: (x₂ ++ (t, .pend i rpCmdIdMotRst s) :: ys))) := by
      simp [hws, hold]
    have hsince : (zs ++ (t, .statusUse (some p)) :: (ws₁ ++ (t, .statusFetch (some p)) :: ws₂)) ++
        (t, .finish i rpCmdIdMotRst s completed .acked 1) :: xs = zs ++ (t, .statusUse (some p)) :: ws := by
      simp [hws]
    rw [← hafter] at hcall hcalled hrecord'
    rw [← hold, hsince]
    have hat : (doing t (ws ++ old)).call = some (.motorResetCount (some i)) := by
      rwa [doing_others hzs, doing_use] at hcall
    refine ⟨zs, ws, rfl, countKept_cleared m.record hi' ?_ (recordOf_clear hat) hrecord'
      (lastStored_clear _ hat)⟩
    exact reset_carries honly (hcalled [] _ rfl) (fun e he => (hzs _ he rfl).elim) hi'
  case inr =>
    obtain ⟨s, completed, b, qs, g₀, ⟨⟨v₃, v₄, hg⟩, hqs⟩⟩ := hlabels.2 rfl
    obtain ⟨as, bs, rfl, has, -, hbs⟩ := ownReads_eq_cons hg
    obtain ⟨hacked, hack⟩ := hanswered as s completed b bs rfl
    refine ⟨as, s, completed, b, bs, rfl, fun e he => (has _ he rfl).elim, fun hcoded => hacked hcoded (by decide), ?_⟩
    rintro rfl
    obtain ⟨xs, v, session, x₂, ys, rfl, hquiet, -, -⟩ := hack rfl
    refine ⟨v, session, xs, _, ⟨rfl, x₂, ys, rfl, hquiet⟩, nofun, fun _ => ?_⟩
    apply countKept_untouched _ (hrecord'.trans (by rw [List.append_assoc, List.cons_append]))
    apply reset_carries honly (hcalled [] _ (by rw [List.append_assoc, List.cons_append, List.nil_append])) _ hi'
    intro e he
    rcases List.mem_append.mp he with h | h
    · exact (has _ h rfl).elim
    · rcases List.mem_cons.mp h with heq | h
      · cases heq
        rfl
      · exact request_apart hbs hqs (fun x hx => (hquiet x hx).1) h

end

/-! ## a lost count -/

/-- drive telemetry with a count for the first port -/
def countedDrive (n : Byte) : List Byte := (List.range 34).map fun k => if k = 8 then n else if k = 33 then 1 else 0

/-- a thread that resets the count of the first port, beside a receiver -/
def resetAndReceive : Bool → List Call
  | true => [.motorResetCount (some 0)]
  | false => [.receive, .receive]

/-- the answer of the reset, and drive telemetry with a count -/
def resetMem : Mem := freshMem [.data (ackFrame 0 1 freshSession 98 1),
  .data (v2Frame rpPortNone rpCmdIdDriveTelemetry 0 1 freshSession (countedDrive 5))] []

theorem resetMem_live : Live 0 {0} resetMem where
  pointer := rfl
  record := ⟨_, rfl⟩
  held := by
    rintro i rfl
    rfl

theorem resetAndReceive_noInit : NoInit resetAndReceive := by
  intro t c hc desc
  cases t <;> simp [resetAndReceive] at hc <;> subst hc <;> simp

theorem resetAndReceive_noShutdown : NoShutdown resetAndReceive := by
  intro t
  cases t <;> simp [resetAndReceive]

theorem resetAndReceive_resets : Resets {0} resetAndReceive := by
  intro t i h
  cases t <;> simp [resetAndReceive] at h
  exact h

theorem resetAndReceive_one : OneReceiver false resetAndReceive := by
  intro t h
  cases t <;> simp [resetAndReceive] at h ⊢

theorem resetAndReceive_only : OnlyResets true 0 resetAndReceive := by
  intro u hu
  cases u <;> simp [resetAndReceive] at hu ⊢

/-- the second frame comes after the return -/
theorem reset_count_lost_run : ∃ c tr, exec (start resetMem resetAndReceive)
      (steps 47 true ++ steps 57 false ++ steps 18 true) = some c ∧
    c.trace = (true, .returned (.motorResetCount (some 0)) (.int 1)) :: tr ∧
    ∃ as s completed bs, tr = as ++ (true, .finish 0 rpCmdIdMotRst s completed .acked 1) :: bs ∧
      (∀ e, (true, e) ∈ as → e.kind = .status) ∧
      ∃ v session xs ys, AnsweredBy true v 0 s session 1 bs xs ys ∧
        ResetReturned 0 resetMem.record true 0 1 c.mem.record ((v, .ack 0 s session rpCmdIdMotRst.toNat 1) :: ys)
          (as ++ (true, .finish 0 rpCmdIdMotRst s completed .acked 1) :: xs) := by
  obtain ⟨c, hrun⟩ := Option.isSome_iff_exists.mp (show (exec (start resetMem resetAndReceive)
    (steps 47 true ++ steps 57 false ++ steps 18 true)).isSome by decide +kernel)
  have hend : ∀ c ∈ exec (start resetMem resetAndReceive) (steps 47 true ++ steps 57 false ++ steps 18 true),
      c.trace.head? = some (true, .returned (.motorResetCount (some 0)) (.int 1)) := by decide +kernel
  have htr := (List.cons_head?_tail (hend c hrun)).symm
  refine ⟨c, c.trace.tail, hrun, htr, ?_⟩
  have hcoded : Coded waitCode (start resetMem resetAndReceive) c := by
    apply exec_runs hrun
    simp only [List.mem_append]
    rintro ch ((h | h) | h) <;> exact steps_run ch h
  obtain ⟨as, s, completed, b, bs, hsplit, hown, hacked, hreset⟩ := reset_count_lost (freshMem_connected _ _)
    resetMem_live (by simp) resetAndReceive_noInit resetAndReceive_noShutdown resetAndReceive_resets
    resetAndReceive_one rfl resetAndReceive_only (exec_reach hrun) htr rfl
  obtain rfl := hacked hcoded
  exact ⟨as, s, completed, bs, hsplit, hown, hreset rfl⟩

/-- an accepted ACK for the port -/
def Event.isAck (i : Port) : Event → Bool
  | .ack j .. => j == i
  | _ => false

/-- the count 5 is stored after the ACK and before the clear; the call returns success and leaves 0 -/
theorem newer_count_lost : ∃ c since old v s session ys, exec (start resetMem resetAndReceive)
      (steps 47 true ++ steps 112 false ++ steps 18 true) = some c ∧
    c.trace = (true, .returned (.motorResetCount (some 0)) (.int 1)) :: (since ++ old) ∧
    old = (v, .ack 0 s session rpCmdIdMotRst.toNat 1) :: ys ∧
    requestResultToPbio 1 = .success ∧ ¬ CountKept 0 c.mem.record old since := by
  obtain ⟨c, hrun⟩ := Option.isSome_iff_exists.mp (show (exec (start resetMem resetAndReceive)
    (steps 47 true ++ steps 112 false ++ steps 18 true)).isSome by decide +kernel)
  have hend : ∀ c ∈ exec (start resetMem resetAndReceive) (steps 47 true ++ steps 112 false ++ steps 18 true),
      c.trace.head? = some (true, .returned (.motorResetCount (some 0)) (.int 1)) ∧
      (c.trace.tail.dropWhile fun x => !x.2.isAck 0).head? =
        some (false, .ack 0 1 freshSession rpCmdIdMotRst.toNat 1) ∧
      c.mem.record.count 0 ≠ (lastStored (frameCount 0) (c.trace.tail.dropWhile fun x => !x.2.isAck 0)
        (c.trace.tail.takeWhile fun x => !x.2.isAck 0)).getD zeroCount := by decide +kernel
  obtain ⟨hhead, hack, hlost⟩ := hend c hrun
  refine ⟨c, _, _, false, 1, freshSession, _, hrun, ?_, (List.cons_head?_tail hack).symm, rfl, hlost⟩
  rw [List.takeWhile_append_dropWhile]
  exact (List.cons_head?_tail hhead).symm

end RaspikeArt
