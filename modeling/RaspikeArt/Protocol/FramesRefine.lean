import RaspikeArt.Protocol.Frames

/-!
# Frames, part 2: the code keeps to the machine

One thread `rx` receives; any others send, request and shut down.  The ghost of a thread is its
reading and the session it has seen, as long as that is the current one.  The logic takes for
granted that the history is one of the machine of lifetimes: while `rx` is inside, the connection
is not taken, so that protocol v2 stays chosen and no other thread changes the session.
-/

set_option linter.unusedSectionVars false

namespace RaspikeArt
open Threads

structure FrameG where
  reading : Reading := .outside
  /-- the session the thread has seen, if it is still the current one -/
  session : Option U32 := none

variable {T : Type} [DecidableEq T]

structure FrameLocal (a : Frames T) (t : T) (g : FrameG) : Prop where
  reading : a.reading t = g.reading
  session : ∀ s, g.session = some s → g.reading.inside = true ∧ s = a.session

structure FrameInv (d₀ : Nat) (s₀ : U32) (rx : T) (w : World T Mutex Event Mem) (gs : T → FrameG) :
    Prop where
  legal : (framing T).Legal (.start s₀) w.trace
  session : w.mem.fgSessionId = (framesOf s₀ w.trace).session
  v2 : (lifeOf d₀ w.trace).taken = false → w.mem.fgUseProtocolV2 = true
  only : ∀ t, ((framesOf s₀ w.trace).reading t).inside = true → t = rx
  thread : ∀ t, FrameLocal (framesOf s₀ w.trace) t (gs t)

def frameLogic (T : Type) [DecidableEq T] (d₀ : Nat) (s₀ : U32) (rx : T) :
    Logic T Mutex CondVar Event Mem where
  G := FrameG
  K := fun w => (lifetime T d₀).Legal .start w.trace
  I := FrameInv d₀ s₀ rx
  A := fun _ _ _ => True

variable {d₀ : Nat} {s₀ : U32} {rx : T} {w : World T Mutex Event Mem} {gs : T → FrameG} {t : T}
  {g : FrameG}

/-! ## one step -/

/-- while a thread is inside, the connection is not taken -/
theorem FrameInv.live (h : FrameInv d₀ s₀ rx w gs) (hK : (lifetime T d₀).Legal .start w.trace)
    (hin : (gs t).reading.inside = true) : (lifeOf d₀ w.trace).taken = false := by
  refine (Life.Sound.of_legal hK).live ⟨t, (reading_inside_iff d₀ s₀ w.trace t).mp ?_⟩
  rw [(h.thread t).reading]
  exact hin

/-- the general step: the memory, a label, the ghost of one thread -/
theorem FrameInv.step (h : FrameInv d₀ s₀ rx w gs) {m : Mem} {x : Option Event} {k : FrameG}
    (hok : ∀ e, x = some e → (framesOf s₀ w.trace).Ok t e)
    (hsess : m.fgSessionId = (framesOf s₀ (World.push t x w.trace)).session)
    (hv2 : (lifeOf d₀ (World.push t x w.trace)).taken = false → m.fgUseProtocolV2 = true)
    (honly : ((framesOf s₀ (World.push t x w.trace)).reading t).inside = true → t = rx)
    (ht : FrameLocal (framesOf s₀ (World.push t x w.trace)) t k)
    (hu : ∀ u, u ≠ t → (gs u).session ≠ none →
      (framesOf s₀ (World.push t x w.trace)).session = (framesOf s₀ w.trace).session) :
    FrameInv d₀ s₀ rx { w with mem := m, trace := World.push t x w.trace }
      (Function.update gs t k) := by
  have hread : ∀ u, u ≠ t →
      (framesOf s₀ (World.push t x w.trace)).reading u = (framesOf s₀ w.trace).reading u := by
    intro u hut
    cases x with
    | none => rfl
    | some e =>
      cases e <;> first
        | rfl
        | exact Function.update_of_ne hut _ _
  refine ⟨?_, hsess, hv2, fun u hin => ?_, fun u => ?_⟩
  · cases x with
    | none => exact h.legal
    | some e => exact ⟨hok e rfl, h.legal⟩
  · by_cases hut : u = t
    · subst hut
      exact honly hin
    · rw [hread u hut] at hin
      exact h.only u hin
  · by_cases hut : u = t
    · subst hut
      rw [Function.update_self]
      exact ht
    · rw [Function.update_of_ne hut]
      have hl := h.thread u
      refine ⟨(hread u hut).trans hl.reading, fun s hs => ?_⟩
      rw [hu u hut (by rw [hs]; exact nofun)]
      exact hl.session s hs

/-- the machine of lifetimes is not moved by what the globals of this one do not see -/
theorem lifeOf_taken {x : Option Event} {tr : Trace T}
    (h : (lifeOf d₀ (World.push t x tr)).taken = false) : (lifeOf d₀ tr).taken = false := by
  cases x with
  | none => exact h
  | some e =>
    cases e with
    | takeDesc => cases h
    | _ => exact h

/-- an access that neither reads a frame nor changes the session or the protocol -/
theorem FrameInv.same (h : FrameInv d₀ s₀ rx w gs) {m : Mem} {x : Option Event}
    (hsess : m.fgSessionId = w.mem.fgSessionId) (hv2 : m.fgUseProtocolV2 = w.mem.fgUseProtocolV2)
    (hx : ∀ e, x = some e →
      (framesOf s₀ w.trace).Ok t e ∧ (framesOf s₀ w.trace).next t e = framesOf s₀ w.trace) :
    FrameInv d₀ s₀ rx { w with mem := m, trace := World.push t x w.trace } gs := by
  have hrep : framesOf s₀ (World.push t x w.trace) = framesOf s₀ w.trace := by
    cases x with
    | none => rfl
    | some e => exact (hx e rfl).2
  have hstep := h.step (t := t) (m := m) (x := x) (k := gs t) (fun e he => (hx e he).1)
    (by rw [hrep, hsess]; exact h.session) (fun hl => by rw [hv2]; exact h.v2 (lifeOf_taken hl))
    (by rw [hrep]; exact h.only t) (by rw [hrep]; exact h.thread t) (fun _ _ _ => by rw [hrep])
  rwa [Function.update_eq_self] at hstep

/-! ## steps that are not about frames -/

/-- the command of the thread allows it to change what is protected -/
def FrameG.Warrant (g : FrameG) : Prop :=
  g.reading.inside = true →
    ∃ d, g.reading.cmd = some d ∧ (d.cmd = rpCmdIdLinkHello ∨ g.session = some d.session)

/-- the command of the thread is a HELLO -/
def FrameG.Greeted (g : FrameG) : Prop :=
  g.reading.inside = true → ∃ d, g.reading.cmd = some d ∧ d.cmd = rpCmdIdLinkHello

theorem FrameInv.greeted (h : FrameInv d₀ s₀ rx w gs) (hg : (gs t).Greeted) :
    (framesOf s₀ w.trace).Greeted t := by
  intro hin
  rw [(h.thread t).reading] at hin ⊢
  exact hg hin

theorem FrameInv.warranted (h : FrameInv d₀ s₀ rx w gs) (hg : (gs t).Warrant) :
    (framesOf s₀ w.trace).Warranted t := by
  have hl := h.thread t
  intro hin
  rw [hl.reading] at hin ⊢
  obtain ⟨d, hd, hwarrant⟩ := hg hin
  exact ⟨d, hd, hwarrant.imp_right fun hs => (hl.session _ hs).2⟩

/-- the accesses that leave the reading of a thread, the session and the protocol alone -/
def frameKinds (g : FrameG) : Set Kind
  | .quiet | .io _ | .input _ | .call | .send | .config | .frame | .gaveUp | .pend | .finish | .dev
  | .seq | .life | .statusPtr | .setup | .hello => True
  | .reset => g.Greeted
  | .prot | .status => g.Warrant
  | .recv | .receivers | .ack | .sess | .v2 => False

structure SameFrames (m m' : Mem) : Prop where
  session : m'.fgSessionId = m.fgSessionId
  v2 : m'.fgUseProtocolV2 = m.fgUseProtocolV2

theorem Kind.Touches.sameFrames {k : Kind} {m m' : Mem} (h : k.Touches m m') (hs : k ≠ .sess)
    (hv : k ≠ .v2) : SameFrames m m' :=
  ⟨h.rest.session hs, h.rest.v2 hv⟩

theorem FrameInv.silent_event (h : FrameInv d₀ s₀ rx w gs) {e : Event}
    (hk : e.kind ∈ frameKinds (gs t)) :
    (framesOf s₀ w.trace).Ok t e ∧ (framesOf s₀ w.trace).next t e = framesOf s₀ w.trace := by
  cases e with
  | v2Frame | legacyFrame | command | receiverIn | receiverOut | ack | session | useV2 =>
    exact hk.elim
  | cancel | clear => exact ⟨h.greeted hk, rfl⟩
  | capabilities | runtimeTelemetry | statusFetch | statusUse | statusFree | statusWoken =>
    exact ⟨h.warranted hk, rfl⟩
  | _ => exact ⟨trivial, rfl⟩

theorem frame_neutral (t : T) (g : FrameG) :
    (frameLogic T d₀ s₀ rx).Neutral (Acc (frameKinds g)) (fun _ => True) t g where
  act := by
    intro e f hacc w gs hI hg _
    obtain ⟨k, hk, hstep⟩ := hacc w.mem
    have hsess : k ≠ .sess := by
      rintro rfl
      exact hk
    have hv2 : k ≠ .v2 := by
      rintro rfl
      exact hk
    have hsame := hstep.touches.sameFrames hsess hv2
    refine FrameInv.same hI hsame.session hsame.v2 fun e' he' => FrameInv.silent_event hI ?_
    rw [hstep.label e' he', hg]
    exact hk
  acquire := fun _ _ _ hI _ _ => ⟨hI.legal, hI.session, hI.v2, hI.only, hI.thread⟩
  release := fun _ _ _ hI _ => ⟨hI.legal, hI.session, hI.v2, hI.only, hI.thread⟩
  places := fun _ => ⟨trivial, trivial, fun _ => trivial, trivial⟩

/-- a function whose accesses the machine does not see -/
theorem frame_skip {α : Type} {p : P α} {Q : α → FrameG → Prop}
    (hp : Does (frameKinds g) Set.univ p) (hQ : ∀ a, Q a g) :
    wp (frameLogic T d₀ s₀ rx) t p Q g :=
  wp_all (frame_neutral t g) (hp.mono (subset_refl _) fun _ _ => trivial) hQ

theorem frame_yields {α : Type} {p : P α} {R : α → Prop} {Q : α → FrameG → Prop}
    (hp : Does (frameKinds g) Set.univ p) (hy : p.Yields R) (hQ : ∀ a, R a → Q a g) :
    wp (frameLogic T d₀ s₀ rx) t p Q g :=
  wp_yields (frame_neutral t g) (hp.mono (subset_refl _) fun _ _ => trivial) hy hQ

/-! ## steps that are about frames -/

/-- a label that changes the reading of its thread, under a rule about the ghost -/
theorem frame_read (e : Event) (g' : FrameG) {f : Mem → Unit × Mem} {Q : Unit → FrameG → Prop}
    (hm : ∀ m, SameFrames m (f m).2)
    (hok : ∀ w gs, FrameInv d₀ s₀ rx w gs → gs t = g → (framesOf s₀ w.trace).Ok t e)
    (hnext : ∀ a : Frames T, a.reading t = g.reading → a.next t e = a.read t g'.reading)
    (hlife : ∀ a : Life T, (a.next t e).taken = a.taken)
    (hin : g'.reading.inside = true → g.reading.inside = true ∨ t = rx)
    (hsess : g'.session = none ∨ g'.reading.inside = true ∧ g'.session = g.session)
    (hQ : Q () g') : wp (frameLogic T d₀ s₀ rx) t (.act (fun _ => some e) f .ret) Q g := by
  refine wp_act fun w gs hI hg _ => ⟨g', ?_, hQ⟩
  have hl := FrameInv.thread hI t
  rw [hg] at hl
  have hrep : framesOf s₀ ((t, e) :: w.trace) = (framesOf s₀ w.trace).read t g'.reading :=
    hnext _ hl.reading
  refine FrameInv.step hI (x := some e) ?_ ?_ ?_ ?_ ?_ ?_
  · rintro _ ⟨⟩
    exact hok w gs hI hg
  · rw [World.push_some, hrep, (hm w.mem).session]
    exact FrameInv.session hI
  · intro htaken
    rw [(hm w.mem).v2]
    exact FrameInv.v2 hI ((hlife _).symm.trans htaken)
  · rw [World.push_some, hrep, Frames.read_self]
    intro hg'
    rcases hin hg' with hin | hin
    · exact FrameInv.only hI t (by rw [hl.reading]; exact hin)
    · exact hin
  · rw [World.push_some, hrep]
    refine ⟨Frames.read_self .., fun s hs => ?_⟩
    rcases hsess with hnone | ⟨hins, hsame⟩
    · rw [hnone] at hs
      cases hs
    · rw [hsame] at hs
      exact ⟨hins, (hl.session s hs).2⟩
  · intro u _ _
    rw [World.push_some, hrep]
    rfl

theorem frame_tick (e : Event) (g' : FrameG) {Q : Unit → FrameG → Prop}
    (hok : ∀ w gs, FrameInv d₀ s₀ rx w gs → gs t = g → (framesOf s₀ w.trace).Ok t e)
    (hnext : ∀ a : Frames T, a.reading t = g.reading → a.next t e = a.read t g'.reading)
    (hlife : ∀ a : Life T, (a.next t e).taken = a.taken)
    (hin : g.reading.inside = true) (hins : g'.reading.inside = true)
    (hsess : g'.session = g.session) (hQ : Q () g') :
    wp (frameLogic T d₀ s₀ rx) t (tick e) Q g :=
  frame_read e g' (fun _ => ⟨rfl, rfl⟩) hok hnext hlife (fun _ => .inl hin) (.inr ⟨hins, hsess⟩) hQ

/-- the session is read by a receiver -/
theorem frame_session {Q : U32 → FrameG → Prop} (hin : g.reading.inside = true)
    (hQ : ∀ s, Q s { g with session := some s }) :
    wp (frameLogic T d₀ s₀ rx) t (load fun m => m.fgSessionId) Q g := by
  refine wp_act fun w gs hI hg _ => ⟨_, ?_, hQ _⟩
  have hl := FrameInv.thread hI t
  rw [hg] at hl
  refine FrameInv.step hI (x := none) nofun (FrameInv.session hI) (FrameInv.v2 hI)
    (FrameInv.only hI t) ?_ fun _ _ _ => rfl
  refine ⟨hl.reading, fun s hs => ⟨hin, ?_⟩⟩
  cases hs
  exact FrameInv.session hI

theorem frame_setSession {s : U32} {Q : Unit → FrameG → Prop}
    (hhello : g.reading.inside = true → ∃ d, g.reading.cmd = some d ∧ d.cmd = rpCmdIdLinkHello ∧
      ∃ old, g.session = some old ∧ s ≠ old)
    (hQ : Q () { g with session := none }) :
    wp (frameLogic T d₀ s₀ rx) t (setSession s) Q g := by
  refine wp_act fun w gs hI hg hK => ⟨_, ?_, hQ⟩
  have hl := FrameInv.thread hI t
  rw [hg] at hl
  refine FrameInv.step hI (x := some (.session s)) ?_ rfl (FrameInv.v2 hI) (FrameInv.only hI t)
    ⟨hl.reading, nofun⟩ fun u hut hu => ?_
  · rintro _ ⟨⟩
    intro hin
    rw [hl.reading] at hin ⊢
    obtain ⟨d, hd, hcmd, old, hold, hne⟩ := hhello hin
    refine ⟨d, hd, hcmd, ?_⟩
    rw [← (hl.session old hold).2]
    exact hne
  · have hleg : (lifetime T d₀).Legal .start ((t, .session s) :: w.trace) := hK
    -- another receiver would be a second one, or one of a taken connection
    exfalso
    obtain ⟨s', hs'⟩ := Option.ne_none_iff_exists'.mp hu
    have hu' := FrameInv.thread hI u
    obtain ⟨hin, -⟩ := hu'.session s' hs'
    rw [← hu'.reading] at hin
    have hmem := (reading_inside_iff d₀ s₀ w.trace u).mp hin
    rcases hK.1 with ht | ⟨htaken, -⟩
    · have hint := (reading_inside_iff d₀ s₀ w.trace t).mpr ht
      exact hut ((FrameInv.only hI u hin).trans (FrameInv.only hI t hint).symm)
    · rw [(Life.Sound.of_legal hleg.tail).live ⟨u, hmem⟩] at htaken
      cases htaken

/-- the protocol is only changed once the connection is taken -/
theorem frame_setUseV2 {b : Bool} {Q : Unit → FrameG → Prop} (hQ : Q () g) :
    wp (frameLogic T d₀ s₀ rx) t (setUseV2 b) Q g := by
  refine wp_act fun w gs hI hg hK => ⟨g, ?_, hQ⟩
  have hl := FrameInv.thread hI t
  rw [hg] at hl
  refine FrameInv.step hI (x := some (.useV2 b)) ?_ (FrameInv.session hI) (fun htaken => ?_)
    (FrameInv.only hI t) hl fun _ _ _ => rfl
  · rintro _ ⟨⟩
    trivial
  · have htrue : (lifeOf d₀ w.trace).taken = true := hK.1.1
    have hfalse : (lifeOf d₀ w.trace).taken = false := htaken
    rw [htrue] at hfalse
    cases hfalse

/-! ## commands -/

theorem frame_quiet : Kind.quiet ∈ frameKinds g := trivial

theorem frame_stats (s : Stat) {Q : Unit → FrameG → Prop} (hQ : Q () g) :
    wp (frameLogic T d₀ s₀ rx) t (statsIncrement s) Q g :=
  frame_skip (statsIncrement_all frame_quiet (Set.mem_univ _) s) fun _ => hQ

/-- the ghost of a receiver with a frame `r` -/
def consumed (r : Raw) (session : Option U32) : FrameG := ⟨⟨true, some r, none⟩, session⟩

/-- the ghost of a receiver with a frame `r` and the command `d` made of it -/
def commanded (r : Raw) (d : Decoded) (session : Option U32) : FrameG :=
  ⟨⟨true, some r, some d⟩, session⟩

theorem warrant_of {r : Raw} {d : Decoded} {session : Option U32}
    (h : d.cmd = rpCmdIdLinkHello ∨ session = some d.session) : (commanded r d session).Warrant :=
  fun _ => ⟨d, rfl, h⟩

/-- in the middle of a receive -/
def Inside (g : FrameG) : Prop := g.reading.inside = true

theorem processHelloPayload_frames {r : Raw} {d : Decoded} (hd : d.cmd = rpCmdIdLinkHello)
    (session : Option U32) (buf : List Byte) :
    wp (frameLogic T d₀ s₀ rx) t (processHelloPayload buf) (fun _ g' => Inside g')
      (commanded r d session) := by
  have hw : ∀ session, (commanded r d session).Warrant := fun _ => warrant_of (.inl hd)
  unfold processHelloPayload
  split
  · exact wp_pure rfl
  refine wp_bind (frame_session rfl fun old => ?_)
  split
  · exact wp_pure rfl
  case isFalse hnew =>
  have hne : rpV2GetU32 (buf.drop 4) ≠ old := fun h => hnew (.inr h)
  refine wp_bind (frame_setSession (fun _ => ⟨d, rfl, hd, old, rfl, hne⟩) ?_)
  have hw' := hw none
  refine wp_bind (frame_skip (setCapabilities_all hw' _) fun _ => ?_)
  refine wp_bind (frame_skip ?_ fun _ => ?_)
  · have hreset : Kind.reset ∈ frameKinds (commanded r d none) := fun _ => ⟨d, rfl, hd⟩
    exact resetPortState_all frame_quiet hreset (fun _ => Set.mem_univ _) _ _ (by simp) (by simp)
  refine wp_bind (frame_skip (Does.tick (k := .hello) trivial rfl (fun _ => rfl) fun _ => rfl)
    fun _ => ?_)
  refine wp_bind (frame_skip (clearSavedStatus_all frame_quiet hw' (Set.mem_univ _)) fun _ => ?_)
  exact frame_skip (clearRuntimeTelemetry_all hw' (Set.mem_univ _)) fun _ => rfl

/-- an ACK is accepted in the session that is current -/
theorem processAck_frames {r : Raw} {d : Decoded} {i : Port} (hcmd : d.cmd = rpCmdIdAck)
    (hport : getDevice d.port = some i) (hlen : d.payload.length = 8) :
    wp (frameLogic T d₀ s₀ rx) t (processAck i d.sequence d.session d.payload)
      (fun _ g' => Inside g') (commanded r d (some d.session)) := by
  refine wp_bind (frame_skip (Does.lock (Set.mem_univ _)) fun _ => ?_)
  refine wp_bind (frame_skip (Does.load frame_quiet) fun dev => ?_)
  refine wp_bind (frame_skip (ackMatches_all frame_quiet _ _ _ _) fun isCurrent => ?_)
  refine wp_call ?_ fun _ => wp_bind (frame_skip (Does.unlock (Set.mem_univ _)) fun _ => wp_pure rfl)
  split
  · refine wp_bind (wp_act fun w gs hI hg _ => ⟨_, ?_, wp_broadcast rfl⟩)
    have hl := FrameInv.thread hI t
    rw [hg] at hl
    rw [update_self_of_eq hg]
    refine FrameInv.same hI rfl rfl fun e he => ?_
    cases he
    refine ⟨⟨(hl.session _ rfl).2, d, ?_, hcmd, hport, rfl, rfl, hlen, rfl, rfl⟩, rfl⟩
    rw [hl.reading]
    rfl
  · exact frame_stats _ rfl

/-- the check of `process_command`: the session of the frame is the current one -/
theorem sessionCheck_frames {r : Raw} {d : Decoded} {s : Option U32} :
    wp (frameLogic T d₀ s₀ rx) t (do
      let v2 ← load fun m => m.fgUseProtocolV2
      if v2 then load fun m => d.session != m.fgSessionId else pure false)
      (fun stale g' => if stale then Inside g' else g' = commanded r d (some d.session))
      (commanded r d s) := by
  refine wp_bind (wp_load fun w gs hI hg hK => ?_)
  have hv2 : w.mem.fgUseProtocolV2 = true := FrameInv.v2 hI (FrameInv.live hI hK (t := t) (by rw [hg]; rfl))
  rw [hv2]
  refine wp_act fun w gs hI hg _ => ?_
  have hl := FrameInv.thread hI t
  rw [hg] at hl
  by_cases hs : d.session = w.mem.fgSessionId
  · refine ⟨commanded r d (some d.session), ?_, ?_⟩
    · refine FrameInv.step hI (x := none) nofun (FrameInv.session hI) (FrameInv.v2 hI)
        (FrameInv.only hI t) ⟨hl.reading, fun s hs' => ⟨rfl, ?_⟩⟩ fun _ _ _ => rfl
      cases hs'
      exact hs.trans (FrameInv.session hI)
    · show if d.session != w.mem.fgSessionId then _ else _
      rw [if_neg (by simp [hs])]
  · refine ⟨commanded r d s, ?_, ?_⟩
    · rw [update_self_of_eq hg]
      exact hI
    · show if d.session != w.mem.fgSessionId then _ else _
      rw [if_pos (by simp [hs])]
      rfl

theorem processCommand_frames {r : Raw} {d : Decoded} (hcarries : r.Carries d)
    (session : Option U32) (hlegacy : ∀ bs, r = .legacy bs → session = some d.session) :
    wp (frameLogic T d₀ s₀ rx) t
      (processCommand d.port d.cmd d.flags d.sequence d.session d.payload)
      (fun _ g' => Inside g') (consumed r session) := by
  refine wp_bind (frame_tick _ (commanded r d session) ?_ ?_ (fun _ => rfl) rfl rfl rfl ?_)
  · intro w gs hI hg
    have hl := hI.thread t
    rw [hg] at hl
    refine ⟨?_, ?_, r, ?_, hcarries, fun bs hbs => (hl.session _ (hlegacy bs hbs)).2⟩
    all_goals
      rw [hl.reading]
      rfl
  · intro a ha
    show a.read t { a.reading t with cmd := some d } = _
    rw [ha]
    rfl
  split
  case isTrue hhello =>
    refine wp_seq _ (processHelloPayload_frames hhello session d.payload) ?_
    exact fun _ g' hg' => wp_pure hg'
  split
  · exact wp_bind (frame_stats _ (wp_pure rfl))
  refine wp_seq _ (sessionCheck_frames (s := session)) fun stale g' hg' => ?_
  cases stale with
  | true => exact wp_bind (frame_stats _ (wp_pure hg'))
  | false =>
    cases hg'
    have hw : (commanded r d (some d.session)).Warrant := warrant_of (.inr rfl)
    have hupdate : ∀ f, wp (frameLogic T d₀ s₀ rx) t (updateStatus f) (fun _ g' => Inside g')
        (commanded r d (some d.session)) := fun f =>
      frame_skip (updateStatus_all frame_quiet hw (Set.mem_univ _) f) fun _ => rfl
    show wp _ t (if d.cmd = rpCmdIdAllStatus then _ else _) _ _
    split
    · split
      · exact wp_pure rfl
      · exact hupdate _
    split
    · split
      · exact wp_pure rfl
      refine wp_bind (frame_skip (Does.lock (Set.mem_univ _)) fun _ => ?_)
      refine wp_bind (frame_skip (setRuntimeTelemetry_all hw _) fun _ => ?_)
      exact wp_bind (frame_skip (Does.unlock (Set.mem_univ _)) fun _ => wp_pure rfl)
    split
    · split
      · exact wp_pure rfl
      · exact hupdate _
    split
    case isTrue hack =>
      split
      · exact wp_pure rfl
      case isFalse hlen =>
        split
        case h_1 => exact wp_pure rfl
        case h_2 i hi => exact processAck_frames hack hi (by simpa using hlen)
    split <;> exact wp_pure rfl

/-! ## reading a frame -/

/-- the ghost of a receiver that has no frame yet -/
def entered : FrameG := ⟨⟨true, none, none⟩, none⟩

theorem frame_receive (desc : Option Nat) (size : Nat) {Q : Except Int (List Byte) → FrameG → Prop}
    (herr : ∀ e, Q (.error e) g) (hok : ∀ bs, bs.length = size → Q (.ok bs) g) :
    wp (frameLogic T d₀ s₀ rx) t (raspikeComReceiveTimeout desc size) Q g := by
  refine frame_yields (raspikeComReceiveTimeout_all frame_quiet (fun _ _ => trivial) size)
    (raspikeComReceiveTimeout_yields desc size) fun r hr => ?_
  cases r with
  | error e => exact herr e
  | ok bs => exact hok bs (hr bs rfl)

theorem frame_load {α : Type} {f : Mem → α} {Q : α → FrameG → Prop} (hQ : ∀ a, Q a g) :
    wp (frameLogic T d₀ s₀ rx) t (load f) Q g :=
  frame_skip (Does.load frame_quiet) hQ

/-- a complete frame has been read -/
theorem frame_raw (r : Raw) {Q : Unit → FrameG → Prop}
    (hr : match r with
      | .v2 bs => (decodeV2 bs).isSome
      | .legacy bs => (decodeLegacy bs).isSome)
    (hQ : Q () (consumed r none)) : wp (frameLogic T d₀ s₀ rx) t (tick r.event) Q entered := by
  refine frame_tick _ (consumed r none) ?_ ?_ ?_ rfl rfl rfl hQ
  · intro w gs hI hg
    have hl := hI.thread t
    rw [hg] at hl
    have hin : ((framesOf s₀ w.trace).reading t).inside = true := by
      rw [hl.reading]
      rfl
    have hraw : ((framesOf s₀ w.trace).reading t).raw = none := by
      rw [hl.reading]
      rfl
    cases r with
    | v2 bs => exact ⟨hin, hraw, hr⟩
    | legacy bs => exact ⟨hin, hraw, hr⟩
  · intro a ha
    cases r with
    | v2 bs =>
      show a.read t { a.reading t with raw := some (.v2 bs) } = _
      rw [ha]
      rfl
    | legacy bs =>
      show a.read t { a.reading t with raw := some (.legacy bs) } = _
      rw [ha]
      rfl
  · intro a
    cases r <;> rfl

theorem receiveLegacyBody_frames {header : List Byte} (hheader : header.length = 3) :
    wp (frameLogic T d₀ s₀ rx) t (receiveLegacyBody header) (fun _ g' => Inside g') entered := by
  unfold receiveLegacyBody
  dsimp only
  split
  · exact wp_bind (frame_stats _ (wp_pure rfl))
  case isFalse hvalid =>
  have hport : raspikeIsValidPort (header.getD 2 0) := by
    by_contra hc
    exact hvalid (.inr (by simpa using hc))
  refine wp_seq (fun received g' => g' = entered ∧ ∀ payload, received = .ok payload →
    payload.length = (header.getD 1 0).toNat) ?_ fun received g' hg' => ?_
  · split
    · refine wp_bind (frame_load fun desc => frame_receive _ _ (fun e => ⟨rfl, by simp⟩) ?_)
      intro bs hbs
      refine ⟨rfl, fun payload hp => ?_⟩
      cases hp
      exact hbs
    case isFalse hzero =>
      refine wp_pure ⟨rfl, fun payload hp => ?_⟩
      cases hp
      exact (Nat.eq_zero_of_not_pos hzero).symm
  obtain ⟨rfl, hlen⟩ := hg'
  cases received with
  | error e => exact wp_pure rfl
  | ok payload =>
    have hdecode := decodeLegacy_append hheader (hlen payload rfl) hport
    refine wp_bind (frame_raw (.legacy (rpCmdStart :: header ++ payload)) ?_ ?_)
    · show (decodeLegacy _).isSome
      rw [hdecode]
      rfl
    refine wp_bind (frame_stats _ (wp_bind (frame_session rfl fun session => ?_)))
    exact processCommand_frames (r := .legacy (rpCmdStart :: header ++ payload))
      (d := ⟨header.getD 2 0, header.getD 0 0, 0, 0, session, payload⟩) ⟨hdecode, rfl, rfl⟩
      (some session) fun _ _ => rfl

theorem receiveLegacyFrame_frames :
    wp (frameLogic T d₀ s₀ rx) t receiveLegacyFrame (fun _ g' => Inside g') entered := by
  refine wp_bind (frame_load fun desc => wp_bind (frame_receive _ _ (fun e => wp_pure rfl) ?_))
  exact fun header hheader => receiveLegacyBody_frames hheader

theorem receiveV2Checked_frames {header rest : List Byte}
    (hheader : header.length = rpV2HeaderSize - 1) (hversion : header.getD 0 0 = rpV2Version)
    (hsize : (header.getD 4 0).toNat ≤ rpV2MaxPayload)
    (hrest : rest.length = (header.getD 4 0).toNat + rpV2CrcSize) :
    wp (frameLogic T d₀ s₀ rx) t (receiveV2Checked header rest) (fun _ g' => Inside g') entered := by
  unfold receiveV2Checked
  dsimp only
  split
  · exact wp_bind (frame_stats _ (wp_pure rfl))
  case isFalse hcrc =>
    have hdecode : decodeV2 (rpV2Start :: header ++ rest) = _ := decodeV2_append (by
      simp only [v2Intact, decide_eq_true_eq]
      exact ⟨hheader, hversion, hsize, hrest, by simpa using hcrc⟩)
    refine wp_bind (frame_raw (.v2 (rpV2Start :: header ++ rest)) ?_ ?_)
    · show (decodeV2 _).isSome
      rw [hdecode]
      rfl
    · exact processCommand_frames (r := .v2 (rpV2Start :: header ++ rest)) hdecode none (by simp)

theorem receiveV2Frame_frames :
    wp (frameLogic T d₀ s₀ rx) t receiveV2Frame (fun _ g' => Inside g') entered := by
  refine wp_bind (frame_load fun desc => wp_bind (frame_receive _ _ (fun e => wp_pure rfl) ?_))
  intro header hheader
  have hdiscard : ∀ size, Does (frameKinds entered) Set.univ (discardReceiveBytes size) := by
    intro size
    refine Does.loopFrom fun size => ?_
    split
    · exact Does.pure _
    refine (Does.load frame_quiet).bind fun desc => ?_
    refine (raspikeComReceiveTimeout_all frame_quiet (fun _ _ => trivial) _).bind fun r => ?_
    cases r <;> exact Does.pure _
  show wp _ t (receiveV2Body header) _ _
  unfold receiveV2Body
  dsimp only
  split
  · exact wp_bind (frame_skip (hdiscard _) fun _ => wp_bind (frame_stats _ (wp_pure rfl)))
  case isFalse hversion =>
  split
  · exact wp_bind (frame_skip (hdiscard _) fun _ => wp_bind (frame_stats _ (wp_pure rfl)))
  case isFalse hsize =>
  refine wp_bind (frame_load fun desc => wp_bind (frame_receive _ _ (fun e => wp_pure rfl) ?_))
  intro rest hrest
  exact receiveV2Checked_frames hheader (by simpa using hversion) (by omega) hrest

theorem receiveFrame_frames :
    wp (frameLogic T d₀ s₀ rx) t receiveFrame (fun _ g' => Inside g') entered := by
  refine wp_bind (frame_load fun desc => wp_bind (frame_receive _ _ (fun e => wp_pure rfl) ?_))
  intro start _
  refine wp_seq (fun _ g' => Inside g') ?_ fun result g' hg' => ?_
  · show wp _ t (receiveStarted (start.getD 0 0)) _ _
    unfold receiveStarted
    split
    · exact receiveV2Frame_frames
    split
    · exact receiveLegacyFrame_frames
    · exact wp_bind (frame_stats _ (wp_pure rfl))
  · refine wp_seq (fun _ g' => Inside g') ?_ fun _ g' hg' => wp_pure hg'
    split
    · exact frame_stats _ hg'
    · exact wp_pure hg'

theorem receiveDone_frames :
    wp (frameLogic T d₀ s₀ rx) t receiveDone (fun _ g' => g' = {}) g := by
  refine wp_bind (frame_skip (Does.lock (Set.mem_univ _)) fun _ => ?_)
  refine wp_bind (frame_read .receiverOut {} (fun _ => ⟨rfl, rfl⟩) (fun _ _ _ _ => trivial)
    (fun _ _ => rfl) (fun _ => rfl) nofun (.inl rfl) ?_)
  refine wp_bind (frame_load fun active => wp_call ?_ fun _ => ?_)
  · split
    · exact wp_broadcast rfl
    · exact wp_pure rfl
  · exact frame_skip (Does.unlock (Set.mem_univ _)) fun _ => rfl

theorem raspikeProtReceive_frames :
    wp (frameLogic T d₀ s₀ rx) rx raspikeProtReceive (fun _ g' => g' = {}) {} := by
  refine wp_bind (frame_skip (Does.lock (Set.mem_univ _)) fun _ => ?_)
  refine wp_bind (frame_skip (Does.orElse (Does.load frame_quiet)
    (Does.orElse (Does.load frame_quiet) (Does.load frame_quiet))) fun down => ?_)
  split
  · exact wp_bind (frame_skip (Does.unlock (Set.mem_univ _)) fun _ => wp_pure rfl)
  refine wp_bind (frame_read .receiverIn entered (fun _ => ⟨rfl, rfl⟩) (fun _ _ _ _ => trivial)
    (fun _ _ => rfl) (fun _ => rfl) (fun _ => .inr rfl) (.inl rfl) ?_)
  refine wp_bind (frame_skip (Does.unlock (Set.mem_univ _)) fun _ => ?_)
  refine wp_seq _ receiveFrame_frames fun result g' _ => ?_
  exact wp_seq _ receiveDone_frames fun _ g' hg' => wp_pure hg'

/-! ## the other calls -/

theorem outside_warrant : ({} : FrameG).Warrant := nofun
theorem outside_greeted : ({} : FrameG).Greeted := nofun

theorem outside_neutral (t : T) : (frameLogic T d₀ s₀ rx).Neutral
    (Acc {k | k ≠ .recv ∧ k ≠ .receivers ∧ k ≠ .ack ∧ k ≠ .sess ∧ k ≠ .v2}) (· ∈ Set.univ) t {} := by
  refine (frame_neutral t {}).mono (fun e f hacc m => ?_) fun _ _ => trivial
  obtain ⟨k, ⟨h1, h2, h3, h4, h5⟩, hstep⟩ := hacc m
  refine ⟨k, ?_, hstep⟩
  cases k with
  | recv => exact h1 rfl
  | receivers => exact h2 rfl
  | ack => exact h3 rfl
  | sess => exact h4 rfl
  | v2 => exact h5 rfl
  | reset => exact outside_greeted
  | prot | status => exact outside_warrant
  | _ => trivial

theorem outside_skip {α : Type} {p : P α} {Q : α → FrameG → Prop}
    (hp : Does {k | k ≠ .recv ∧ k ≠ .receivers ∧ k ≠ .ack ∧ k ≠ .sess ∧ k ≠ .v2} Set.univ p)
    (hQ : ∀ a, Q a {}) : wp (frameLogic T d₀ s₀ rx) t p Q {} :=
  wp_all (outside_neutral t) hp hQ

theorem requestKinds_outside :
    requestKinds ⊆ {k | k ≠ .recv ∧ k ≠ .receivers ∧ k ≠ .ack ∧ k ≠ .sess ∧ k ≠ .v2} := by
  intro k hk
  cases k <;> first
    | exact hk.elim
    | exact ⟨nofun, nofun, nofun, nofun, nofun⟩

theorem raspikeProtShutdown_frames :
    wp (frameLogic T d₀ s₀ rx) t raspikeProtShutdown (fun _ g' => g' = {}) {} := by
  refine raspikeProtShutdown_keeps (outside_neutral t) (fun k hk hv2 hsess => ?_)
    (Set.subset_univ _) (fun _ => ⟨nofun, nofun, nofun, nofun, nofun⟩) (frame_setUseV2 rfl)
    (frame_setSession nofun rfl)
  simp only [shutdownKinds, Set.mem_insert_iff, Set.mem_singleton_iff] at hk
  refine ⟨?_, ?_, ?_, hsess, hv2⟩ <;> rintro rfl <;> simp at hk

theorem body_frames (c : Call) (hc : ∀ desc, c ≠ .init desc) (hrx : c = .receive → t = rx) :
    wp (frameLogic T d₀ s₀ rx) t c.body (fun _ g' => g' = {}) {} := by
  have hclient : c.isClient → wp (frameLogic T d₀ s₀ rx) t c.body (fun _ g' => g' = {}) {} := by
    refine body_keeps ((outside_neutral t).mono (fun e f h m => ?_) fun _ _ => Set.mem_univ _)
      (fun port cmd buf size => ?_) (fun port cmd buf size => ?_) fun port cmd data size => ?_
    · obtain ⟨k, hk, hstep⟩ := h m
      refine ⟨k, ?_, hstep⟩
      simp only [deviceKinds, Set.mem_insert_iff, Set.mem_singleton_iff] at hk
      rcases hk with rfl | rfl | rfl | rfl <;> exact ⟨by simp, by simp, by simp, by simp, by simp⟩
    · exact outside_skip (raspikeProtSend_all requestKinds_outside (Set.subset_univ _) _ _ _ _)
        fun _ => rfl
    · exact outside_skip (raspikeProtSendPriority_all requestKinds_outside (Set.subset_univ _) _ _ _ _)
        fun _ => rfl
    · exact outside_skip (raspikeRequest_all requestKinds_outside (Set.subset_univ _) _ _ _ _)
        fun _ => rfl
  cases c with
  | init desc => exact (hc desc rfl).elim
  | shutdown => exact wp_call raspikeProtShutdown_frames fun _ => wp_pure rfl
  | receive =>
    cases hrx rfl
    exact wp_call raspikeProtReceive_frames fun _ => wp_pure rfl
  | _ => exact hclient rfl

/-! ## runs -/

/-- only the thread `rx` receives -/
def OneReceiver (rx : T) (calls : T → List Call) : Prop := ∀ t, .receive ∈ calls t → t = rx

theorem frame_start {m : Mem} (hs : m.fgSessionId = s₀) (hv2 : m.fgUseProtocolV2 = true)
    {calls : T → List Call} (hc : NoInit calls) (hrx : OneReceiver rx calls) :
    (frameLogic T d₀ s₀ rx).Holds (start m calls) fun _ => {} := by
  refine ⟨⟨trivial, hs, fun _ => hv2, nofun, fun u => ⟨rfl, nofun⟩⟩, fun u => ?_⟩
  refine wp_mono (fun _ _ _ => trivial) (client_keeps ((outside_neutral u).mono (fun e f h m => ?_)
    fun _ h => h.elim) (calls u) fun c h => body_frames c (hc u c h) ?_)
  · obtain ⟨k, rfl, hstep⟩ := h m
    exact ⟨.call, ⟨nofun, nofun, nofun, nofun, nofun⟩, hstep⟩
  · rintro rfl
    exact hrx u h

/-- **the code keeps to the machine**: in every run with one receiver, from a state in which
protocol v2 is chosen -/
theorem framing_refines {m : Mem} (hi : Idle d₀ m) (hv2 : m.fgUseProtocolV2 = true)
    {calls : T → List Call} (hc : NoInit calls) (hrx : OneReceiver rx calls) {c : Sys T}
    (hr : Reach (start m calls) c) : ∃ gs, FrameInv d₀ m.fgSessionId rx c.toWorld gs := by
  obtain ⟨ls, hlife⟩ := lifetime_refines hi hc hr
  have hv := hr.via (K := (lifetime T d₀).Legal .start) (fun _ _ h => h.tail) hlife.legal
  obtain ⟨gs, h⟩ := (frameLogic T d₀ m.fgSessionId rx).reach (frame_start rfl hv2 hc hrx) hv
  exact ⟨gs, h.1⟩

end RaspikeArt
