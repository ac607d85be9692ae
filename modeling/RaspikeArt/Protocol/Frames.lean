import RaspikeArt.Lifetime.Specs
import RaspikeArt.Protocol.Format

/-!
# Frames, part 1: the machine

What a receiver may do with the bytes it reads: a command comes out of a complete frame, and what
`raspike_prot_receive` changes is warranted by that command: it is a HELLO, or it carries the
session that is current.

* `Reading`   the present receive of a thread: the frame it has read, the command made of it;
* `framing`   the machine.
-/

namespace RaspikeArt
open Threads

/-- a complete frame, as it was read -/
inductive Raw where
  | v2 (bytes : List Byte)
  | legacy (bytes : List Byte)

/-- the frame is well formed and says what the command says -/
def Raw.Carries : Raw → Decoded → Prop
  | .v2 bytes, d => decodeV2 bytes = some d
  | .legacy bytes, d =>
    decodeLegacy bytes = some (d.port, d.cmd, d.payload) ∧ d.flags = 0 ∧ d.sequence = 0

/-- the label of its arrival -/
def Raw.event : Raw → Event
  | .v2 bytes => .v2Frame bytes
  | .legacy bytes => .legacyFrame bytes

structure Reading where
  inside : Bool
  raw : Option Raw
  cmd : Option Decoded

def Reading.outside : Reading := ⟨false, none, none⟩

structure Frames (T : Type) where
  session : U32
  reading : T → Reading

variable {T : Type}

def Frames.start (s₀ : U32) : Frames T := ⟨s₀, fun _ => .outside⟩

/-- the command of the present receive is a HELLO, or of the current session -/
def Frames.Warranted (a : Frames T) (t : T) : Prop :=
  (a.reading t).inside = true →
    ∃ d, (a.reading t).cmd = some d ∧ (d.cmd = rpCmdIdLinkHello ∨ d.session = a.session)

/-- the command of the present receive is a HELLO -/
def Frames.Greeted (a : Frames T) (t : T) : Prop :=
  (a.reading t).inside = true → ∃ d, (a.reading t).cmd = some d ∧ d.cmd = rpCmdIdLinkHello

variable [DecidableEq T]

def Frames.read (a : Frames T) (t : T) (r : Reading) : Frames T :=
  { a with reading := Function.update a.reading t r }

@[simp] theorem Frames.read_self (a : Frames T) (t : T) (r : Reading) :
    (a.read t r).reading t = r := Function.update_self ..
@[simp] theorem Frames.read_of_ne (a : Frames T) {t u : T} (r : Reading) (h : u ≠ t) :
    (a.read t r).reading u = a.reading u := Function.update_of_ne h _ _
@[simp] theorem Frames.read_session (a : Frames T) (t : T) (r : Reading) :
    (a.read t r).session = a.session := rfl

def Frames.next (a : Frames T) (t : T) : Event → Frames T
  | .receiverIn => a.read t ⟨true, none, none⟩
  | .receiverOut => a.read t .outside
  | .v2Frame bs => a.read t { a.reading t with raw := some (.v2 bs) }
  | .legacyFrame bs => a.read t { a.reading t with raw := some (.legacy bs) }
  | .command port cmd flags sequence session payload =>
    a.read t { a.reading t with cmd := some ⟨port, cmd, flags, sequence, session, payload⟩ }
  | .session s => { a with session := s }
  | _ => a

def Frames.Ok (a : Frames T) (t : T) : Event → Prop
  | .v2Frame bs => (a.reading t).inside = true ∧ (a.reading t).raw = none ∧ (decodeV2 bs).isSome
  | .legacyFrame bs =>
    (a.reading t).inside = true ∧ (a.reading t).raw = none ∧ (decodeLegacy bs).isSome
  | .command port cmd flags sequence session payload =>
    (a.reading t).inside = true ∧ (a.reading t).cmd = none ∧
      ∃ r, (a.reading t).raw = some r ∧
        r.Carries ⟨port, cmd, flags, sequence, session, payload⟩ ∧
        (∀ bs, r = .legacy bs → session = a.session)
  | .ack i s session ackCmd ackData =>
    session = a.session ∧ ∃ d, (a.reading t).cmd = some d ∧ d.cmd = rpCmdIdAck ∧
      getDevice d.port = some i ∧ d.sequence = s ∧ d.session = session ∧ d.payload.length = 8 ∧
      ackCmd = getInt32 d.payload ∧ ackData = getInt32 (d.payload.drop 4)
  | .session s => (a.reading t).inside = true →
      ∃ d, (a.reading t).cmd = some d ∧ d.cmd = rpCmdIdLinkHello ∧ s ≠ a.session
  | .cancel .. | .clear _ => a.Greeted t
  | .capabilities _ | .runtimeTelemetry
  | .statusFetch _ | .statusUse _ | .statusFree _ | .statusWoken _ => a.Warranted t
  | _ => True

def framing (T : Type) [DecidableEq T] : Machine T Event (Frames T) where
  next := Frames.next
  ok := Frames.Ok

abbrev framesOf (s₀ : U32) (tr : Trace T) : Frames T := (framing T).replay (.start s₀) tr

/-! ## what it says of a history -/

/-- every command is carried by the frame of its receive -/
def Frames.Sound (a : Frames T) : Prop :=
  ∀ t d, (a.reading t).cmd = some d → ∃ r, (a.reading t).raw = some r ∧ r.Carries d

theorem Frames.Sound.read {a : Frames T} (h : a.Sound) {t : T} {r : Reading}
    (hr : ∀ d, r.cmd = some d → ∃ x, r.raw = some x ∧ x.Carries d) : (a.read t r).Sound := by
  intro u d hd
  by_cases hut : u = t
  · subst hut
    rw [Frames.read_self] at hd ⊢
    exact hr d hd
  · simp only [Frames.read, Function.update_of_ne hut] at hd ⊢
    exact h u d hd

theorem Frames.Sound.next {a : Frames T} {t : T} {e : Event} (h : a.Sound) (hok : a.Ok t e) :
    (a.next t e).Sound := by
  have hnone : (a.reading t).raw = none → ∀ d, (a.reading t).cmd = some d → False := by
    intro hraw d hd
    obtain ⟨r, hr, -⟩ := h t d hd
    rw [hraw] at hr
    cases hr
  cases e with
  | receiverIn => exact h.read nofun
  | receiverOut => exact h.read nofun
  | v2Frame bs => exact h.read fun d hd => (hnone hok.2.1 d hd).elim
  | legacyFrame bs => exact h.read fun d hd => (hnone hok.2.1 d hd).elim
  | command =>
    obtain ⟨-, -, r, hr, hcarries, -⟩ := hok
    refine h.read fun d hd => ⟨r, hr, ?_⟩
    cases hd
    exact hcarries
  | _ => exact h

theorem Frames.Sound.of_legal {s₀ : U32} {tr : Trace T}
    (h : (framing T).Legal (.start s₀) tr) : (framesOf s₀ tr).Sound :=
  h.inv nofun fun _ _ _ hb hok => hb.next hok

theorem reading_inside_iff (d₀ : Nat) (s₀ : U32) (tr : Trace T) (t : T) :
    ((framesOf s₀ tr).reading t).inside = true ↔ t ∈ (lifeOf d₀ tr).receivers := by
  induction tr with
  | nil => exact ⟨fun h => (nomatch h), fun h => absurd h (Finset.notMem_empty t)⟩
  | cons x tr ih =>
    obtain ⟨u, e⟩ := x
    have hread : ∀ r : Reading, (r.inside = ((framesOf s₀ tr).reading u).inside) →
        ((((framesOf s₀ tr).read u r).reading t).inside = true ↔
          t ∈ (lifeOf d₀ tr).receivers) := by
      intro r hr
      by_cases hut : t = u
      · subst hut
        rw [Frames.read_self, hr]
        exact ih
      · simp only [Frames.read, Function.update_of_ne hut]
        exact ih
    cases e with
    | receiverIn =>
      show ((framesOf s₀ tr).read u ⟨true, none, none⟩ |>.reading t).inside = true ↔
        t ∈ insert u (lifeOf d₀ tr).receivers
      by_cases hut : t = u
      · subst hut
        simp
      · simp only [Frames.read, Function.update_of_ne hut, Finset.mem_insert, hut, false_or]
        exact ih
    | receiverOut =>
      show ((framesOf s₀ tr).read u .outside |>.reading t).inside = true ↔
        t ∈ (lifeOf d₀ tr).receivers.erase u
      by_cases hut : t = u
      · subst hut
        simp [Reading.outside]
      · simp only [Frames.read, Function.update_of_ne hut, Finset.mem_erase, ne_eq, hut,
          not_false_eq_true, true_and]
        exact ih
    | v2Frame bs => exact hread _ rfl
    | legacyFrame bs => exact hread _ rfl
    | command => exact hread _ rfl
    | _ => exact ih

/-- the frame of the present receive is in the history, and no receive began since -/
theorem raw_in_history {s₀ : U32} {tr : Trace T} {t : T} {r : Raw}
    (h : ((framesOf s₀ tr).reading t).raw = some r) :
    ∃ as bs, tr = as ++ (t, r.event) :: bs ∧ (t, Event.receiverIn) ∉ as := by
  induction tr with
  | nil => cases h
  | cons x tr ih =>
    obtain ⟨u, e⟩ := x
    -- an entry that leaves the reading of `t` alone and is not its `receiverIn`
    have hlater : ((framesOf s₀ tr).reading t).raw = some r → (t, Event.receiverIn) ≠ (u, e) →
        ∃ as bs, (u, e) :: tr = as ++ (t, r.event) :: bs ∧ (t, Event.receiverIn) ∉ as := by
      intro hr hne
      obtain ⟨as, bs, htr, hin⟩ := ih hr
      refine ⟨(u, e) :: as, bs, by rw [htr]; rfl, fun hmem => ?_⟩
      rcases List.mem_cons.mp hmem with hx | hx
      · exact hne hx
      · exact hin hx
    by_cases hut : t = u
    · subst hut
      cases e with
      | receiverIn | receiverOut =>
        simp [Frames.next, framing, Reading.outside] at h
      | v2Frame bs | legacyFrame bs =>
        simp only [Machine.replay_cons, framing, Frames.next, Frames.read_self,
          Option.some.injEq] at h
        subst h
        exact ⟨[], tr, rfl, List.not_mem_nil⟩
      | command =>
        simp only [Machine.replay_cons, framing, Frames.next, Frames.read_self] at h
        exact hlater h (by simp)
      | _ => exact hlater h (by simp)
    · have hsame : ((framesOf s₀ ((u, e) :: tr)).reading t) = (framesOf s₀ tr).reading t := by
        cases e <;> first
          | rfl
          | exact Function.update_of_ne hut _ _
      rw [hsame] at h
      exact hlater h (by simp [hut])

end RaspikeArt
