import RaspikeArt.Protocol.Stages
import RaspikeArt.Transport.Takes

/-!
# What a device offers in a negotiation

The stages of an init up to the HELLO, as functions of the device's script and the send buffer.

* `Peer.offers`   the payload of the HELLO that a negotiation gets to;
* `Peer.HasRoom`  the requests of the handshake leave room in the send buffer;
* `initHandshake_told`, `helloRead_told`  the stages end as they say, where they end;
* `Play.handshake_room`  and with room exactly if `HasRoom` says so.
-/

namespace RaspikeArt
open Threads

/-! ## a negotiation, on the peer -/

/-- what is done with a peer, which may not answer -/
def Play (α : Type) : Type := Peer → Option α × Peer

namespace Play

def bind {α β : Type} (x : Play α) (f : α → Play β) : Play β := fun p =>
  match x p with
  | (some a, p) => f a p
  | (none, p) => (none, p)

instance : Monad Play where
  pure a := fun p => (some a, p)
  bind := bind

def fail {α : Type} : Play α := fun p => (none, p)

/-- a send or a flush -/
def accepted (r : Bool × Peer) : Option Unit × Peer := (if r.1 then some () else none, r.2)

def send (n : Nat) : Play Unit := fun p => accepted (p.send n)

def flush : Play Unit := fun p => accepted p.flush

/-- `n` bytes are received -/
def receive (n : Nat) : Play (List Byte) := fun p =>
  ((deviceGives p.rx n).1.toOption, { p with rx := (deviceGives p.rx n).2 })

/-- `target` is found -/
def scan (target : Byte) : Play Unit := fun p =>
  accepted ((deviceFinds target p.rx).1, { p with rx := (deviceFinds target p.rx).2 })

/-- the answer to a request: a version -/
def answer : Play (Byte × Byte × Byte) := do
  scan rpCmdInit
  let magic ← receive 1
  if magic.getD 0 0 ≠ rpCmdInitMagic then fail else
  let version ← receive 3
  return (version.getD 0 0, version.getD 1 0, version.getD 2 0)

def once : Play (Byte × Byte × Byte) := do
  send [rpCmdInit, rpCmdInitMagic].length
  flush
  answer

/-- the attempts that are left -/
def handshake : Nat → Play (Byte × Byte × Byte)
  | 0 => fail
  | n + 1 => fun p => match once p.discard with
    | (some version, p) => (some version, p)
    | (none, p) => handshake n p

/-- the payload of a HELLO -/
def hello : Play (List Byte) := do
  scan rpCmdStart
  let header ← receive 3
  if header.getD 0 0 ≠ rpCmdIdLinkHello ∨ header.getD 2 0 ≠ rpPortNone ∨
    (header.getD 1 0).toNat ≠ rpV2HelloPayloadSize then fail
  else receive rpV2HelloPayloadSize

def negotiation : Play (List Byte) := do
  let version ← handshake rpHandshakeAttempts
  if version ≠ spikeExpectedVersion then fail else hello

end Play

/-- the payload of the HELLO that a negotiation gets to -/
def Peer.offers (p : Peer) : Option (List Byte) := (Play.negotiation p).1

/-- nothing but its answers to reads changes -/
structure SameSide (p q : Peer) : Prop where
  opened : q.opened = p.opened
  mode : q.mode = p.mode
  unsent : q.unsent = p.unsent

theorem SameSide.refl (p : Peer) : SameSide p p := ⟨rfl, rfl, rfl⟩

theorem SameSide.trans {p q r : Peer} (h : SameSide p q) (h' : SameSide q r) : SameSide p r :=
  ⟨h'.opened.trans h.opened, h'.mode.trans h.mode, h'.unsent.trans h.unsent⟩

/-- what a program makes of the peer at `d` is what `x` says, with `R` for its results if it succeeds -/
structure Plays {α β : Type} (d : Nat) (x : Play α) (c : P β) (R : α → β → Mem → Prop) (F : β → Prop) :
    Prop where
  settles : ∀ p w, p.opened = true → Faces d p w → Settles c w fun b w' =>
    Faces d (x p).2 w' ∧ (∀ a, (x p).1 = some a → R a b w'.mem) ∧ ((x p).1 = none → F b)
  same : ∀ p, SameSide p (x p).2

section
variable {d : Nat} {α β γ δ : Type} {x : Play α} {f : α → Play γ} {c : P β} {q : β → P δ}
  {R : α → β → Mem → Prop} {F : β → Prop} {R' : γ → δ → Mem → Prop} {F' : δ → Prop}

theorem Play.bind_some {p p' : Peer} {a : α} (h : x p = (some a, p')) : (x >>= f) p = f a p' := by
  show Play.bind x f p = _
  rw [Play.bind, h]

theorem Play.bind_none {p p' : Peer} (h : x p = (none, p')) : (x >>= f) p = (none, p') := by
  show Play.bind x f p = _
  rw [Play.bind, h]

theorem Play.bind_eq_some {p p' : Peer} {b : γ} (h : (x >>= f) p = (some b, p')) :
    ∃ a q, x p = (some a, q) ∧ f a q = (some b, p') := by
  rcases hx : x p with ⟨_ | a, q⟩
  · rw [Play.bind_none hx] at h
    cases h
  · rw [Play.bind_some hx] at h
    exact ⟨a, q, rfl, h⟩

theorem Play.rel_bind (S : Peer → Peer → Prop) (htrans : ∀ {p q r}, S p q → S q r → S p r) {p : Peer}
    (hx : S p (x p).2) (hf : ∀ a p, S p (f a p).2) : S p ((x >>= f) p).2 := by
  rcases h : x p with ⟨_ | a, p₁⟩
  · rw [Play.bind_none h]
    rw [h] at hx
    exact hx
  · rw [Play.bind_some h]
    rw [h] at hx
    exact htrans hx (hf a p₁)

theorem Plays.bind (h : Plays d x c R F) (hR : ∀ a b m, R a b m → Plays d (f a) (q b) R' F')
    (hF : ∀ b w, F b → Settles (q b) w fun b' w' => w' = w ∧ F' b')
    (hf : ∀ a p, SameSide p (f a p).2) : Plays d (x >>= f) (c >>= q) R' F' := by
  constructor
  · intro p w hopen hp
    apply settle_seq (h.settles p w hopen hp)
    rintro b w₁ ⟨hp₁, hsome, hnone⟩
    have hopen₁ : (x p).2.opened = true := (h.same p).opened.trans hopen
    rcases hx : x p with ⟨_ | a, p₁⟩
    · rw [Play.bind_none hx]
      rw [hx] at hp₁ hnone
      apply settle_mono (hF b w₁ (hnone rfl))
      rintro b' _ ⟨rfl, hb⟩
      refine ⟨hp₁, fun a ha => ?_, fun _ => hb⟩
      cases ha
    · rw [Play.bind_some hx]
      rw [hx] at hp₁ hsome hopen₁
      exact (hR a b _ (hsome a rfl)).settles p₁ w₁ hopen₁ hp₁
  · exact fun p => Play.rel_bind SameSide SameSide.trans (h.same p) hf

theorem Plays.desc {q : Option Nat → P β} (h : Plays d x (q (some d)) R F) :
    Plays d x (load (fun m => m.fgDesc) >>= q) R F := by
  refine ⟨fun p w hopen hp => ?_, h.same⟩
  apply settle_bind
  apply settle_load
  rw [hp.desc]
  exact h.settles p w hopen hp

theorem Plays.fail {b : β} (hb : F b) : Plays d (Play.fail : Play α) (pure b) R F := by
  refine ⟨fun p w _ hp => settle_pure ⟨hp, fun a ha => ?_, fun _ => hb⟩, SameSide.refl⟩
  cases ha

end

section
variable {d : Nat}

theorem scan_plays (target : Byte) : Plays d (Play.scan target) (scanForByte target)
    (fun _ r _ => 0 ≤ r) (fun r => r < 0) := by
  refine ⟨fun p w hopen hp => ?_, fun _ => ⟨rfl, rfl, rfl⟩⟩
  apply settle_mono (scanForByte_script target hopen hp)
  rintro r w' ⟨rx, hp', hfinds⟩
  unfold Play.scan
  rw [hfinds]
  refine ⟨hp', fun _ ha => ?_, fun hnone => ?_⟩
  · by_contra hneg
    rw [Play.accepted, if_neg (by rw [decide_eq_true_eq]; exact hneg)] at ha
    cases ha
  · by_contra hneg
    rw [Play.accepted, if_pos (decide_eq_true (Int.not_lt.mp hneg))] at hnone
    cases hnone

theorem receive_plays {n : Nat} (hn : n ≠ 0) : Plays d (Play.receive n)
    (raspikeComReceiveTimeout (some d) n) (fun bs r _ => r = .ok bs)
    (fun r => ∃ e, e < 0 ∧ r = .error e) := by
  refine ⟨fun p w hopen hp => ?_, fun _ => ⟨rfl, rfl, rfl⟩⟩
  apply settle_mono (raspikeComReceiveTimeout_script hn hopen hp)
  rintro r w' ⟨rx, hp', hgives⟩
  have hneg : ∀ e, r = .error e → e < 0 := fun e he =>
    deviceGives_fails ((congrArg Prod.fst hgives).trans he)
  unfold Play.receive
  rw [hgives]
  cases r with
  | ok bs =>
    refine ⟨hp', fun bs' hbs => ?_, fun h => ?_⟩
    · cases hbs
      rfl
    · cases h
  | error e =>
    refine ⟨hp', fun bs' hbs => ?_, fun _ => ⟨e, hneg e rfl, rfl⟩⟩
    cases hbs

theorem answer_plays : Plays d Play.answer handshakeAnswer (fun v r m => r = 0 ∧ m.version = v)
    (fun r => r < 0) := by
  have hend : ∀ version : List Byte, Plays d
      (pure (version.getD 0 0, version.getD 1 0, version.getD 2 0)) (do
        modify fun m => { m with fgVersionMajor := version.getD 0 0 }
        modify fun m => { m with fgVersionMinor := version.getD 1 0 }
        modify fun m => { m with fgVersionPatch := version.getD 2 0 }
        return 0 : P Int) (fun v r m => r = 0 ∧ m.version = v) (fun r => r < 0) := by
    intro version
    refine ⟨fun p w _ hp => ?_, SameSide.refl⟩
    apply settle_bind
    apply settle_modify
    apply settle_bind
    apply settle_modify
    apply settle_bind
    apply settle_modify
    refine settle_pure ⟨⟨hp.desc, hp.peer⟩, fun v hv => ?_, fun h => ?_⟩
    · cases hv
      exact ⟨rfl, rfl⟩
    · cases h
  have hversion : ∀ q : Except Int (List Byte) → P Int, (∀ e, q (.error e) = pure e) →
      (∀ version, Plays d (pure (version.getD 0 0, version.getD 1 0, version.getD 2 0)) (q (.ok version))
        (fun v r m => r = 0 ∧ m.version = v) (fun r => r < 0)) →
      Plays d (do
        let version ← Play.receive 3
        return (version.getD 0 0, version.getD 1 0, version.getD 2 0)) (do
          let desc ← load fun m => m.fgDesc
          q (← raspikeComReceiveTimeout desc 3)) (fun v r m => r = 0 ∧ m.version = v) (fun r => r < 0) := by
    intro q herror hok
    apply Plays.desc
    apply (receive_plays (by decide)).bind
    · rintro version _ _ rfl
      exact hok version
    · rintro _ w ⟨e, he, rfl⟩
      rw [herror]
      exact settle_pure ⟨rfl, he⟩
    · exact fun _ => SameSide.refl
  have hmagic : ∀ (magic : List Byte) p, SameSide p ((if magic.getD 0 0 ≠ rpCmdInitMagic then Play.fail else do
      let version ← Play.receive 3
      return (version.getD 0 0, version.getD 1 0, version.getD 2 0)) p).2 := by
    intro magic p
    split
    · exact SameSide.refl p
    · exact Play.rel_bind SameSide SameSide.trans ⟨rfl, rfl, rfl⟩ fun _ => SameSide.refl
  apply (scan_plays rpCmdInit).bind
  · intro _ found _ hfound
    rw [if_neg (Int.not_lt.mpr hfound)]
    apply Plays.desc
    apply (receive_plays (by decide)).bind
    · rintro magic _ _ rfl
      show Plays d _ (if magic.getD 0 0 ≠ rpCmdInitMagic then _ else _) _ _
      by_cases hmatch : magic.getD 0 0 ≠ rpCmdInitMagic
      · rw [if_pos hmatch, if_pos hmatch]
        exact .fail (by decide)
      · rw [if_neg hmatch, if_neg hmatch]
        exact hversion _ (fun _ => rfl) hend
    · rintro _ w ⟨e, he, rfl⟩
      exact settle_pure ⟨rfl, he⟩
    · exact hmagic
  · intro found w hneg
    rw [if_pos hneg]
    exact settle_pure ⟨rfl, hneg⟩
  · exact fun _ p => Play.rel_bind SameSide SameSide.trans ⟨rfl, rfl, rfl⟩ hmagic

theorem hello_plays : Plays d Play.hello helloRead (fun payload r _ => r = .ok payload)
    (fun r => ∃ e, r = .error e) := by
  have hpayload : Plays d (Play.receive rpV2HelloPayloadSize)
      (load (fun m => m.fgDesc) >>= fun desc => raspikeComReceiveTimeout desc rpV2HelloPayloadSize)
      (fun payload r _ => r = .ok payload) (fun r => ∃ e, r = .error e) := by
    apply Plays.desc
    refine ⟨fun p w hopen hp => ?_, fun _ => ⟨rfl, rfl, rfl⟩⟩
    apply settle_mono ((receive_plays (by decide)).settles p w hopen hp)
    rintro r w' ⟨hp', hsome, hnone⟩
    refine ⟨hp', hsome, fun h => ?_⟩
    obtain ⟨e, -, he⟩ := hnone h
    exact ⟨e, he⟩
  have hheader : ∀ (header : List Byte) p, SameSide p ((if header.getD 0 0 ≠ rpCmdIdLinkHello ∨
      header.getD 2 0 ≠ rpPortNone ∨ (header.getD 1 0).toNat ≠ rpV2HelloPayloadSize then Play.fail
      else Play.receive rpV2HelloPayloadSize) p).2 := by
    intro header p
    split <;> exact ⟨rfl, rfl, rfl⟩
  apply (scan_plays rpCmdStart).bind
  · intro _ found _ hfound
    rw [if_neg (Int.not_lt.mpr hfound)]
    apply Plays.desc
    apply (receive_plays (by decide)).bind
    · rintro header _ _ rfl
      show Plays d _ (if header.getD 0 0 ≠ rpCmdIdLinkHello ∨ header.getD 2 0 ≠ rpPortNone ∨
        (header.getD 1 0).toNat ≠ rpV2HelloPayloadSize then _ else _) _ _
      by_cases hbad : header.getD 0 0 ≠ rpCmdIdLinkHello ∨ header.getD 2 0 ≠ rpPortNone ∨
        (header.getD 1 0).toNat ≠ rpV2HelloPayloadSize
      · rw [if_pos hbad, if_pos hbad]
        exact .fail ⟨_, rfl⟩
      · rw [if_neg hbad, if_neg hbad]
        exact hpayload
    · rintro _ w ⟨e, he, rfl⟩
      exact settle_pure ⟨rfl, e, rfl⟩
    · exact hheader
  · intro found w hneg
    rw [if_pos hneg]
    exact settle_pure ⟨rfl, found, rfl⟩
  · exact fun _ p => Play.rel_bind SameSide SameSide.trans ⟨rfl, rfl, rfl⟩ hheader

/-! ## the handshake -/

/-- how an attempt ends -/
structure Versioned (d : Nat) (x : Option (Byte × Byte × Byte) × Peer) (r : Int) (w : Solo) : Prop where
  faces : Faces d x.2 w
  version : ∀ v, x.1 = some v → r = 0 ∧ w.mem.version = v
  fails : x.1 = none → r < 0

variable {p : Peer} {w : Solo}

theorem AsTold.accepted {x : Bool × Peer} {r : Int} (h : AsTold d x r w) :
    Play.accepted x = if r < 0 then (none, x.2) else (some (), x.2) := by
  rw [Play.accepted, h.1]
  by_cases hr : r < 0
  · rw [if_pos hr, decide_eq_false (Int.not_le.mpr hr)]
    rfl
  · rw [if_neg hr, decide_eq_true (Int.not_lt.mp hr)]
    rfl

theorem Peer.write_keeps (p : Peer) (n : Nat) :
    (p.write n).2.opened = p.opened ∧ (p.write n).2.mode = p.mode ∧ (p.write n).2.unsent = p.unsent := by
  unfold Peer.write
  split <;> exact ⟨rfl, rfl, rfl⟩

theorem Peer.flush_keeps (p : Peer) : p.flush.2.opened = p.opened ∧ p.flush.2.mode = p.mode := by
  obtain ⟨hopened, hmode, -⟩ := p.write_keeps p.unsent
  unfold Peer.flush
  split
  · exact ⟨rfl, rfl⟩
  · split <;> exact ⟨hopened, hmode⟩

theorem Peer.send_keeps (p : Peer) (n : Nat) :
    (p.send n).2.opened = p.opened ∧ (p.send n).2.mode = p.mode := by
  obtain ⟨hopened, hmode, -⟩ := p.write_keeps n
  unfold Peer.send
  split
  · split <;> exact ⟨rfl, rfl⟩
  · exact ⟨hopened, hmode⟩

theorem Peer.write_opened {n : Nat} (h : (p.write n).1 = true) : p.opened = true := by
  by_contra hclosed
  rw [Peer.write_closed (Bool.eq_false_iff.mpr hclosed)] at h
  cases h

/-- a request that is out has gone to an open descriptor -/
theorem Peer.request_opened {n : Nat} (hn : n ≠ 0) (hsend : (p.send n).1 = true)
    (hflush : (p.send n).2.flush.1 = true) : (p.send n).2.flush.2.opened = true := by
  rw [(p.send n).2.flush_keeps.1]
  unfold Peer.send at hsend hflush ⊢
  by_cases hmode : p.mode = .buffered
  · rw [if_pos hmode] at hsend hflush ⊢
    by_cases hfull : p.unsent + n > rpSendBufferSize
    · rw [if_pos hfull] at hsend
      cases hsend
    rw [if_neg hfull] at hflush ⊢
    unfold Peer.flush at hflush
    rw [if_neg (show ¬ p.unsent + n = 0 by omega)] at hflush
    split at hflush
    case isTrue htaken => exact (Peer.write_opened htaken :)
    case isFalse => cases hflush
  · rw [if_neg hmode] at hsend ⊢
    rw [(p.write_keeps n).1]
    exact Peer.write_opened hsend

theorem performHandshakeOnce_told (h : Faces d p w) :
    Settles performHandshakeOnce w (Versioned d (Play.once p)) := by
  have hfails : ∀ {q : Peer} {r : Int} {w' : Solo}, Faces d q w' → r < 0 →
      Versioned d (none, q) r w' := fun hq hr => ⟨hq, fun _ hv => (Option.some_ne_none _ hv.symm).elim, fun _ => hr⟩
  let request := [rpCmdInit, rpCmdInitMagic]
  apply settle_bind
  apply settle_load
  rw [h.desc]
  apply settle_seq (raspikeComSend_told h)
  intro sent w₁ hsent
  have hsend : Play.send request.length p = _ := hsent.accepted
  by_cases hneg : sent < 0
  · rw [if_pos hneg] at hsend ⊢
    rw [Play.once, Play.bind_none hsend]
    exact settle_pure (hfails hsent.2 hneg)
  rw [if_neg hneg] at hsend ⊢
  rw [Play.once, Play.bind_some hsend]
  apply settle_bind
  apply settle_load
  rw [hsent.2.desc]
  apply settle_seq (raspikeComFlush_told hsent.2)
  intro flushed w₂ hflushed
  have hflush : Play.flush (p.send request.length).2 = _ := hflushed.accepted
  by_cases hneg₂ : flushed < 0
  · rw [if_pos hneg₂] at hflush ⊢
    rw [Play.bind_none hflush]
    exact settle_pure (hfails hflushed.2 hneg₂)
  rw [if_neg hneg₂] at hflush ⊢
  rw [Play.bind_some hflush]
  have hopen : (p.send request.length).2.flush.2.opened = true := by
    apply Peer.request_opened (by decide)
    · rw [hsent.1]
      exact decide_eq_true (Int.not_lt.mp hneg)
    · rw [hflushed.1]
      exact decide_eq_true (Int.not_lt.mp hneg₂)
  apply settle_mono (answer_plays.settles _ w₂ hopen hflushed.2)
  exact fun r w' ⟨hfaces, hsome, hnone⟩ => ⟨hfaces, hsome, hnone⟩

section
variable {n : Nat} {q : Peer} {version : Byte × Byte × Byte}

theorem Play.handshake_some (h : Play.once p.discard = (some version, q)) :
    Play.handshake (n + 1) p = (some version, q) := by
  show (match Play.once p.discard with
    | (some version, p) => (some version, p)
    | (none, p) => Play.handshake n p) = _
  rw [h]

theorem Play.handshake_none (h : Play.once p.discard = (none, q)) :
    Play.handshake (n + 1) p = Play.handshake n q := by
  show (match Play.once p.discard with
    | (some version, p) => (some version, p)
    | (none, p) => Play.handshake n p) = _
  rw [h]

end

/-- **A handshake** ends, if it does, as the device lets it. -/
theorem handshakeAttempts_told (n : Nat) {e : Int} (he : e < 0) (h : Faces d p w) :
    Settles (handshakeAttempts n e) w (Versioned d (Play.handshake n p)) := by
  induction n generalizing p w e with
  | zero => exact settle_pure ⟨h, fun _ hv => (Option.some_ne_none _ hv.symm).elim, fun _ => he⟩
  | succ n ih =>
    apply settle_bind
    apply settle_load
    rw [h.desc]
    apply settle_seq (raspikeComDiscardInput_told h)
    intro _ w₁ h₁
    apply settle_seq (performHandshakeOnce_told h₁)
    intro r w₂ hv
    rcases hx : Play.once p.discard with ⟨_ | version, p₂⟩
    · rw [hx] at hv
      have hneg : r < 0 := hv.fails rfl
      rw [if_neg (Int.ne_of_lt hneg), Play.handshake_none hx]
      exact ih hneg hv.faces
    · rw [hx] at hv
      obtain ⟨rfl, -⟩ := hv.version version rfl
      rw [if_pos rfl, Play.handshake_some hx]
      exact settle_pure hv

/-! ## what is left of the send buffer -/

/-- the request of a handshake fits into the send buffer, in the mode in which it goes there -/
def Mem.Roomy (m : Mem) : Prop := m.com.fgSendMode = .buffered →
  m.com.fgSendBuffer.length + [rpCmdInit, rpCmdInitMagic].length ≤ rpSendBufferSize

/-- of the next `n` requests one is taken, with what is left unsent before it -/
def takesWithin : Nat → List TxItem → Nat → Prop
  | 0, _, _ => False
  | n + 1, tx, unsent => unsent + 2 ≤ rpSendBufferSize ∧
    ((deviceAccepts true tx (unsent + 2)).1 = true ∨
      takesWithin n (deviceAccepts true tx (unsent + 2)).2 (unsent + 2))

/-- the send buffer has room for `n` requests and one more, or the device takes one of them -/
def Peer.HasRoom (p : Peer) (n : Nat) : Prop := p.mode = .buffered →
  p.unsent + 2 * (n + 1) ≤ rpSendBufferSize ∨ p.opened = true ∧ takesWithin n p.tx p.unsent

/-- what becomes of a request in buffered mode -/
inductive Requested (p : Peer) : Option (Byte × Byte × Byte) × Peer → Prop
  | full (h : rpSendBufferSize < p.unsent + 2) : Requested p (none, p)
  | kept (h : p.unsent + 2 ≤ rpSendBufferSize) (tx : List TxItem)
      (hopen : p.opened = true → deviceAccepts true p.tx (p.unsent + 2) = (false, tx)) :
      Requested p (none, { p with unsent := p.unsent + 2, tx := tx })
  | taken (h : p.unsent + 2 ≤ rpSendBufferSize) (hopen : p.opened = true)
      (htaken : (deviceAccepts true p.tx (p.unsent + 2)).1 = true)
      {x : Option (Byte × Byte × Byte) × Peer} (hunsent : x.2.unsent = 0) : Requested p x

theorem Play.once_requested (hmode : p.mode = .buffered) : Requested p (Play.once p) := by
  have hsend : p.send [rpCmdInit, rpCmdInitMagic].length = if p.unsent + 2 > rpSendBufferSize then (false, p)
      else (true, { p with unsent := p.unsent + 2 }) := if_pos hmode
  by_cases hfull : p.unsent + 2 > rpSendBufferSize
  · rw [if_pos hfull] at hsend
    have hnone : Play.send [rpCmdInit, rpCmdInitMagic].length p = (none, p) := by
      rw [Play.send, hsend]
      rfl
    rw [Play.once, Play.bind_none hnone]
    exact .full hfull
  rw [if_neg hfull] at hsend
  have hroom : p.unsent + 2 ≤ rpSendBufferSize := by omega
  let p₁ : Peer := { p with unsent := p.unsent + 2 }
  have hsome : Play.send [rpCmdInit, rpCmdInitMagic].length p = (some (), p₁) := by
    rw [Play.send, hsend]
    rfl
  rw [Play.once, Play.bind_some hsome]
  have hflush : p₁.flush = if (p₁.write (p.unsent + 2)).1 then
      (true, { (p₁.write (p.unsent + 2)).2 with unsent := 0 }) else (false, (p₁.write (p.unsent + 2)).2) :=
    if_neg (Nat.succ_ne_zero _)
  cases hopen : p.opened with
  | false =>
    rw [Peer.write_closed (p := p₁) hopen, if_neg Bool.false_ne_true] at hflush
    have hnone : Play.flush p₁ = (none, p₁) := by
      rw [Play.flush, hflush]
      rfl
    rw [Play.bind_none hnone]
    exact .kept hroom p.tx fun h => Bool.noConfusion (hopen.symm.trans h)
  | true =>
    have hwrite : p₁.write (p.unsent + 2) = ((deviceAccepts true p.tx (p.unsent + 2)).1,
      { p₁ with tx := (deviceAccepts true p.tx (p.unsent + 2)).2 }) := if_pos hopen
    rw [hwrite] at hflush
    by_cases htaken : (deviceAccepts true p.tx (p.unsent + 2)).1 = true
    · rw [if_pos htaken] at hflush
      have hsome : Play.flush p₁ =
          (some (), { p with unsent := 0, tx := (deviceAccepts true p.tx (p.unsent + 2)).2 }) := by
        rw [Play.flush, hflush]
        rfl
      rw [Play.bind_some hsome]
      exact .taken hroom hopen htaken ((answer_plays (d := 0)).same _).unsent
    · rw [if_neg htaken] at hflush
      have hnone : Play.flush p₁ =
          (none, { p with unsent := p.unsent + 2, tx := (deviceAccepts true p.tx (p.unsent + 2)).2 }) := by
        rw [Play.flush, hflush]
        rfl
      rw [Play.bind_none hnone]
      exact .kept hroom _ fun _ => Prod.ext (Bool.eq_false_iff.mpr htaken) rfl

theorem Play.once_mode (p : Peer) : (Play.once p).2.mode = p.mode := by
  apply Play.rel_bind (fun p q => q.mode = p.mode) (fun h h' => h'.trans h) (p.send_keeps 2).2
  intro _ p
  apply Play.rel_bind (fun p q => q.mode = p.mode) (fun h h' => h'.trans h) p.flush_keeps.2
  exact fun _ p => ((answer_plays (d := 0)).same p).mode

/-- `discard` leaves all but the answers to reads alone -/
theorem Peer.discard_same (p : Peer) : SameSide p p.discard ∧ p.discard.tx = p.tx := by
  unfold Peer.discard
  split
  · split <;> exact ⟨⟨rfl, rfl, rfl⟩, rfl⟩
  · exact ⟨⟨rfl, rfl, rfl⟩, rfl⟩

theorem Play.handshake_mode (n : Nat) (p : Peer) : (Play.handshake n p).2.mode = p.mode := by
  induction n generalizing p with
  | zero => rfl
  | succ n ih =>
    have hmode : (Play.once p.discard).2.mode = p.mode :=
      (Play.once_mode _).trans p.discard_same.1.mode
    rcases hx : Play.once p.discard with ⟨_ | version, q⟩
    · rw [Play.handshake_none hx, ih]
      rw [hx] at hmode
      exact hmode
    · rw [Play.handshake_some hx]
      rw [hx] at hmode
      exact hmode

theorem takesWithin_room {n : Nat} {tx : List TxItem} {unsent : Nat} (h : takesWithin n tx unsent) :
    unsent + 2 ≤ rpSendBufferSize := by
  cases n with
  | zero => exact h.elim
  | succ n => exact h.1

/-- **The room that a handshake leaves** -/
theorem Play.handshake_room (n : Nat) (hn : 2 * (n + 1) ≤ rpSendBufferSize) (p : Peer) :
    (Play.handshake n p).2.HasRoom 0 ↔ p.HasRoom n := by
  induction n generalizing p with
  | zero => exact Iff.rfl
  | succ n ih =>
    obtain ⟨hside, htx⟩ := p.discard_same
    by_cases hmode : p.mode = .buffered
    swap
    · have hmode' : (Play.handshake (n + 1) p).2.mode ≠ .buffered := by
        rw [Play.handshake_mode]
        exact hmode
      exact ⟨fun _ h => (hmode h).elim, fun _ h => (hmode' h).elim⟩
    have hpeer : p.HasRoom (n + 1) ↔ p.unsent + 2 * (n + 1 + 1) ≤ rpSendBufferSize ∨
        p.opened = true ∧ takesWithin (n + 1) p.tx p.unsent := ⟨fun h => h hmode, fun h _ => h⟩
    have hreq := Play.once_requested (hside.mode.trans hmode)
    have hmode₁ := (Play.once_mode p.discard).trans (hside.mode.trans hmode)
    rw [hpeer, takesWithin]
    rcases hx : Play.once p.discard with ⟨v, q⟩
    rw [hx] at hreq hmode₁
    have hq : q.HasRoom n ↔ q.unsent + 2 * (n + 1) ≤ rpSendBufferSize ∨
        q.opened = true ∧ takesWithin n q.tx q.unsent := ⟨fun h => h hmode₁, fun h _ => h⟩
    cases hreq with
    | full hfull =>
      rw [hside.unsent] at hfull
      rw [Play.handshake_none hx, ih (by omega), hq, hside.unsent]
      constructor
      · rintro (hroom | ⟨-, htakes⟩)
        · omega
        · have hroom := takesWithin_room htakes
          omega
      · rintro (hroom | ⟨-, hroom, -⟩) <;> omega
    | kept hroom tx hopen =>
      rw [hside.unsent, hside.opened, htx] at hopen
      rw [hside.unsent] at hroom
      rw [Play.handshake_none hx, ih (by omega), hq]
      dsimp only
      rw [hside.unsent, hside.opened]
      constructor
      · rintro (hmore | ⟨hop, htakes⟩)
        · exact .inl (by omega)
        · rw [hopen hop]
          exact .inr ⟨hop, hroom, .inr htakes⟩
      · rintro (hmore | ⟨hop, -, htakes⟩)
        · exact .inl (by omega)
        · rw [hopen hop] at htakes
          exact .inr ⟨hop, htakes.resolve_left Bool.false_ne_true⟩
    | taken hroom hopen htaken hunsent =>
      rw [hside.unsent, htx] at htaken
      rw [hside.unsent] at hroom
      have hzero : q.unsent = 0 := hunsent
      refine ⟨fun _ => .inr ⟨hside.opened.symm.trans hopen, hroom, .inl htaken⟩, fun _ => ?_⟩
      cases v with
      | none =>
        rw [Play.handshake_none hx, ih (by omega), hq]
        exact .inl (by omega)
      | some version =>
        rw [Play.handshake_some hx]
        exact fun _ => .inl (by omega)

theorem Faces.roomy {d : Nat} (h : Faces d p w) : w.mem.Roomy ↔ p.HasRoom 0 := by
  rw [← h.peer]
  constructor
  · exact fun hroom hmode => .inl (hroom hmode)
  · intro hroom hmode
    rcases hroom hmode with hroom | ⟨-, htakes⟩
    · exact hroom
    · exact htakes.elim

theorem Play.accepted_some {x : Bool × Peer} {q : Peer} {a : Unit} (h : Play.accepted x = (some a, q)) :
    x.1 = true ∧ x.2 = q := by
  obtain ⟨b, q'⟩ := x
  cases b with
  | false => cases h
  | true =>
    cases h
    exact ⟨rfl, rfl⟩

/-- a version has been answered on an open descriptor -/
theorem Play.once_opened {q : Peer} {version : Byte × Byte × Byte}
    (h : Play.once p = (some version, q)) : q.opened = true := by
  obtain ⟨_, p₁, hsend, h⟩ := Play.bind_eq_some h
  obtain ⟨_, p₂, hflush, h⟩ := Play.bind_eq_some h
  obtain ⟨hsent, rfl⟩ := Play.accepted_some hsend
  obtain ⟨hflushed, rfl⟩ := Play.accepted_some hflush
  have hopen := Peer.request_opened (by decide) hsent hflushed
  have hsame := ((answer_plays (d := 0)).same (p.send [rpCmdInit, rpCmdInitMagic].length).2.flush.2).opened
  rw [h] at hsame
  exact hsame.trans hopen

theorem Play.handshake_opened {n : Nat} {q : Peer} {version : Byte × Byte × Byte}
    (h : Play.handshake n p = (some version, q)) : q.opened = true := by
  induction n generalizing p with
  | zero => cases h
  | succ n ih =>
    rcases hx : Play.once p.discard with ⟨_ | v, p₁⟩
    · rw [Play.handshake_none hx] at h
      exact ih h
    · rw [Play.handshake_some hx] at h
      cases h
      exact Play.once_opened hx

/-! ## the stages of an init -/

/-- how the stages up to the HELLO end, where memory is left -/
structure Negotiated (d : Nat) (p : Peer) (x : Option Int) (w : Solo) : Prop where
  faces : Faces d (Play.handshake rpHandshakeAttempts p).2 w
  version : x = none ↔ (Play.handshake rpHandshakeAttempts p).1 = some spikeExpectedVersion

theorem initHandshake_told {d : Nat} {w : Solo} (hdown : w.mem.fgDesc = none) (hfree : w.own = noneHeld) :
    Settles (initHandshake (some d)) w fun x w' =>
      (w.mem.callocFails = true → x ≠ none ∧ w'.mem.com = w.mem.com) ∧
        (w.mem.callocFails = false → Negotiated d (w.mem.peer d) x w') := by
  apply settle_seq (initBegin_finishes hdown hfree).settles
  intro x w₁ hb
  cases hcalloc : w.mem.callocFails with
  | true =>
    obtain ⟨rfl, -, -⟩ := hb.fails hcalloc
    refine settle_pure ⟨fun _ => ⟨Option.some_ne_none _, hb.com⟩, fun h => ?_⟩
    cases h
  | false =>
    obtain ⟨rfl, hdesc⟩ := hb.goesOn hcalloc
    have hp : Faces d (w.mem.peer d) w₁ := by
      refine ⟨hdesc, ?_⟩
      rw [Mem.peer, Mem.peer, hb.com]
    have hneg : (-ETIMEDOUT : Int) < 0 := by decide
    apply settle_seq (handshakeAttempts_told rpHandshakeAttempts hneg hp)
    intro r w₂ hv
    have hmissed : ∀ {e : Int}, (Play.handshake rpHandshakeAttempts (w.mem.peer d)).1 ≠
        some spikeExpectedVersion → (false = true → some e ≠ none ∧ w₂.mem.com = w.mem.com) ∧
          (false = false → Negotiated d (w.mem.peer d) (some e) w₂) := fun hne =>
      ⟨fun h => (Bool.false_ne_true h).elim,
        fun _ => ⟨hv.faces, iff_of_false (Option.some_ne_none _) hne⟩⟩
    by_cases hr : r < 0
    · rw [if_pos hr]
      apply settle_pure
      refine hmissed fun hsome => ?_
      obtain ⟨rfl, -⟩ := hv.version _ hsome
      exact absurd hr (by decide)
    rw [if_neg hr]
    cases hx : (Play.handshake rpHandshakeAttempts (w.mem.peer d)).1 with
    | none => exact (hr (hv.fails hx)).elim
    | some version =>
      obtain ⟨rfl, hversion⟩ := hv.version _ hx
      apply settle_bind
      apply settle_load
      have hmatches : versionMatches w₂.mem = (version == spikeExpectedVersion) := by
        rw [← hversion]
        rfl
      rw [hmatches]
      by_cases hsame : version = spikeExpectedVersion
      · rw [if_neg (by simp [hsame])]
        apply settle_pure
        exact ⟨fun h => (Bool.false_ne_true h).elim, fun _ => ⟨hv.faces, iff_of_true rfl (hsame ▸ hx)⟩⟩
      · rw [if_pos (by simp [hsame])]
        apply settle_pure
        refine hmissed fun hsome => hsame ?_
        exact Option.some.inj (hx.symm.trans hsome)

theorem Peer.offers_eq (p : Peer) : p.offers =
    if (Play.handshake rpHandshakeAttempts p).1 = some spikeExpectedVersion then
      (Play.hello (Play.handshake rpHandshakeAttempts p).2).1
    else none := by
  rcases hx : Play.handshake rpHandshakeAttempts p with ⟨_ | version, q⟩
  · rw [Peer.offers, Play.negotiation, Play.bind_none hx]
    rfl
  · rw [Peer.offers, Play.negotiation, Play.bind_some hx]
    by_cases hsame : version = spikeExpectedVersion
    · rw [if_neg (not_not.mpr hsame), if_pos (by rw [hsame])]
    · rw [if_pos hsame, if_neg fun h => hsame (Option.some.inj h)]
      rfl

/-- **What is read of a HELLO** is what the device offers. -/
theorem helloRead_told {d : Nat} {w w₁ : Solo} (h : Negotiated d (w.mem.peer d) none w₁) :
    Settles helloRead w₁ fun r _ => ∀ payload, r = .ok payload ↔ (w.mem.peer d).offers = some payload := by
  have hx := h.version.mp rfl
  rcases hshake : Play.handshake rpHandshakeAttempts (w.mem.peer d) with ⟨version, q⟩
  have hfaces := h.faces
  rw [hshake] at hx hfaces
  cases hx
  have hoffers : (w.mem.peer d).offers = (Play.hello q).1 := by
    rw [Peer.offers_eq, hshake, if_pos rfl]
  rw [hoffers]
  apply settle_mono (hello_plays.settles q w₁ (Play.handshake_opened hshake) hfaces)
  rintro r w₂ ⟨-, hsome, hnone⟩ payload
  cases hp : (Play.hello q).1 with
  | none =>
    obtain ⟨e, rfl⟩ := hnone hp
    refine ⟨fun h => ?_, fun h => ?_⟩ <;> cases h
  | some payload' =>
    rw [hsome _ hp, Except.ok.injEq, Option.some.injEq]

end

end RaspikeArt
