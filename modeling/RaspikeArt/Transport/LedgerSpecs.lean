import RaspikeArt.Transport.Ledger

/-!
# Transport, part 6: the com layer keeps the ledger

* `flushBufferLocked_kept`, `raspikeComFlush_kept`  a flush, on a way that `Promise.Cond` allows;
* `rpUsbSend_kept`, `raspikeComSend_kept`           a send.
-/

set_option linter.unusedSectionVars false

namespace RaspikeArt
open Threads

section
variable {pr : Promise} {b₀ : List Byte} {d : Nat} {w w' : Solo}

theorem Kept.same (h : Kept pr b₀ w) (htr : w'.trace = w.trace)
    (hb : Solo.buffer w' = Solo.buffer w) : Kept pr b₀ w' := by
  obtain ⟨hlegal, hsound⟩ := h
  rw [← htr] at hlegal
  rw [← htr, ← hb] at hsound
  exact ⟨hlegal, hsound⟩

/-- a label about which nothing is promised -/
theorem Kept.label (h : Kept pr b₀ w) {e : Event} (htr : w'.trace = ((), e) :: w.trace)
    (hok : pr.Ok (ledger b₀ w.trace) e)
    (hsound : ((ledger b₀ w.trace).next e).Sound pr (Solo.buffer w')) : Kept pr b₀ w' := by
  refine ⟨?_, ?_⟩
  · rw [htr]
    refine ⟨?_, h.legal⟩
    rw [ledger_eq]
    exact hok
  · rw [htr]
    exact hsound

/-! ## what is in hand -/

/-- `bs` is in hand, for the descriptor `d` -/
structure InHand (pr : Promise) (b₀ : List Byte) (d : Nat) (bs : List Byte) (w : Solo) : Prop where
  kept : Kept pr b₀ w
  hand : (ledger b₀ w.trace).hand.map Prod.snd = bs
  right : ∀ x ∈ (ledger b₀ w.trace).hand, pr.Right (ledger b₀ w.trace) d x.1

/-- it goes to the device: `rest` is still to be written -/
structure Handing (pr : Promise) (b₀ : List Byte) (d : Nat) (w : Solo) (rest : List Byte) (w' : Solo) :
    Prop where
  ready : InHand pr b₀ d rest w'
  books : ∃ h, ledger b₀ w'.trace = { ledger b₀ w.trace with hand := h }
  desc : w'.mem.fgDesc = w.mem.fgDesc

theorem InHand.own {bs : List Byte} (h : InHand pr b₀ d bs w) (own : Mutex → Option Unit) :
    InHand pr b₀ d bs { w with own := own } :=
  ⟨h.kept.same rfl rfl, h.hand, h.right⟩

theorem InHand.begun {bs : List Byte} (h : InHand pr b₀ d bs w) : Handing pr b₀ d w bs w :=
  ⟨h, ⟨_, rfl⟩, rfl⟩

theorem Handing.clear {rest : List Byte} (h : Handing pr b₀ d w rest w') :
    (ledger b₀ w'.trace).Clear pr ↔ (ledger b₀ w.trace).Clear pr := by
  obtain ⟨hand, hhand⟩ := h.books
  rw [hhand]
  cases pr <;> exact Iff.rfl

theorem handing_writeInv : WriteInv (pr.Cond b₀) (Kept pr b₀) d (Handing pr b₀ d w) where
  safe rest w' hs := hs.ready.kept
  setTx rest w' item tx hs _ :=
    ⟨⟨hs.ready.kept.same rfl rfl, hs.ready.hand, hs.ready.right⟩, hs.books, hs.desc⟩
  wrote rest w' tx n hs _ _ _ := by
    have hok := Ledger.ok_wrote hs.ready.hand hs.ready.right n
    have hkept : Kept pr b₀ (w'.wrote d tx (rest.take n)) :=
      hs.ready.kept.label rfl hok (hs.ready.kept.sound.inHand _)
    refine ⟨⟨hkept, ?_, fun x hx => ?_⟩, ?_, hs.desc⟩
    · show ((ledger b₀ w'.trace).hand.drop (rest.take n).length).map Prod.snd = rest.drop n
      rw [List.map_drop, hs.ready.hand, List.length_take]
      by_cases hn : n ≤ rest.length
      · rw [Nat.min_eq_left hn]
      · rw [Nat.min_eq_right (by omega), List.drop_of_length_le (by omega),
          List.drop_of_length_le (by omega)]
    · have hmem : x ∈ (ledger b₀ w'.trace).hand := List.mem_of_mem_drop hx
      have hright := hs.ready.right x hmem
      cases pr <;> exact hright
    · obtain ⟨hand, hhand⟩ := hs.books
      let rest' := (ledger b₀ w'.trace).hand.drop (rest.take n).length
      exact ⟨rest', congrArg (fun a : Ledger => { a with hand := rest' }) hhand⟩

/-! ## a flush -/

/-- a flush has begun, and nothing is written yet -/
structure FlushReady (pr : Promise) (b₀ : List Byte) (d : Nat) (w : Solo) : Prop where
  ready : InHand pr b₀ d (Solo.buffer w) w
  lost : pr = .unfailed → (ledger b₀ w.trace).waiting = true →
    Solo.closed w d = false ∧ (deviceTakes true (Solo.tx w d) (Solo.buffer w).length).2 = true

theorem FlushReady.own (h : FlushReady pr b₀ d w) (own : Mutex → Option Unit) :
    FlushReady pr b₀ d { w with own := own } :=
  ⟨h.ready.own own, h.lost⟩

theorem FlushReady.clear_of_lost (h : FlushReady pr b₀ d w)
    (hlost : Solo.closed w d = true ∨
      (deviceTakes true (Solo.tx w d) (Solo.buffer w).length).2 = false) :
    (ledger b₀ w.trace).Clear pr := by
  cases pr with
  | sameDesc => trivial
  | unfailed =>
    show (ledger b₀ w.trace).waiting = false
    by_contra hw
    obtain ⟨hfd, htakes⟩ := h.lost rfl (by simpa using hw)
    rw [hfd, htakes] at hlost
    rcases hlost with h1 | h1 <;> cases h1

theorem getUsbFd_closed {K P : Solo → Prop} {Q : Int → Solo → Prop}
    (hQ : ∀ fd, (fd < 0 → Solo.closed w d = true) → Q fd w) : Alone K P (getUsbFd d) Q w := by
  refine alone_load fun _ _ => hQ _ fun hfd => ?_
  rw [Solo.closed, Bool.or_eq_true, decide_eq_true_iff, decide_eq_true_iff]
  split at hfd
  case isTrue ht => exact .inl ht
  case isFalse => exact .inr hfd

/-- the ledger after a call that ended with `r`: a failure leaves nothing of the frame behind -/
def KeptAfter (pr : Promise) (b₀ : List Byte) (r : Int) (w : Solo) : Prop :=
  Kept pr b₀ w ∧ (r < 0 → (ledger b₀ w.trace).Clear pr)

theorem KeptAfter.own {r : Int} (h : KeptAfter pr b₀ r w) (own : Mutex → Option Unit) :
    KeptAfter pr b₀ r { w with own := own } :=
  ⟨h.1.same rfl rfl, h.2⟩

theorem flushBufferLocked_kept (h : FlushReady pr b₀ d w) :
    Alone (pr.Cond b₀) (Kept pr b₀) (flushBufferLocked d) (KeptAfter pr b₀) w := by
  refine alone_bind (alone_load fun _ _ => ?_)
  show Alone _ _ (if Solo.buffer w = [] then _ else _) _ w
  split
  case isTrue => exact alone_pure ⟨h.ready.kept, fun hr => absurd hr (by decide)⟩
  case isFalse hb =>
  refine alone_bind (getUsbFd_closed fun fd hfd => ?_)
  split
  case isTrue hneg => exact alone_pure ⟨h.ready.kept, fun _ => h.clear_of_lost (.inl (hfd hneg))⟩
  refine alone_seq _ (writeAllFd_alone handing_writeInv h.ready.begun) fun r w' hend => ?_
  split
  case isTrue hr =>
    refine alone_pure ⟨hend.inv.ready.kept, fun _ => hend.inv.clear.mpr (h.clear_of_lost (.inr ?_))⟩
    by_contra hall
    have hlen := hend.ok (Bool.of_not_eq_false hall)
    omega
  case isFalse hr =>
    have hkept := hend.inv.ready.kept
    have hempty : Kept pr b₀ (Solo.emptied w' d) := hkept.label rfl trivial (hkept.sound.emptied d)
    exact alone_bind (alone_eval rfl rfl fun _ _ => ⟨hempty, alone_pure ⟨hempty, fun h => absurd h hr⟩⟩)

/-- the label of a flush -/
theorem flushReady_of_cond (h : Kept pr b₀ w)
    (hK : pr.Cond b₀ { w with trace := ((), .io d .flush) :: w.trace }) :
    FlushReady pr b₀ d { w with trace := ((), .io d .flush) :: w.trace } := by
  have hkept : Kept pr b₀ { w with trace := ((), .io d .flush) :: w.trace } :=
    h.label rfl trivial (h.sound.io d .flush)
  refine ⟨⟨hkept, h.sound.buffer.symm, ?_⟩, ?_⟩
  · have hright : ∀ x ∈ (ledger b₀ w.trace).queue, pr.Right (ledger b₀ w.trace) d x.1 := by
      refine h.sound.right_flush ?_
      rintro rfl hb
      have hmix : mixes b₀ { w with trace := ((), .io d .flush) :: w.trace } = false := hK
      unfold mixes at hmix
      simpa [Solo.buffer, show w.mem.com.fgSendBuffer ≠ [] from hb] using hmix
    cases pr <;> exact hright
  · rintro rfl hwait
    have hstrand : strands b₀ { w with trace := ((), .io d .flush) :: w.trace } = false := hK
    unfold strands at hstrand
    have hwait' : (ledger b₀ w.trace).waiting = true := hwait
    dsimp only at hstrand
    rw [hwait', Bool.true_and, Bool.or_eq_false_iff] at hstrand
    exact ⟨hstrand.1, by simpa using hstrand.2⟩

/-- a flush within its mutex -/
theorem flushLocked_kept {β : Type} {q : Int → P β} {Q : β → Solo → Prop} (h : FlushReady pr b₀ d w)
    (hQ : ∀ r w', KeptAfter pr b₀ r w' → Alone (pr.Cond b₀) (Kept pr b₀) (q r) Q w') :
    Alone (pr.Cond b₀) (Kept pr b₀) (do
      lock .comSend
      let ret ← flushBufferLocked d
      unlock .comSend
      q ret) Q w := by
  refine alone_bind (alone_lock fun _ _ => ⟨(h.own _).ready.kept, ?_⟩)
  refine alone_seq _ (flushBufferLocked_kept (h.own _)) fun r w' hr => ?_
  exact alone_bind (alone_unlock fun _ => ⟨(hr.own _).1, hQ r _ (hr.own _)⟩)

theorem raspikeComFlush_kept (h : Kept pr b₀ w) (desc : Option Nat)
    (hdesc : desc = none → (ledger b₀ w.trace).Clear pr) :
    Alone (pr.Cond b₀) (Kept pr b₀) (raspikeComFlush desc) (KeptAfter pr b₀) w := by
  cases desc with
  | none => exact alone_pure ⟨h, fun _ => hdesc rfl⟩
  | some d =>
    refine alone_bind (alone_tick fun _ hK => ?_)
    have hready := flushReady_of_cond h hK
    refine ⟨hready.ready.kept, flushLocked_kept hready fun r w' hr => alone_pure ?_⟩
    split
    · exact hr
    · exact ⟨hr.1, fun h0 => absurd h0 (by decide)⟩

theorem raspikeUsbBufferFlush_kept (h : Kept pr b₀ w) :
    Alone (pr.Cond b₀) (Kept pr b₀) (raspikeUsbBufferFlush d) (fun _ => Kept pr b₀) w := by
  refine alone_bind (alone_tick fun _ hK => ?_)
  have hready := flushReady_of_cond h hK
  refine ⟨hready.ready.kept, flushLocked_kept (q := fun _ => pure ()) hready fun r w' hr => ?_⟩
  exact alone_pure hr.1

/-! ## a send -/

/-- a send of `buf` on `d` has begun -/
structure SendReady (pr : Promise) (b₀ : List Byte) (d : Nat) (buf : List Byte) (w : Solo) : Prop where
  ready : InHand pr b₀ d buf w
  hand : (ledger b₀ w.trace).hand = buf.map (⟨d, (ledger b₀ w.trace).frame⟩, ·)

theorem SendReady.own {buf : List Byte} (h : SendReady pr b₀ d buf w) (own : Mutex → Option Unit) :
    SendReady pr b₀ d buf { w with own := own } :=
  ⟨h.ready.own own, h.hand⟩

/-- what a send leaves: a send that fails has not changed the buffer -/
structure SentAfter (pr : Promise) (b₀ : List Byte) (w : Solo) (r : Int) (w' : Solo) : Prop where
  kept : Kept pr b₀ w'
  clear : (ledger b₀ w.trace).Clear pr → r < 0 → (ledger b₀ w'.trace).Clear pr
  desc : w'.mem.fgDesc = w.mem.fgDesc

theorem SentAfter.refl (h : Kept pr b₀ w) (r : Int) : SentAfter pr b₀ w r w :=
  ⟨h, fun hc _ => hc, rfl⟩

theorem Handing.after {rest : List Byte} {r : Int} (h : Handing pr b₀ d w rest w') :
    SentAfter pr b₀ w r w' :=
  ⟨h.ready.kept, fun hc _ => h.clear.mpr hc, h.desc⟩

theorem bufferedWrite_kept {w₀ : Solo} {buf : List Byte} (h : SendReady pr b₀ d buf w)
    (hw : ∀ own r, SentAfter pr b₀ w₀ r { w with own := own }) (hdesc : w.mem.fgDesc = w₀.mem.fgDesc) :
    Alone (pr.Cond b₀) (Kept pr b₀) (bufferedWrite d buf) (SentAfter pr b₀ w₀) w := by
  unfold bufferedWrite
  split
  · exact alone_pure (hw w.own _)
  refine alone_bind (alone_lock fun _ _ => ⟨(h.own _).ready.kept, alone_bind (alone_load fun _ _ => ?_)⟩)
  split
  · exact alone_bind (alone_unlock fun _ => ⟨(h.own _).ready.kept, alone_pure (hw _ _)⟩)
  refine alone_bind (alone_eval rfl rfl fun _ hK => ?_)
  have hkept₀ := h.ready.kept
  have hlast : pr = .sameDesc → (ledger b₀ w.trace).queue = [] ∨ (ledger b₀ w.trace).last = some d := by
    rintro rfl
    have hmix : mixes b₀ { w with
        own := Function.update w.own .comSend (some ()),
        mem := { w.mem with com := { w.mem.com with
          fgSendBuffer := w.mem.com.fgSendBuffer ++ buf } }
        trace := ((), .queued d buf) :: w.trace } = false := hK
    have hbuf : w.mem.com.fgSendBuffer = (ledger b₀ w.trace).queue.map Prod.snd := hkept₀.sound.buffer
    by_cases hq : (ledger b₀ w.trace).queue = []
    · exact .inl hq
    · right
      have hpos : 0 < (ledger b₀ w.trace).queue.length := List.length_pos_iff.mpr hq
      unfold mixes at hmix
      simpa [Solo.buffer, hbuf, hpos] using hmix
  have hkept : ∀ own, Kept pr b₀ { w with
      own := own,
      mem := { w.mem with com := { w.mem.com with fgSendBuffer := w.mem.com.fgSendBuffer ++ buf } }
      trace := ((), .queued d buf) :: w.trace } := fun own =>
    hkept₀.label rfl trivial (hkept₀.sound.queued h.hand hlast)
  refine ⟨hkept _, alone_bind (alone_unlock fun _ => ⟨hkept _, alone_pure ⟨hkept _, ?_, hdesc⟩⟩)⟩
  intro _ hr
  exact absurd hr (Int.not_lt.mpr (Int.natCast_nonneg _))

theorem rpUsbSend_kept {buf : List Byte} (h : SendReady pr b₀ d buf w) :
    Alone (pr.Cond b₀) (Kept pr b₀) (rpUsbSend d buf) (SentAfter pr b₀ w) w := by
  refine alone_bind (alone_lock fun _ _ => ⟨(h.own _).ready.kept, alone_bind (alone_load fun _ _ => ?_)⟩)
  refine alone_bind (alone_unlock fun _ => ⟨(h.own _).ready.kept, ?_⟩)
  have hself : ∀ own, Handing pr b₀ d w buf { w with own := own } := fun own =>
    ⟨h.ready.own own, ⟨_, rfl⟩, rfl⟩
  split
  · exact bufferedWrite_kept (h.own _) (fun own _ => (hself own).after) rfl
  refine alone_bind (getUsbFd_alone fun fd => ?_)
  split
  · exact alone_pure (hself _).after
  · exact alone_mono (fun _ _ hend => hend.inv.after) (writeAllFd_alone handing_writeInv (hself _))

theorem raspikeComSend_kept (h : Kept pr b₀ w) (desc : Option Nat) (buf : List Byte) :
    Alone (pr.Cond b₀) (Kept pr b₀) (raspikeComSend desc buf) (SentAfter pr b₀ w) w := by
  cases desc with
  | none => exact alone_pure (.refl h _)
  | some d =>
    have hkept : Kept pr b₀ { w with trace := ((), .io d (.send buf)) :: w.trace } :=
      h.label rfl trivial (h.sound.io d (.send buf))
    have hright : ∀ x ∈ ((ledger b₀ w.trace).next (.io d (.send buf))).hand, pr.Right (ledger b₀ w.trace) d x.1 :=
      h.sound.right_send d
    have hready : SendReady pr b₀ d buf { w with trace := ((), .io d (.send buf)) :: w.trace } := by
      refine ⟨⟨hkept, ?_, ?_⟩, rfl⟩
      · show (buf.map _).map Prod.snd = buf
        rw [List.map_map]
        exact List.map_id buf
      · cases pr <;> exact hright
    refine alone_bind (alone_tick fun _ _ => ⟨hready.ready.kept, ?_⟩)
    refine alone_mono (fun r w' hs => ⟨hs.kept, fun hc => hs.clear ?_, hs.desc⟩) (rpUsbSend_kept hready)
    cases pr <;> exact hc

end

end RaspikeArt
