import RaspikeArt.Transport.Consumed
import RaspikeArt.Transport.Writing

/-!
# The v2 format is canonical

* `Accepts d bs c`       in some run, whatever the device answers and the other threads do,
                         `receive_v2_frame` has consumed `bs` and calls `process_command` for `c`;
* `accepts_frame`        then `bs`, after a start byte, is the frame of `c`;
* `frame_of_prefix`      no frame is a proper prefix of another one;
* `v2_canonical`         the two with `send_v2_frame`.
-/

namespace RaspikeArt
open Threads

/-- the bytes `bs`, after a start byte, are accepted as `c` -/
def Accepts (d : Nat) (bs : List Byte) (c : Decoded) : Prop :=
  ∃ (T : Type) (_ : DecidableEq T) (t : T) (c₀ c' : Sys T) (ss : List OwnStep) (s : OwnStep),
    c₀.thr t = (receiveV2Frame >>= fun _ => pure ()) ∧ Follows t c₀ (s :: ss) c' ∧
      (∀ m x m', .act m x m' ∈ s :: ss → Only d m) ∧
      Own.decoded s = some c ∧ (∀ s' ∈ ss, Own.decoded s' = none) ∧ consumedBytes d ss = bs

/-! ## the decoder -/

/-- a first call of `process_command` is for what has been consumed -/
def canonicalStep (d : Nat) (ss : List OwnStep) (s : OwnStep) : Prop :=
  ∀ c, Own.decoded s = some c → (∀ s' ∈ ss, Own.decoded s' = none) →
    c.frame = rpV2Start :: consumedBytes d ss ∧ c.payload.length ≤ rpV2MaxPayload

/-- the receiver reads from `d` -/
def decoding (d : Nat) : Local CondVar Event Mem := recording (Only d) (canonicalStep d)

section
variable {d : Nat} {ss : List OwnStep}

theorem canonical_quiet (ss : List OwnStep) (s : OwnStep) (h : Own.decoded s = none) :
    canonicalStep d ss s := fun c hc => by cases h.symm.trans hc

def Entered (ss : List OwnStep) : Prop := ∃ s ∈ ss, Own.decoded s ≠ none

/-- nothing is asked after the first call of `process_command` -/
theorem processCommand_decoding {port cmd flags : Byte} {sequence session : U32} {buf : List Byte}
    (hframe : v2Frame port cmd flags sequence session buf = rpV2Start :: consumedBytes d ss)
    (hlen : buf.length ≤ rpV2MaxPayload) :
    along (decoding d) (processCommand port cmd flags sequence session buf) (fun _ _ => True) ss := by
  apply along_seq (B := fun _ => Entered)
  · apply along_act
    intro m _
    refine ⟨?_, _, List.mem_cons_self, nofun⟩
    rintro _ ⟨⟩ -
    exact ⟨hframe, hlen⟩
  intro _ ss₁ hseen
  apply along_mono fun _ _ _ => trivial
  apply along_any (P := Entered) ?_ hseen
  rintro ss₂ s ⟨s', hs', hne⟩
  exact ⟨fun c _ hnone => (hne (hnone s' hs')).elim, s', List.mem_cons_of_mem _ hs', hne⟩

theorem canonical_receiving (ss : List OwnStep) (s : OwnStep) (h : Own.Receiving d s) : canonicalStep d ss s :=
  canonical_quiet ss s (receiving_decoded h)

/-- accesses that are no call of `process_command` -/
def refusedKinds : Set Kind
  | .quiet | .input _ => True
  | _ => False

theorem refused_quiet : Kind.quiet ∈ refusedKinds := trivial
theorem refused_input (d : Nat) : Kind.input d ∈ refusedKinds := trivial

/-- what is refused does not enter `process_command` -/
theorem refused_decoding {α : Type} {p : P α} (hp : Does refusedKinds Set.univ p) :
    along (decoding d) p (fun _ _ => True) ss := by
  apply along_all (P := fun _ => True) ?_ ?_ hp Prog.Wakes.trivial
    Prog.Yields.trivial trivial fun _ _ _ _ => trivial
  · intro e f ss₁ m hacc _ _
    refine ⟨canonical_quiet _ _ ?_, trivial⟩
    obtain ⟨k, hk, hstep⟩ := hacc m
    show (e m).bind Event.decoded = none
    cases he : e m with
    | none => rfl
    | some x =>
      cases hstep.label x he
      cases x with
      | command => exact hk.elim
      | _ => rfl
  · exact fun _ _ _ _ => ⟨canonical_quiet _ _ rfl, trivial⟩

theorem counted_decoding (s : Stat) (r : Int) :
    Does refusedKinds Set.univ (do statsIncrement s; return r : P Int) :=
  (statsIncrement_all refused_quiet (Set.mem_univ _) s).bind fun _ => Does.pure r

theorem decoding_after (d : Nat) (ss : List OwnStep) : (decoding d).after [] ss = ss :=
  (recording_after [] ss).trans (List.append_nil ss)

theorem receiveV2Frame_decoding (hss : consumedBytes d ss = []) :
    along (decoding d) receiveV2Frame (fun _ _ => True) ss := by
  have hskip : ∀ (size : Nat) (r : Int), Does refusedKinds Set.univ (do
      let _ ← discardReceiveBytes size
      statsIncrement .framingErrors
      return r : P Int) := fun size r =>
    (discardReceiveBytes_all refused_quiet refused_input size).bind fun _ => counted_decoding _ r
  apply receive_reads canonical_receiving
  rintro (e | header) ss₁ h₁
  · trivial
  obtain ⟨h₁, hlen⟩ := h₁ header rfl
  show along _ (receiveV2Body header) _ _
  unfold receiveV2Body
  dsimp only
  split
  case isTrue => exact refused_decoding (hskip _ _)
  rename_i hversion
  split
  case isTrue => exact refused_decoding (hskip _ _)
  rename_i hsize
  apply receive_reads canonical_receiving
  rintro (e | rest) ss₂ h₂
  · trivial
  obtain ⟨h₂, hrest⟩ := h₂ rest rfl
  show along _ (receiveV2Checked header rest) _ _
  unfold receiveV2Checked
  dsimp only
  split
  case isTrue => exact refused_decoding (counted_decoding _ _)
  rename_i hcrc
  have hintact : v2Intact header rest := by
    simp only [v2Intact, decide_eq_true_eq]
    exact ⟨hlen, not_not.mp hversion, Nat.le_of_not_lt hsize, hrest, not_not.mp hcrc⟩
  have hbytes : consumedBytes d ss₂ = header ++ rest := by
    rw [(h₁.trans h₂).consumed, hss, List.nil_append]
  apply along_seq (B := fun _ ss' => Reads d ss₂ [] ss')
  · exact along_act fun m _ => ⟨canonical_quiet _ _ rfl, Reads.act rfl rfl⟩
  intro _ ss₃ h₃
  apply processCommand_decoding
  · rw [h₃.consumed, hbytes, List.append_nil]
    exact frame_ofV2 hintact
  · rw [List.length_take]
    have := Nat.le_of_not_lt hsize
    omega

end

/-- **Decoding**: what is accepted is the frame of what it is accepted as -/
theorem accepts_frame {d : Nat} {bs : List Byte} {c : Decoded} (h : Accepts d bs c) :
    c.frame = rpV2Start :: bs ∧ c.payload.length ≤ rpV2MaxPayload := by
  obtain ⟨T, _, t, c₀, c', ss, s, hthr, hf, honly, hs, hquiet, rfl⟩ := h
  have hrelies : (decoding d).Relies [] (s :: ss) := recording_relies honly
  obtain ⟨-, -, -, -, hA⟩ | ⟨a, c₁, ss₁, ss₂, heq, hc₁, -, hgives, hf₂⟩ :=
    Local.passes hf hthr (receiveV2Frame_decoding (d := d) rfl) hrelies
  · exact (decoding_after d ss ▸ hA : canonicalStep d ss s) c hs hquiet
  · obtain ⟨rfl, -⟩ := hf₂.ended hc₁
    obtain rfl : s :: ss = ss₁ := heq
    exact (decoding_after d ss ▸ hgives.2 : canonicalStep d ss s) c hs hquiet

/-! ## the encoder -/

/-- **Canonical**: what has been consumed is the frame of what it is accepted as, byte for byte; so
the bytes follow from the message, and none are a proper prefix of others. -/
theorem v2_canonical {d : Nat} {bs : List Byte} {c : Decoded} (h : Accepts d bs c) :
    (raspikeIsValidPort c.port = true → ∀ (d' : Nat) (w : Solo), Linked d' w →
      w.mem.fgDesc = some d' → w.own .comSend = none → w.mem.fgSessionId = c.session →
      Finishes (sendV2Frame c.port c.cmd (some c.payload) c.payload.length c.sequence c.flags) w
        (SendOut d' (rpV2Start :: bs) w)) ∧
    (∀ d' bs', Accepts d' bs' c → bs' = bs) ∧
    ∀ d' bs' c', Accepts d' bs' c' → bs <+: bs' → bs = bs' := by
  obtain ⟨hframe, hlen⟩ := accepts_frame h
  refine ⟨?_, ?_, ?_⟩
  · intro hport d' w hl hdesc hown hsession
    have hs : Sendable c.port (some c.payload) c.payload.length :=
      ⟨hport, Int.natCast_nonneg _, Int.ofNat_le.mpr hlen, fun _ => rfl⟩
    have hsend := sendV2Frame_moves c.cmd c.flags c.sequence hl hdesc hown hs
    have htake : Buf.take (some c.payload) c.payload.length = c.payload := List.take_length
    rw [htake, hsession] at hsend
    exact hframe ▸ hsend
  · intro d' bs' h'
    exact (List.cons.inj ((accepts_frame h').1.symm.trans hframe)).2
  · intro d' bs' c' h' hprefix
    obtain ⟨hframe', hlen'⟩ := accepts_frame h'
    have heq : c.frame = c'.frame := by
      apply frame_of_prefix hlen hlen'
      rw [hframe, hframe']
      exact List.cons_prefix_cons.mpr ⟨rfl, hprefix⟩
    rw [hframe, hframe'] at heq
    exact (List.cons.inj heq).2

/-! a note of the hub -/

def note : Decoded := ⟨rpPortNone, rpCmdIdLinkStats, 4, 5, freshSession, [1, 2]⟩

/-- the device sends the note to a thread that has read its start byte -/
def noteStart : Sys Unit where
  mem := freshMem [.data note.frame.tail] []
  own := fun _ => none
  trace := []
  thr := fun _ => receiveV2Frame >>= fun _ => pure ()

def Own.onZero : OwnStep → Bool
  | .act m _ _ => m.fgDesc == some 0
  | .wake _ => true

theorem noteStart_accepts : Accepts 0 note.frame.tail note := by
  obtain ⟨c', he⟩ : ∃ c', exec noteStart (steps 22 ()) = some c' :=
    Option.isSome_iff_exists.mp (by decide +kernel)
  have hf := exec_follows he
  have hfirst : (ownSteps () 22 noteStart).head?.map Own.decoded = some (some note) := by
    decide +kernel
  have hquiet : (ownSteps () 22 noteStart).tail.all fun s => (Own.decoded s).isNone := by
    decide +kernel
  have hzero : (ownSteps () 22 noteStart).all Own.onZero := by decide +kernel
  have hbytes : consumedBytes 0 (ownSteps () 22 noteStart).tail = note.frame.tail := by decide +kernel
  match hss : ownSteps () 22 noteStart with
  | [] =>
    rw [hss] at hfirst
    cases hfirst
  | s :: ss =>
    rw [hss] at hf hfirst hquiet hzero hbytes
    refine ⟨Unit, inferInstance, (), noteStart, c', ss, s, rfl, hf, ?_, Option.some.inj hfirst, ?_, hbytes⟩
    · intro m x m' hm d' hd
      have h0 : m.fgDesc = some 0 := eq_of_beq (List.all_eq_true.mp hzero _ hm)
      exact Option.some.inj (hd.symm.trans h0)
    · intro s' hs'
      exact Option.isNone_iff_eq_none.mp (List.all_eq_true.mp hquiet s' hs')

theorem v2_canonical_note :
    Finishes (sendV2Frame rpPortNone rpCmdIdLinkStats (some [1, 2]) 2 5 4) freshWorld
        (SendOut 0 note.frame freshWorld) ∧
      (∀ d bs, Accepts d bs note → bs = note.frame.tail) ∧
      ∀ d bs c, Accepts d bs c → note.frame.tail <+: bs → note.frame.tail = bs := by
  obtain ⟨hsend, hsame, hfree⟩ := v2_canonical noteStart_accepts
  have hlinked : Linked 0 freshWorld := ⟨rfl, by decide, fun x hx => absurd hx List.not_mem_nil⟩
  exact ⟨hsend rfl 0 freshWorld hlinked rfl rfl rfl, hsame, hfree⟩

end RaspikeArt
