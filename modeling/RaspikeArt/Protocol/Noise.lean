import RaspikeArt.Protocol.Hello
import RaspikeArt.Transport.Writing

/-!
# Noise before the negotiation

`perform_handshake_once` and `receive_legacy_hello` look for one byte, and take what follows it for
the rest of what they wait for.

* `Requestable d w`        the request of the handshake goes out;
* `handshakeAnswer_*`      the answer behind noise: found, or missed at the first `RP_CMD_INIT`;
* `Negotiates`             handshake and HELLO are accepted, and what they say is recorded;
* `noise_skipped`          that is so exactly if neither noise contains the byte looked for;
* `noise_misleads`         one such byte in front is enough.
-/

namespace RaspikeArt
open Threads

/-- the device takes what it is sent, and the send buffer has room -/
structure Requestable (d : Nat) (w : Solo) : Prop where
  willing : ∀ x ∈ Solo.tx w d, Willing x
  room : w.mem.com.fgSendMode = .buffered →
    w.mem.com.fgSendBuffer.length + [rpCmdInit, rpCmdInitMagic].length ≤ rpSendBufferSize

section
variable {d : Nat} {w w' : Solo} {out B noise more : List Byte}

/-! ## the request -/

theorem Moved.rx (h : Moved d w out B w') : Solo.rx w' d = Solo.rx w d := by
  rw [Solo.rx, h.com]
  simp [Solo.rx, Mem.setDesc]

theorem Moved.attached (h : Moved d w out B w') (ha : Attached d w) : Attached d w' := by
  refine ⟨⟨?_, ?_, ?_⟩, h.desc.trans ha.desc, fun l => (congrFun h.own l).trans (ha.free l)⟩
  · rw [h.com]
    simpa [Mem.setDesc] using ha.listening.usb
  · rw [h.com]
    simpa [Mem.setDesc] using ha.listening.fd
  · rw [h.rx]
    exact ha.listening.ready

theorem SendOut.sent {buf : List Byte} {r : Int} (h : SendOut d buf w r w')
    (hroom : w.mem.com.fgSendMode = .buffered →
      w.mem.com.fgSendBuffer.length + buf.length ≤ rpSendBufferSize) :
    r = buf.length ∧ ∃ out B, Moved d w out B w' := by
  cases hmode : w.mem.com.fgSendMode with
  | normal =>
    obtain ⟨hr, hm⟩ := h.normal hmode
    exact ⟨hr, _, _, hm⟩
  | buffered =>
    obtain ⟨hr, hm⟩ := h.room hmode (hroom hmode)
    exact ⟨hr, _, _, hm⟩

/-- `perform_handshake_once` once its request is out -/
def handshakeAnswer : P Int := do
  let found ← scanForByte rpCmdInit
  if found < 0 then return found
  let desc ← load fun m => m.fgDesc
  let magic ← match ← raspikeComReceiveTimeout desc 1 with
    | .error e => return e
    | .ok magic => pure magic
  if magic.getD 0 0 ≠ rpCmdInitMagic then return -EPROTO
  let desc ← load fun m => m.fgDesc
  let version ← match ← raspikeComReceiveTimeout desc 3 with
    | .error e => return e
    | .ok version => pure version
  modify fun m => { m with fgVersionMajor := version.getD 0 0 }
  modify fun m => { m with fgVersionMinor := version.getD 1 0 }
  modify fun m => { m with fgVersionPatch := version.getD 2 0 }
  return 0

theorem performHandshakeOnce_finishes {Q : Int → Solo → Prop} (ha : Attached d w)
    (hreq : Requestable d w) (hk : ∀ w', Attached d w' → Solo.rx w' d = Solo.rx w d →
      Finishes handshakeAnswer w' Q) : Finishes performHandshakeOnce w Q := by
  have hl : Linked d w := ⟨ha.listening.usb, ha.listening.fd, hreq.willing⟩
  apply finish_bind
  apply finish_load
  rw [ha.desc]
  apply finish_seq (raspikeComSend_moves hl (ha.free _))
  intro sent w₁ hout
  obtain ⟨rfl, out, B, hm⟩ := hout.sent hreq.room
  have ha₁ := hm.attached ha
  rw [if_neg (by decide)]
  apply finish_bind
  apply finish_load
  rw [ha₁.desc]
  apply finish_seq (raspikeComFlush_moves (hm.linked hl) (ha₁.free _))
  rintro r w₂ ⟨hr, hm₂⟩
  rw [if_neg (Int.not_lt.mpr hr)]
  exact hk w₂ (hm₂.attached ha₁) (hm₂.rx.trans hm.rx)

/-! ## the answer -/

/-- the version that is recorded -/
def Mem.version (m : Mem) : Byte × Byte × Byte := (m.fgVersionMajor, m.fgVersionMinor, m.fgVersionPatch)

theorem handshakeAnswer_finds {version : List Byte} (hlen : version.length = 3) (ha : Attached d w)
    (hnoise : rpCmdInit ∉ noise)
    (hrx : arrives (Solo.rx w d) = noise ++ ([rpCmdInit, rpCmdInitMagic] ++ (version ++ more))) :
    Finishes handshakeAnswer w fun r w' => r = 0 ∧ Attached d w' ∧ arrives (Solo.rx w' d) = more ∧
      w'.mem.version = (version.getD 0 0, version.getD 1 0, version.getD 2 0) := by
  have hscan : arrives (Solo.rx w d) = noise ++ rpCmdInit :: ([rpCmdInitMagic] ++ (version ++ more)) :=
    hrx
  apply finish_seq (scanForByte_finishes ha hnoise hscan)
  rintro found w₁ ⟨rfl, hh₁⟩
  have ha₁ := hh₁.attached ha
  have hrx₁ : arrives (Solo.rx w₁ d) = [rpCmdInitMagic] ++ (version ++ more) := by
    have hall := hh₁.bytes.symm.trans hscan
    rw [List.append_assoc] at hall
    exact List.append_cancel_left (List.append_cancel_left hall)
  rw [if_neg (by decide)]
  apply receive_finishes ha₁ hrx₁ rfl (by decide)
  intro w₂ hh₂
  have ha₂ := hh₂.attached ha₁
  have hrx₂ : arrives (Solo.rx w₂ d) = version ++ more :=
    List.append_cancel_left (hh₂.bytes.symm.trans hrx₁)
  apply finish_bind
  apply finish_pure
  rw [if_neg (by decide)]
  apply receive_finishes ha₂ hrx₂ hlen (by decide)
  intro w₃ hh₃
  have ha₃ := hh₃.attached ha₂
  apply finish_bind
  apply finish_pure
  apply finish_bind
  apply finish_modify
  apply finish_bind
  apply finish_modify
  apply finish_bind
  apply finish_modify
  apply finish_pure
  refine ⟨rfl, ⟨⟨ha₃.listening.usb, ha₃.listening.fd, ha₃.listening.ready⟩, ha₃.desc, ha₃.free⟩, ?_, rfl⟩
  exact List.append_cancel_left (hh₃.bytes.symm.trans hrx₂)

/-- what follows the first `RP_CMD_INIT` is not the magic byte -/
theorem handshakeAnswer_misled {b : Byte} (ha : Attached d w) (hnoise : rpCmdInit ∉ noise)
    (hb : b ≠ rpCmdInitMagic) (hrx : arrives (Solo.rx w d) = noise ++ rpCmdInit :: b :: more) :
    Finishes handshakeAnswer w fun r _ => r = -EPROTO := by
  apply finish_seq (scanForByte_finishes ha hnoise hrx)
  rintro found w₁ ⟨rfl, hh₁⟩
  have hrx₁ : arrives (Solo.rx w₁ d) = [b] ++ more := by
    have hall := hh₁.bytes.symm.trans hrx
    rw [List.append_assoc] at hall
    exact List.append_cancel_left (List.append_cancel_left hall)
  rw [if_neg (by decide)]
  apply receive_finishes (hh₁.attached ha) hrx₁ rfl (Nat.succ_pos _)
  intro w₂ _
  apply finish_bind
  apply finish_pure
  rw [if_pos (show [b].getD 0 0 ≠ rpCmdInitMagic from hb)]
  exact finish_pure rfl

/-! ## the HELLO -/

/-- what follows the first `RP_CMD_START` is not the header of a HELLO -/
theorem receiveLegacyHello_misled {header : List Byte} (hlen : header.length = 3) (ha : Attached d w)
    (hnoise : rpCmdStart ∉ noise)
    (hheader : header ≠ [rpCmdIdLinkHello, BitVec.ofNat 8 rpV2HelloPayloadSize, rpPortNone])
    (hrx : arrives (Solo.rx w d) = noise ++ rpCmdStart :: (header ++ more)) :
    Finishes receiveLegacyHello w fun r _ => r = -EPROTO := by
  apply finish_seq (scanForByte_finishes ha hnoise hrx)
  rintro found w₁ ⟨rfl, hh₁⟩
  have hrx₁ : arrives (Solo.rx w₁ d) = header ++ more := by
    have hall := hh₁.bytes.symm.trans hrx
    rw [List.append_assoc] at hall
    exact List.append_cancel_left (List.append_cancel_left hall)
  rw [if_neg (by decide)]
  apply receive_finishes (hh₁.attached ha) hrx₁ hlen (by decide)
  intro w₂ _
  apply finish_bind
  apply finish_pure
  have hbad : header.getD 0 0 ≠ rpCmdIdLinkHello ∨ header.getD 2 0 ≠ rpPortNone ∨
      (header.getD 1 0).toNat ≠ rpV2HelloPayloadSize := by
    by_contra hgood
    obtain ⟨hcmd, hport, hsize⟩ := by simpa only [not_or, not_not] using hgood
    apply hheader
    match header, hlen with
    | [cmd, size, port], _ =>
      obtain rfl : cmd = rpCmdIdLinkHello := hcmd
      obtain rfl : port = rpPortNone := hport
      have hbyte : size = BitVec.ofNat 8 rpV2HelloPayloadSize := BitVec.eq_of_toNat_eq hsize
      rw [hbyte]
  rw [if_pos hbad]
  exact finish_pure rfl

/-! ## both -/

/-- handshake and HELLO are accepted, the version and the session recorded -/
def Negotiates (w : Solo) (version : Byte × Byte × Byte) (session : U32) : Prop :=
  Finishes performHandshakeOnce w fun r w₁ => r = 0 ∧ w₁.mem.version = version ∧
    Finishes receiveLegacyHello w₁ fun r w₂ => r = 0 ∧ w₂.mem.fgSessionId = session

/-- the pattern begins at `i` -/
def OccursAt (pattern bs : List Byte) (i : Nat) : Prop := pattern <+: bs.drop i

instance (pattern bs : List Byte) (i : Nat) : Decidable (OccursAt pattern bs i) :=
  inferInstanceAs (Decidable (pattern <+: bs.drop i))

theorem OccursAt.lt {a : Byte} {rest bs : List Byte} {i : Nat} (h : OccursAt (a :: rest) bs i) :
    i < bs.length := by
  have hlen := h.length_le
  rw [List.length_cons, List.length_drop] at hlen
  omega

/-- the byte looked for stands in front, and what follows it is not the rest of the pattern -/
theorem misleads {target : Byte} {rest front left : List Byte} (hmem : target ∈ front)
    (hlen : rest.length ≤ left.length)
    (honly : ∀ i, OccursAt (target :: rest) (front ++ left) i → i = front.length) :
    ∃ before header after, target ∉ before ∧ header.length = rest.length ∧ header ≠ rest ∧
      front ++ left = before ++ target :: (header ++ after) := by
  obtain ⟨before, back, rfl, hbefore⟩ := List.eq_append_cons_of_mem hmem
  let tail := back ++ left
  have hall : before ++ target :: back ++ left = before ++ target :: tail := by
    rw [List.append_assoc]
    rfl
  have hsize : rest.length ≤ tail.length := by
    rw [List.length_append]
    omega
  refine ⟨before, tail.take rest.length, tail.drop rest.length, hbefore,
    List.length_take_of_le hsize, fun heq => ?_, ?_⟩
  · have hat : before.length = (before ++ target :: back).length := by
      apply honly
      rw [OccursAt, hall, List.drop_left, ← List.take_append_drop rest.length tail, heq]
      exact List.prefix_append (target :: rest) _
    rw [List.length_append, List.length_cons] at hat
    omega
  · rw [hall, List.take_append_drop]

/-- **Noise before the negotiation** is skipped exactly if neither noise contains the byte that is
looked for. -/
theorem noise_skipped {noise₁ noise₂ version payload : List Byte} (ha : Attached d w)
    (hreq : Requestable d w) (hversion : version.length = 3)
    (hlen : payload.length = rpV2HelloPayloadSize) (hok : HelloOk rpPortNone payload)
    (hrx : arrives (Solo.rx w d) = noise₁ ++ ([rpCmdInit, rpCmdInitMagic] ++ (version ++
      (noise₂ ++ (legacyFrame rpPortNone rpCmdIdLinkHello payload ++ more)))))
    (hpair : ∀ i, OccursAt [rpCmdInit, rpCmdInitMagic] (noise₁ ++ [rpCmdInit, rpCmdInitMagic]) i →
      i = noise₁.length)
    (hheader : ∀ i, OccursAt
      [rpCmdStart, rpCmdIdLinkHello, BitVec.ofNat 8 rpV2HelloPayloadSize, rpPortNone]
      (noise₂ ++ legacyFrame rpPortNone rpCmdIdLinkHello payload) i → i = noise₂.length) :
    Negotiates w (version.getD 0 0, version.getD 1 0, version.getD 2 0)
        (rpV2GetU32 (payload.drop 4)) ↔
      rpCmdInit ∉ noise₁ ∧ rpCmdStart ∉ noise₂ := by
  have hfinds : rpCmdInit ∉ noise₁ → Finishes performHandshakeOnce w fun r w₁ => r = 0 ∧
      Attached d w₁ ∧ arrives (Solo.rx w₁ d) =
        noise₂ ++ (legacyFrame rpPortNone rpCmdIdLinkHello payload ++ more) ∧
      w₁.mem.version = (version.getD 0 0, version.getD 1 0, version.getD 2 0) := by
    intro hno
    apply performHandshakeOnce_finishes ha hreq
    intro w' ha' hsame
    exact handshakeAnswer_finds hversion ha' hno ((congrArg arrives hsame).trans hrx)
  constructor
  · intro hneg
    have hno₁ : rpCmdInit ∉ noise₁ := by
      intro hmem
      have hshort : [rpCmdInitMagic].length ≤ [rpCmdInit, rpCmdInitMagic].length := Nat.le_succ 1
      obtain ⟨before, header, after, hbefore, hsize, hne, hall⟩ := misleads hmem hshort hpair
      match header, hsize with
      | [b], _ =>
        have hb : b ≠ rpCmdInitMagic := fun h => hne (congrArg (fun x => [x]) h)
        have hmisled : Finishes performHandshakeOnce w fun r _ => r = -EPROTO := by
          apply performHandshakeOnce_finishes ha hreq
          intro w' ha' hsame
          apply handshakeAnswer_misled ha' hbefore hb
          rw [hsame, hrx, ← List.append_assoc, hall, List.append_assoc]
          rfl
        obtain ⟨r, w', he, hr, -⟩ := hneg
        exact absurd (hr.symm.trans (hmisled.ends he)) (by decide)
    refine ⟨hno₁, fun hmem => ?_⟩
    have hshort : [rpCmdIdLinkHello, BitVec.ofNat 8 rpV2HelloPayloadSize, rpPortNone].length ≤
        (legacyFrame rpPortNone rpCmdIdLinkHello payload).length := by
      show 3 ≤ payload.length + 1 + 1 + 1 + 1
      omega
    obtain ⟨before, header, after, hbefore, hsize, hne, hall⟩ := misleads hmem hshort hheader
    obtain ⟨r, w₁, he, hr, -, hhello⟩ := hneg
    obtain ⟨-, ha₁, hrx₁, -⟩ := (hfinds hno₁).ends he
    have hmisled : Finishes receiveLegacyHello w₁ fun r _ => r = -EPROTO := by
      apply receiveLegacyHello_misled hsize ha₁ hbefore hne
      rw [hrx₁, ← List.append_assoc, hall, List.append_assoc, List.cons_append, List.append_assoc]
    obtain ⟨r', w₂, he₂, hr₂, -⟩ := hhello
    exact absurd (hr₂.symm.trans (hmisled.ends he₂)) (by decide)
  · rintro ⟨hno₁, hno₂⟩
    apply finish_mono (hfinds hno₁)
    rintro r w₁ ⟨hr, ha₁, hrx₁, hrecorded⟩
    refine ⟨hr, hrecorded, ?_⟩
    apply finish_mono (receiveLegacyHello_finishes ha₁ hlen hno₂ hrx₁)
    exact fun _ _ hend => ⟨hend.accepted.mpr hok, hend.session hok⟩

end

/-! ## a device that sends noise -/

/-- version 2, framing, room for 255 bytes, session 9 -/
def plainHello : List Byte := [2, 1, 255, 0, 9, 0, 0, 0, 0, 0, 0, 0]

theorem plainHello_ok : HelloOk rpPortNone plainHello := ⟨rfl, rfl, by decide, by decide, by decide⟩

/-- the answer of the device with noise in front of either half -/
def noisyBytes (noise₁ noise₂ : List Byte) : List Byte :=
  noise₁ ++ ([rpCmdInit, rpCmdInitMagic] ++ ([0, 1, 0] ++
    (noise₂ ++ (legacyFrame rpPortNone rpCmdIdLinkHello plainHello ++ []))))

def noisyWorld (noise₁ noise₂ : List Byte) : Solo :=
  ⟨freshMem [.data (noisyBytes noise₁ noise₂)] [], fun _ => none, []⟩

theorem noisyWorld_attached (noise₁ noise₂ : List Byte) : Attached 0 (noisyWorld noise₁ noise₂) := by
  refine ⟨⟨rfl, Int.le.intro 3 rfl, fun x hx => ?_⟩, rfl, fun _ => rfl⟩
  rw [List.mem_singleton.mp hx]
  cases noise₁ <;> exact List.cons_ne_nil _ _

theorem noisyWorld_requestable (noise₁ noise₂ : List Byte) :
    Requestable 0 (noisyWorld noise₁ noise₂) :=
  ⟨nofun, nofun⟩

theorem noise_skipped_both :
    Negotiates (noisyWorld [7] [rpCmdInit]) (0, 1, 0) 9 ↔ rpCmdInit ∉ [7] ∧ rpCmdStart ∉ [rpCmdInit] := by
  have hversion : [0, 1, (0 : Byte)].length = 3 := rfl
  have hlen : plainHello.length = rpV2HelloPayloadSize := rfl
  have hrx : arrives (Solo.rx (noisyWorld [7] [rpCmdInit]) 0) = noisyBytes [7] [rpCmdInit] :=
    List.append_nil _
  apply noise_skipped (noisyWorld_attached _ _) (noisyWorld_requestable _ _) hversion hlen
    plainHello_ok hrx
  · intro i h
    have hall : ∀ i < 3, OccursAt [rpCmdInit, rpCmdInitMagic] [7, rpCmdInit, rpCmdInitMagic] i → i = 1 := by
      decide
    exact hall i h.lt h
  · intro i h
    have hall : ∀ i < 17, OccursAt
        [rpCmdStart, rpCmdIdLinkHello, BitVec.ofNat 8 rpV2HelloPayloadSize, rpPortNone]
        (rpCmdInit :: legacyFrame rpPortNone rpCmdIdLinkHello plainHello) i → i = 1 := by
      decide
    exact hall i h.lt h

/-- one `RP_CMD_INIT` in front of the answer, and the handshake fails -/
theorem noise_misleads :
    (∀ i, OccursAt [rpCmdInit, rpCmdInitMagic] ([rpCmdInit] ++ [rpCmdInit, rpCmdInitMagic]) i → i = 1) ∧
      (∀ i, OccursAt [rpCmdStart, rpCmdIdLinkHello, BitVec.ofNat 8 rpV2HelloPayloadSize, rpPortNone]
        ([] ++ legacyFrame rpPortNone rpCmdIdLinkHello plainHello) i → i = 0) ∧
      ¬ Negotiates (noisyWorld [rpCmdInit] []) (0, 1, 0) 9 := by
  refine ⟨fun i h => ?_, fun i h => ?_, fun hneg => ?_⟩
  · have hall : ∀ i < 3, OccursAt [rpCmdInit, rpCmdInitMagic] [rpCmdInit, rpCmdInit, rpCmdInitMagic] i →
        i = 1 := by
      decide
    exact hall i h.lt h
  · have hall : ∀ i < 16, OccursAt
        [rpCmdStart, rpCmdIdLinkHello, BitVec.ofNat 8 rpV2HelloPayloadSize, rpPortNone]
        (legacyFrame rpPortNone rpCmdIdLinkHello plainHello) i → i = 0 := by
      decide
    exact hall i h.lt h
  · have hmisled : Finishes performHandshakeOnce (noisyWorld [rpCmdInit] []) fun r _ => r = -EPROTO := by
      apply performHandshakeOnce_finishes (noisyWorld_attached _ _) (noisyWorld_requestable _ _)
      intro w' ha' hsame
      have hrx : arrives (Solo.rx w' 0) = [] ++ rpCmdInit :: rpCmdInit :: (noisyBytes [] []).tail :=
        (congrArg arrives hsame).trans (List.append_nil _)
      exact handshakeAnswer_misled ha' List.not_mem_nil (by decide) hrx
    obtain ⟨r, w', he, hr, -⟩ := hneg
    exact absurd (hr.symm.trans (hmisled.ends he)) (by decide)

end RaspikeArt
