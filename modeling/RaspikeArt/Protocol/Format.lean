import RaspikeArt.Model.Wire
import Mathlib.Data.List.Basic

/-!
# The two frame formats, from the reading side

* `decodeV2`      a complete v2 frame with a matching checksum, and what it carries;
* `decodeLegacy`  a complete legacy frame for a valid port.

They say what a well-formed frame is, for whole lists of bytes; the receiver of the library reads
its frames piece by piece.
-/

namespace RaspikeArt

/-! ## fields -/

/-- the mask `0xff` -/
theorem getLsbD_255 (w k : Nat) : (BitVec.ofNat w 255).getLsbD k = (decide (k < w) && decide (k < 8)) := by
  rw [BitVec.getLsbD_ofNat]
  congr 1
  exact Nat.testBit_two_pow_sub_one 8 k

theorem rpV2GetU16_put (v : U16) : rpV2GetU16 (rpV2PutU16 v) = v := by
  unfold rpV2GetU16 rpV2PutU16
  apply BitVec.eq_of_getLsbD_eq
  intro i hi
  simp only [List.getD_cons_zero, List.getD_cons_succ, BitVec.getLsbD_or, BitVec.getLsbD_and,
    BitVec.getLsbD_shiftLeft, BitVec.zeroExtend, BitVec.truncate, BitVec.getLsbD_setWidth,
    BitVec.getLsbD_ushiftRight, show (0xff : U16) = BitVec.ofNat 16 255 from rfl, getLsbD_255]
  by_cases h8 : i < 8
  · simp [h8, hi]
  · have hsub : 8 + (i - 8) = i := by omega
    have hlt : i - 8 < 8 := by omega
    have h16 : i - 8 < 16 := by omega
    simp [h8, hi, hsub, hlt, h16]

theorem rpV2GetU32_put (v : U32) : rpV2GetU32 (rpV2PutU32 v) = v := by
  unfold rpV2GetU32 rpV2PutU32
  apply BitVec.eq_of_getLsbD_eq
  intro i hi
  simp only [List.getD_cons_zero, List.getD_cons_succ, BitVec.getLsbD_or, BitVec.getLsbD_and,
    BitVec.getLsbD_shiftLeft, BitVec.zeroExtend, BitVec.truncate, BitVec.getLsbD_setWidth,
    BitVec.getLsbD_ushiftRight, show (0xff : U32) = BitVec.ofNat 32 255 from rfl, getLsbD_255]
  have h8 : 8 ≤ i → 8 + (i - 8) = i := by omega
  have h16 : 16 ≤ i → 16 + (i - 16) = i := by omega
  have h24 : 24 ≤ i → 24 + (i - 24) = i := by omega
  rcases Nat.lt_or_ge i 8 with h | h
  · simp [h, hi, show i < 16 by omega, show i < 24 by omega]
  rcases Nat.lt_or_ge i 16 with h' | h'
  · simp [h', hi, h8 h, show ¬i < 8 by omega, show i < 24 by omega, show i - 8 < 8 by omega,
      show i - 8 < 32 by omega]
  rcases Nat.lt_or_ge i 24 with h'' | h''
  · simp [h'', hi, h16 h', show ¬i < 8 by omega, show ¬i < 16 by omega, show ¬i - 8 < 8 by omega,
      show i - 16 < 8 by omega, show i - 8 < 32 by omega, show i - 16 < 32 by omega]
  · simp [hi, h24 h'', show ¬i < 8 by omega, show ¬i < 16 by omega, show ¬i < 24 by omega,
      show ¬i - 8 < 8 by omega, show ¬i - 16 < 8 by omega, show i - 24 < 8 by omega,
      show i - 8 < 32 by omega, show i - 16 < 32 by omega, show i - 24 < 32 by omega]

theorem rpV2PutU16_get (a b : Byte) (r : List Byte) : rpV2PutU16 (rpV2GetU16 (a :: b :: r)) = [a, b] := by
  unfold rpV2GetU16 rpV2PutU16
  simp only [List.getD_cons_zero, List.getD_cons_succ, List.cons.injEq, and_true]
  constructor
  all_goals
    apply BitVec.eq_of_getLsbD_eq
    intro i hi
    simp only [BitVec.getLsbD_or, BitVec.getLsbD_and, BitVec.getLsbD_shiftLeft, BitVec.zeroExtend,
      BitVec.truncate, BitVec.getLsbD_setWidth, BitVec.getLsbD_ushiftRight,
      show (0xff : U16) = BitVec.ofNat 16 255 from rfl, getLsbD_255]
  · simp [hi, show i < 16 by omega]
  · simp [hi, show 8 + i < 16 by omega, show i < 16 by omega]

theorem rpV2PutU32_get (a b c d : Byte) (r : List Byte) :
    rpV2PutU32 (rpV2GetU32 (a :: b :: c :: d :: r)) = [a, b, c, d] := by
  unfold rpV2GetU32 rpV2PutU32
  simp only [List.getD_cons_zero, List.getD_cons_succ, List.cons.injEq, and_true]
  refine ⟨?_, ?_, ?_, ?_⟩
  all_goals
    apply BitVec.eq_of_getLsbD_eq
    intro i hi
    have h32 : i < 32 := by omega
    simp only [BitVec.getLsbD_or, BitVec.getLsbD_and, BitVec.getLsbD_shiftLeft, BitVec.zeroExtend,
      BitVec.truncate, BitVec.getLsbD_setWidth, BitVec.getLsbD_ushiftRight,
      show (0xff : U32) = BitVec.ofNat 32 255 from rfl, getLsbD_255]
  · simp [hi, h32, show i < 16 by omega, show i < 24 by omega]
  · simp [hi, h32, show 8 + i < 16 by omega, show 8 + i < 32 by omega, show 8 + i < 24 by omega]
  · simp [hi, h32, show 16 + i < 32 by omega, show 16 + i < 24 by omega, show ¬16 + i < 8 by omega,
      show 16 + i - 8 = 8 + i by omega, BitVec.getLsbD_of_ge a (16 + i) (by omega)]
  · simp [hi, h32, show 24 + i < 32 by omega, show ¬24 + i < 16 by omega, show ¬24 + i < 8 by omega,
      show 24 + i - 8 = 16 + i by omega, show 24 + i - 16 = 8 + i by omega,
      BitVec.getLsbD_of_ge a (24 + i) (by omega), BitVec.getLsbD_of_ge b (16 + i) (by omega)]

/-! ## frames -/

/-- what `process_command` is called with -/
structure Decoded where
  port : Byte
  cmd : Byte
  flags : Byte
  sequence : U32
  session : U32
  payload : List Byte
  deriving DecidableEq

/-- the fields of a v2 header (without its start byte) and a payload -/
def Decoded.ofV2 (header payload : List Byte) : Decoded :=
  ⟨header.getD 3 0, header.getD 2 0, header.getD 1 0, rpV2GetU32 (header.drop 5),
    rpV2GetU32 (header.drop 9), payload⟩

/-- header, payload and checksum fit together -/
def v2Intact (header rest : List Byte) : Bool :=
  let size := (header.getD 4 0).toNat
  header.length = rpV2HeaderSize - 1 ∧ header.getD 0 0 = rpV2Version ∧ size ≤ rpV2MaxPayload ∧
    rest.length = size + rpV2CrcSize ∧
    rpV2GetU16 (rest.drop size) = rpV2Crc16 (header ++ rest.take size)

def decodeV2 : List Byte → Option Decoded
  | [] => none
  | start :: body =>
    let header := body.take (rpV2HeaderSize - 1)
    let rest := body.drop (rpV2HeaderSize - 1)
    if start = rpV2Start ∧ v2Intact header rest then
      some (.ofV2 header (rest.take (header.getD 4 0).toNat))
    else none

def decodeLegacy : List Byte → Option (Byte × Byte × List Byte)
  | start :: cmd :: size :: port :: payload =>
    if start = rpCmdStart ∧ payload.length = size.toNat ∧ raspikeIsValidPort port then
      some (port, cmd, payload)
    else none
  | _ => none

theorem decodeV2_append {header rest : List Byte} (h : v2Intact header rest) :
    decodeV2 (rpV2Start :: header ++ rest)
      = some (.ofV2 header (rest.take (header.getD 4 0).toNat)) := by
  have hlen : header.length = rpV2HeaderSize - 1 := by
    simp only [v2Intact, decide_eq_true_eq] at h
    exact h.1
  have htake : (header ++ rest).take (rpV2HeaderSize - 1) = header := by
    rw [← hlen, List.take_left]
  have hdrop : (header ++ rest).drop (rpV2HeaderSize - 1) = rest := by
    rw [← hlen, List.drop_left]
  rw [List.cons_append, decodeV2]
  simp only [htake, hdrop]
  rw [if_pos ⟨trivial, h⟩]

/-- the frame that a decoded message stands for -/
def Decoded.frame (c : Decoded) : List Byte :=
  v2Frame c.port c.cmd c.flags c.sequence c.session c.payload

theorem v2Body_length (port cmd flags : Byte) (sequence session : U32) (payload : List Byte) :
    (v2Body port cmd flags sequence session payload).length = 13 + payload.length := by
  simp only [v2Body, rpV2PutU32, List.length_append, List.length_cons, List.length_nil]

theorem Decoded.frame_length (c : Decoded) : c.frame.length = 16 + c.payload.length := by
  simp only [Decoded.frame, v2Frame, rpV2PutU16, List.length_append, List.length_cons, List.length_nil,
    v2Body_length]
  omega

/-- the size byte -/
theorem Decoded.frame_size (c : Decoded) : c.frame[5]? = some (BitVec.ofNat 8 c.payload.length) := rfl

theorem frame_of_prefix {c c' : Decoded} (hc : c.payload.length ≤ rpV2MaxPayload)
    (hc' : c'.payload.length ≤ rpV2MaxPayload) (h : c.frame <+: c'.frame) : c.frame = c'.frame := by
  have hsize : c'.frame[5]? = c.frame[5]? := by
    obtain ⟨t, ht⟩ := h
    rw [← ht, List.getElem?_append_left]
    rw [c.frame_length]
    omega
  rw [c.frame_size, c'.frame_size, Option.some_inj] at hsize
  have hmod := congrArg BitVec.toNat hsize
  rw [BitVec.toNat_ofNat, BitVec.toNat_ofNat] at hmod
  have hmax : rpV2MaxPayload < 2 ^ 8 := by decide
  apply h.eq_of_length
  rw [c.frame_length, c'.frame_length]
  omega

/-- **Canonical**: an intact header, payload and checksum are the frame of what they carry -/
theorem frame_ofV2 {header rest : List Byte} (h : v2Intact header rest) :
    (Decoded.ofV2 header (rest.take (header.getD 4 0).toNat)).frame = rpV2Start :: (header ++ rest) := by
  simp only [v2Intact, decide_eq_true_eq] at h
  obtain ⟨hlen, hversion, -, hrest, hcrc⟩ := h
  have hpayload : (rest.take (header.getD 4 0).toNat).length = (header.getD 4 0).toNat := by
    rw [List.length_take]
    omega
  have hbody : v2Body (header.getD 3 0) (header.getD 2 0) (header.getD 1 0) (rpV2GetU32 (header.drop 5))
      (rpV2GetU32 (header.drop 9)) (rest.take (header.getD 4 0).toNat) =
        header ++ rest.take (header.getD 4 0).toNat := by
    rw [v2Body, hpayload, BitVec.ofNat_toNat, BitVec.setWidth_eq, ← hversion]
    congr 1
    match header, hlen with
    | [_, _, _, _, _, q₀, q₁, q₂, q₃, s₀, s₁, s₂, s₃], _ =>
      show [_, _, _, _, _] ++ rpV2PutU32 (rpV2GetU32 (q₀ :: q₁ :: q₂ :: q₃ :: [s₀, s₁, s₂, s₃])) ++
        rpV2PutU32 (rpV2GetU32 (s₀ :: s₁ :: s₂ :: s₃ :: [])) = _
      rw [rpV2PutU32_get, rpV2PutU32_get]
      rfl
  have hcheck : rpV2PutU16 (rpV2GetU16 (rest.drop (header.getD 4 0).toNat)) =
      rest.drop (header.getD 4 0).toNat := by
    have htwo : (rest.drop (header.getD 4 0).toNat).length = 2 := by
      rw [List.length_drop, hrest]
      exact Nat.add_sub_cancel_left ..
    match rest.drop (header.getD 4 0).toNat, htwo with
    | [x, y], _ => exact rpV2PutU16_get x y []
  show rpV2Start :: v2Body .. ++ rpV2PutU16 (rpV2Crc16 (v2Body ..)) = _
  simp only [Decoded.ofV2]
  rw [hbody, ← hcrc, hcheck, List.cons_append, List.append_assoc, List.take_append_drop]

theorem decodeLegacy_append {header payload : List Byte} (h3 : header.length = 3)
    (hlen : payload.length = (header.getD 1 0).toNat)
    (hport : raspikeIsValidPort (header.getD 2 0)) :
    decodeLegacy (rpCmdStart :: header ++ payload)
      = some (header.getD 2 0, header.getD 0 0, payload) := by
  match header, h3 with
  | [cmd, size, port], _ =>
    show decodeLegacy (rpCmdStart :: cmd :: size :: port :: payload) = some (port, cmd, payload)
    rw [decodeLegacy, if_pos ⟨rfl, hlen, hport⟩]

end RaspikeArt
