import RaspikeArt.Checksum.Crc
import RaspikeArt.Checksum.Polynomial

/-!
# Checksums, part 4: `rp_v2_crc16` divides

The checksum of a byte string is the remainder of its polynomial, with the start value in front,
modulo `x ^ 16 + x ^ 12 + x ^ 5 + 1`.

* `bytesPoly d`         a byte string as a polynomial, the highest bit of its first byte first;
* `rpV2Crc16_divides`   the remainder, and what follows for sums and for concatenations.
-/

namespace RaspikeArt
open Checksum Polynomial

noncomputable def bytesPoly : List Byte → (ZMod 2)[X]
  | [] => 0
  | b :: d => poly b * X ^ (8 * d.length) + bytesPoly d

theorem message_append (as bs : List Bool) :
    message (as ++ bs) = message as * X ^ bs.length + message bs := by
  induction as with
  | nil =>
    show message bs = 0 * _ + _
    rw [zero_mul, zero_add]
  | cons a as ih =>
    rw [List.cons_append, message, ih, message, List.length_append, pow_add]
    ring

/-- the bits of a byte, in the order of transmission -/
theorem message_byte (b : Byte) : message ((List.range 8).map b.getMsbD) = poly b := by
  have hbits : (List.range 8).map b.getMsbD = [b.getLsbD 7, b.getLsbD 6, b.getLsbD 5, b.getLsbD 4,
      b.getLsbD 3, b.getLsbD 2, b.getLsbD 1, b.getLsbD 0] := by
    simp [List.range_succ, BitVec.getMsbD]
  rw [hbits, poly, Fin.sum_univ_eight]
  simp only [message, List.length_cons, List.length_nil]
  show _ = C (coef (b.getLsbD 0)) * X ^ 0 + C (coef (b.getLsbD 1)) * X ^ 1 +
    C (coef (b.getLsbD 2)) * X ^ 2 + C (coef (b.getLsbD 3)) * X ^ 3 + C (coef (b.getLsbD 4)) * X ^ 4 +
    C (coef (b.getLsbD 5)) * X ^ 5 + C (coef (b.getLsbD 6)) * X ^ 6 + C (coef (b.getLsbD 7)) * X ^ 7
  ring

theorem message_bits (d : List Byte) : message (bits d) = bytesPoly d := by
  induction d with
  | nil => rfl
  | cons b d ih => rw [bits_cons, message_append, message_byte, bits_length, ih, bytesPoly]

/-- the modulus of the loop -/
theorem modulus_crcPoly : modulus (n := 15) crcPoly = X ^ 16 + X ^ 12 + X ^ 5 + 1 := by
  have hpoly : poly crcPoly = X ^ 12 + X ^ 5 + 1 := by
    rw [poly]
    simp only [Fin.sum_univ_succ, Fin.sum_univ_zero, Fin.val_succ, Fin.val_zero, crcPoly, coef]
    simp
    ring
  rw [modulus, hpoly]
  ring

/-- the loop, started anywhere -/
theorem poly_foldl_crcByte (d : List Byte) (crc : U16) :
    poly (d.foldl crcByte crc) =
      (bytesPoly d * X ^ 16 + poly crc * X ^ (8 * d.length)) %ₘ (X ^ 16 + X ^ 12 + X ^ 5 + 1) := by
  rw [foldl_crcByte, poly_rem (n := 15), message_bits, bits_length, modulus_crcPoly]

theorem zero_flip (e : List Byte) : flip (List.replicate e.length 0) e = e := by
  induction e with
  | nil => rfl
  | cons x e ih =>
    show (0#8 ^^^ x) :: flip (List.replicate e.length 0) e = _
    rw [ih, BitVec.zero_xor]

/-- the checksum of the start value and of the string by itself -/
theorem rpV2Crc16_zero (e : List Byte) :
    rpV2Crc16 e = rpV2Crc16 (List.replicate e.length 0) ^^^ syndrome e := by
  have hlen : (List.replicate e.length (0 : Byte)).length = e.length := List.length_replicate
  have hflip := rpV2Crc16_flip hlen
  rwa [zero_flip] at hflip

theorem rpV2Crc16_flip_flip {a b c : List Byte} (hab : a.length = b.length)
    (hbc : b.length = c.length) :
    rpV2Crc16 (flip (flip a b) c) = rpV2Crc16 a ^^^ rpV2Crc16 b ^^^ rpV2Crc16 c := by
  have hlen : (flip a b).length = c.length := by rw [flip_length hab.symm, hab, hbc]
  rw [rpV2Crc16_flip hlen, rpV2Crc16_flip hab, rpV2Crc16_zero b, rpV2Crc16_zero c, hbc,
    BitVec.xor_assoc (rpV2Crc16 a), BitVec.xor_assoc (rpV2Crc16 a)]
  congr 1
  -- the start value cancels
  generalize rpV2Crc16 (List.replicate c.length 0) = z
  rw [BitVec.xor_comm z (syndrome b), BitVec.xor_comm z (syndrome c), xor_cancel (n := 15)]

/-- **The checksum is the CRC it stands for**: the remainder of the string, moved up by 16, and the
start value in front of it. -/
theorem rpV2Crc16_divides :
    (∀ d : List Byte, poly (rpV2Crc16 d) =
      (bytesPoly d * X ^ 16 + poly (0xffff : U16) * X ^ (8 * d.length)) %ₘ
        (X ^ 16 + X ^ 12 + X ^ 5 + 1)) ∧
    (∀ a b c : List Byte, a.length = b.length → b.length = c.length →
      rpV2Crc16 (flip (flip a b) c) = rpV2Crc16 a ^^^ rpV2Crc16 b ^^^ rpV2Crc16 c) ∧
    ∀ a b : List Byte, rpV2Crc16 (a ++ b) = b.foldl crcByte (rpV2Crc16 a) :=
  ⟨fun d => poly_foldl_crcByte d 0xffff, fun _ _ _ => rpV2Crc16_flip_flip,
    fun _ _ => List.foldl_append⟩

theorem rpV2Crc16_divides_three :
    rpV2Crc16 (flip (flip [0x12, 0x34] [0xff, 0x01]) [0x80, 0x7f]) =
      rpV2Crc16 [0x12, 0x34] ^^^ rpV2Crc16 [0xff, 0x01] ^^^ rpV2Crc16 [0x80, 0x7f] :=
  rpV2Crc16_divides.2.1 _ _ _ rfl rfl

end RaspikeArt
