import RaspikeArt.Checksum.Remainder
import RaspikeArt.Protocol.Format

/-!
# Checksums, part 2: `rp_v2_crc16`

The bitwise loop of `rp_v2_crc16` is the register of `Checksum.Remainder` for the polynomial
`x ^ 16 + x ^ 12 + x ^ 5 + 1`, fed with the bytes highest bit first and started at `0xffff`.

* `rpV2Crc16_flip`     an error changes the checksum by its own remainder, `syndrome`;
* `checksum_blind`     what the comparison of the receiver misses: the error of the two checksum
                       bytes, as they are read, is the syndrome of the error before them;
* `few_flips_seen`     it misses no error of one, two or three bits and none of odd weight;
* `burst_seen`         and no burst of up to 16 bits before the checksum.

The checksum is stored low byte first: a burst that crosses into it is not a burst of the
polynomial.
-/

namespace RaspikeArt
open Checksum

def crcPoly : U16 := 0x1021

/-- the bits in the order of transmission -/
def bits (data : List Byte) : List Bool := data.flatMap fun b => (List.range 8).map b.getMsbD

def weight (e : List Byte) : Nat := (bits e).count true

/-- the bytes `data` with the errors `e` -/
def flip (data e : List Byte) : List Byte := List.zipWith (· ^^^ ·) data e

/-- the remainder of an error -/
def syndrome (e : List Byte) : U16 := rem crcPoly (bits e) 0#_

@[simp] theorem bits_nil : bits [] = [] := rfl
theorem bits_cons (b : Byte) (data : List Byte) :
    bits (b :: data) = (List.range 8).map b.getMsbD ++ bits data := rfl
theorem bits_append (as bs : List Byte) : bits (as ++ bs) = bits as ++ bits bs :=
  List.flatMap_append

@[simp] theorem bits_length (data : List Byte) : (bits data).length = 8 * data.length := by
  induction data with
  | nil => rfl
  | cons b data ih =>
    rw [bits_cons, List.length_append, ih, List.length_map, List.length_range, List.length_cons]
    omega

@[simp] theorem weight_nil : weight [] = 0 := rfl
theorem weight_cons (b : Byte) (e : List Byte) : weight (b :: e) = weight [b] + weight e := by
  simp [weight, bits_cons]
theorem weight_append (as bs : List Byte) : weight (as ++ bs) = weight as + weight bs := by
  simp [weight, bits_append]

@[simp] theorem flip_length {data e : List Byte} (h : e.length = data.length) :
    (flip data e).length = data.length := by
  simp [flip, h]

theorem flip_append {as bs es fs : List Byte} (h : es.length = as.length) :
    flip (as ++ bs) (es ++ fs) = flip as es ++ flip bs fs :=
  List.zipWith_append h.symm

theorem bits_flip {data e : List Byte} (h : data.length = e.length) :
    bits (flip data e) = List.zipWith (· ^^ ·) (bits data) (bits e) := by
  induction data generalizing e with
  | nil =>
    cases List.length_eq_zero_iff.mp h.symm
    rfl
  | cons b data ih =>
    cases e with
    | nil => cases h
    | cons x e =>
      show bits ((b ^^^ x) :: flip data e) = _
      rw [bits_cons, bits_cons, bits_cons, ih (Nat.succ.inj h),
        List.zipWith_append (by simp), List.zipWith_map_left, List.zipWith_map_right]
      congr 1
      simp [List.zipWith_self, BitVec.getMsbD_xor]

/-! ## the loop is the register -/

theorem crcBit_eq (crc : U16) : crcBit crc = mulX (n := 15) crcPoly crc := by
  have htop : (0x8000 : U16) = BitVec.twoPow 16 15 := by decide
  unfold crcBit mulX
  rw [htop, BitVec.and_twoPow, BitVec.msb_eq_getLsbD_last]
  cases h : crc.getLsbD 15 with
  | true => simp [crcPoly]
  | false => simp

theorem crcBits_eq (k : Nat) (crc : U16) : crcBits k crc = (mulX (n := 15) crcPoly)^[k] crc := by
  induction k generalizing crc with
  | zero => rfl
  | succ k ih => rw [crcBits, crcBit_eq, ih, Function.iterate_succ_apply]

/-- what is checked of each byte: where it is placed, its parity, and its powers if it has one bit -/
theorem byte_facts : ∀ b : Byte, place 15 ((List.range 8).map b.getMsbD) = b.zeroExtend 16 <<< 8 ∧
    parity (n := 15) (b.zeroExtend 16) = weight [b] ∧
    parity (n := 15) (b.zeroExtend 16 <<< 8) = weight [b] ∧ (weight [b] = 0 → b = 0) ∧
    (weight [b] = 1 → ∃ i < 16, b.zeroExtend 16 = (mulX (n := 15) crcPoly)^[i] 1) ∧
    (weight [b] = 1 → ∃ i < 16, b.zeroExtend 16 <<< 8 = (mulX (n := 15) crcPoly)^[i] 1) := by
  decide +kernel

theorem place_byte (b : Byte) : place 15 ((List.range 8).map b.getMsbD) = b.zeroExtend 16 <<< 8 :=
  (byte_facts b).1

theorem crcByte_eq (crc : U16) (b : Byte) :
    crcByte crc b = rem (n := 15) crcPoly ((List.range 8).map b.getMsbD) crc := by
  rw [rem_place (by simp), place_byte, List.length_map, List.length_range, crcByte, crcBits_eq]

theorem foldl_crcByte (data : List Byte) (crc : U16) :
    data.foldl crcByte crc = rem (n := 15) crcPoly (bits data) crc := by
  induction data generalizing crc with
  | nil => rfl
  | cons b data ih => rw [List.foldl_cons, ih, crcByte_eq, bits_cons, rem_append]

/-- an error shows as its own remainder -/
theorem rpV2Crc16_flip {data e : List Byte} (h : data.length = e.length) :
    rpV2Crc16 (flip data e) = rpV2Crc16 data ^^^ syndrome e := by
  have hlen : (bits data).length = (bits e).length := by simp [h]
  rw [rpV2Crc16, rpV2Crc16, foldl_crcByte, foldl_crcByte, syndrome, bits_flip h, ← rem_xor hlen,
    BitVec.xor_zero]

/-! ## the two bytes of the checksum -/

theorem rpV2GetU16_xor (a b x y : Byte) :
    rpV2GetU16 [a ^^^ x, b ^^^ y] = rpV2GetU16 [a, b] ^^^ rpV2GetU16 [x, y] := by
  unfold rpV2GetU16
  apply BitVec.eq_of_getLsbD_eq
  intro i hi
  simp only [List.getD_cons_zero, List.getD_cons_succ, BitVec.getLsbD_or, BitVec.getLsbD_xor,
    BitVec.getLsbD_shiftLeft, BitVec.zeroExtend, BitVec.getLsbD_setWidth]
  by_cases h8 : i < 8
  · simp [h8, hi]
  · have hlow : ∀ z : Byte, z.getLsbD i = false := fun z => BitVec.getLsbD_of_ge z i (by omega)
    have h16 : i - 8 < 16 := by omega
    simp [h8, hi, hlow, h16]

/-- the receiver's comparison misses an error exactly if the checksum bytes are hit by its
syndrome -/
theorem checksum_blind {data e c : List Byte} (h : data.length = e.length) (hc : c.length = 2) :
    rpV2GetU16 (flip (rpV2PutU16 (rpV2Crc16 data)) c) = rpV2Crc16 (flip data e) ↔
      rpV2GetU16 c = syndrome e := by
  match c, hc with
  | [x, y], _ =>
    rw [rpV2Crc16_flip h]
    show rpV2GetU16 [_ ^^^ x, _ ^^^ y] = _ ↔ _
    rw [rpV2GetU16_xor]
    show rpV2GetU16 (rpV2PutU16 _) ^^^ _ = _ ↔ _
    rw [rpV2GetU16_put, BitVec.xor_right_inj]

/-! ## few flips -/

theorem crcPoly_constant : (crcPoly : BitVec (15 + 1)).getLsbD 0 = true := by decide

theorem crcPoly_parity : parity (n := 15) crcPoly = 1 := by decide

/-- the longest message has 253 bytes -/
theorem crcPoly_noReturn : NoReturn (n := 15) crcPoly 2040 :=
  noReturn_of_differs (by decide +kernel)

theorem low_parity (b : Byte) : parity (n := 15) (b.zeroExtend 16) = weight [b] := (byte_facts b).2.1

theorem high_parity (b : Byte) : parity (n := 15) (b.zeroExtend 16 <<< 8) = weight [b] := (byte_facts b).2.2.1

theorem rpV2GetU16_eq_xor (x y : Byte) :
    rpV2GetU16 [x, y] = x.zeroExtend 16 ^^^ y.zeroExtend 16 <<< 8 := by
  have h := rpV2GetU16_xor x 0 0 y
  simpa [rpV2GetU16] using h

theorem parity_u16 (x y : Byte) : parity (n := 15) (rpV2GetU16 [x, y]) = weight [x, y] := by
  rw [rpV2GetU16_eq_xor, parity_xor, low_parity, high_parity, weight_cons x [y]]
  push_cast
  rfl

theorem parity_syndrome (e : List Byte) : parity (n := 15) (syndrome e) = weight e := by
  rw [syndrome, parity_rem crcPoly_parity, parity_zero, zero_add, weight]

theorem weight_byte_zero (b : Byte) : weight [b] = 0 → b = 0 := (byte_facts b).2.2.2.1

theorem low_power (b : Byte) : weight [b] = 1 →
    ∃ i < 16, b.zeroExtend 16 = (mulX (n := 15) crcPoly)^[i] 1 := (byte_facts b).2.2.2.2.1

theorem high_power (b : Byte) : weight [b] = 1 →
    ∃ i < 16, b.zeroExtend 16 <<< 8 = (mulX (n := 15) crcPoly)^[i] 1 := (byte_facts b).2.2.2.2.2

theorem u16_eq_zero {x y : Byte} (h : rpV2GetU16 [x, y] = 0#16) : x = 0 ∧ y = 0 := by
  have hbit : ∀ i, (rpV2GetU16 [x, y]).getLsbD i = false := by
    intro i
    rw [h, BitVec.getLsbD_zero]
  constructor
  · apply BitVec.eq_of_getLsbD_eq
    intro i hi
    have hlow := hbit i
    rw [rpV2GetU16_eq_xor] at hlow
    simpa [hi, show i < 16 by omega] using hlow
  · apply BitVec.eq_of_getLsbD_eq
    intro i hi
    have hhigh := hbit (i + 8)
    rw [rpV2GetU16_eq_xor] at hhigh
    simpa [hi, show i + 8 < 16 by omega, show i < 16 by omega] using hhigh

theorem u16_power {x y : Byte} (h : weight [x, y] = 1) :
    ∃ i < 16, rpV2GetU16 [x, y] = (mulX (n := 15) crcPoly)^[i] 1 := by
  rw [weight_cons] at h
  rw [rpV2GetU16_eq_xor]
  obtain ⟨hx, hy⟩ | ⟨hx, hy⟩ : weight [x] = 0 ∧ weight [y] = 1 ∨ weight [x] = 1 ∧ weight [y] = 0 := by
    omega
  · obtain ⟨i, hi, hpow⟩ := high_power y hy
    rw [weight_byte_zero x hx, hpow]
    exact ⟨i, hi, by simp⟩
  · obtain ⟨i, hi, hpow⟩ := low_power x hx
    rw [weight_byte_zero y hy, hpow]
    exact ⟨i, hi, by simp⟩

/-- **Few flips** before the checksum and in it do not cancel. -/
theorem few_flips_seen {e c : List Byte} (he : e.length ≤ 253) (hc : c.length = 2)
    (hw : weight e + weight c = 2 ∨ (weight e + weight c) % 2 = 1) : rpV2GetU16 c ≠ syndrome e := by
  match c, hc with
  | [x, y], _ =>
    intro h
    obtain hw | hw := hw
    case inr =>
      have hpar := congrArg (parity (n := 15)) h
      rw [parity_u16, parity_syndrome] at hpar
      have hsum : ((weight e + weight [x, y] : Nat) : ZMod 2) = 0 := by
        push_cast
        rw [hpar]
        exact CharTwo.add_self_eq_zero _
      rw [ZMod.natCast_eq_zero_iff] at hsum
      omega
    obtain hwe | hwe | hwe : weight e = 0 ∨ weight e = 1 ∨ weight e = 2 := by omega
    · rw [syndrome, rem_none hwe] at h
      obtain ⟨rfl, rfl⟩ := u16_eq_zero h
      have : weight [(0 : Byte), 0] = 0 := by decide
      omega
    · -- a power of `x` within the checksum and one beyond it
      obtain ⟨k, hk, hrem⟩ := rem_one (n := 15) (g := crcPoly) hwe
      obtain ⟨i, hi, hpow⟩ := u16_power (x := x) (y := y) (by omega)
      rw [bits_length] at hk
      rw [syndrome, hrem, hpow] at h
      exact crcPoly_noReturn.ne crcPoly_constant (by omega) (by omega) h
    · obtain ⟨j, k, hjk, hk, hrem⟩ := rem_two (n := 15) (g := crcPoly) hwe
      have hx : weight [x] = 0 := by
        rw [weight_cons] at hw
        omega
      have hy : weight [y] = 0 := by
        rw [weight_cons] at hw
        omega
      rw [weight_byte_zero x hx, weight_byte_zero y hy] at h
      rw [bits_length] at hk
      rw [syndrome, hrem] at h
      have heq := xor_eq_zero.mp h.symm
      exact crcPoly_noReturn.ne crcPoly_constant (by omega) (by omega) heq.symm

/-! ## bursts -/

/-- the flips lie within `k` consecutive bits, and there is one -/
def Burst (k : Nat) (flips : List Bool) : Prop :=
  true ∈ flips ∧ ∃ start, ∀ i, flips[i]? = some true → start ≤ i ∧ i < start + k

theorem Burst.middle {k : Nat} {as bs cs : List Bool} (h : Burst k (as ++ bs ++ cs))
    (ha : true ∉ as) (hc : true ∉ cs) : Burst k bs := by
  obtain ⟨hmem, start, hwin⟩ := h
  constructor
  · rw [List.mem_append, List.mem_append] at hmem
    tauto
  · refine ⟨start - as.length, fun i hi => ?_⟩
    have hi' : (as ++ bs ++ cs)[as.length + i]? = some true := by
      rw [List.append_assoc, List.getElem?_append_right (Nat.le_add_right ..),
        Nat.add_sub_cancel_left, List.getElem?_append_left (List.getElem?_eq_some_iff.mp hi).1]
      exact hi
    have := hwin _ hi'
    omega

/-- **A burst** before the checksum is seen. -/
theorem burst_seen {e : List Byte} (h : Burst 16 (bits e)) : syndrome e ≠ 0#16 := by
  obtain ⟨hmem, start, hwin⟩ := h
  have hsplit : bits e = (bits e).take start ++ ((bits e).drop start).take 16 ++
      ((bits e).drop start).drop 16 := by
    rw [List.append_assoc, List.take_append_drop, List.take_append_drop]
  have hpre : true ∉ (bits e).take start := by
    intro hin
    obtain ⟨i, hi⟩ := List.getElem?_of_mem hin
    rw [List.getElem?_take] at hi
    split at hi
    · have := hwin i hi
      omega
    · cases hi
  have hpost : true ∉ ((bits e).drop start).drop 16 := by
    intro hin
    obtain ⟨i, hi⟩ := List.getElem?_of_mem hin
    rw [List.drop_drop, List.getElem?_drop] at hi
    have := hwin _ hi
    omega
  have hw : true ∈ ((bits e).drop start).take 16 := by
    rw [hsplit, List.mem_append, List.mem_append] at hmem
    tauto
  rw [syndrome, hsplit]
  apply rem_burst crcPoly_constant (List.count_eq_zero.mpr hpre) (List.count_eq_zero.mpr hpost)
  · exact List.length_take_le 16 _
  · exact fun h0 => List.count_eq_zero.mp h0 hw

theorem syndrome_zero {e : List Byte} (h : weight e = 0) : syndrome e = 0#16 := rem_none h

end RaspikeArt
