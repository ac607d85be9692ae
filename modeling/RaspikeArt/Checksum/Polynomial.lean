import RaspikeArt.Checksum.Remainder
import Mathlib.Algebra.Polynomial.Div
import Mathlib.Algebra.Polynomial.BigOperators
import Mathlib.Algebra.Polynomial.Degree.Operations
import Mathlib.Algebra.CharP.Two
import Mathlib.Algebra.Field.ZMod
import Mathlib.Tactic.LinearCombination

/-!
# Checksums, part 3: the register divides

The bit vectors of `Checksum.Remainder` as the polynomials they stand for, over `ZMod 2`.

* `poly c`, `message bits`  a register, its highest bit first; a message, its first bit first;
* `modulus g`               `x ^ (n + 1) + g`;
* `poly_mulX`               `mulX` multiplies by `x` modulo the modulus;
* `poly_rem`                the register holds the remainder of the message and the start, which
                            the message has moved up.
-/

namespace Checksum

open Polynomial

variable {n : Nat} {g : BitVec (n + 1)}

noncomputable section

/-- the coefficient of `x ^ i` -/
def coef (b : Bool) : ZMod 2 := if b then 1 else 0

theorem coef_xor (a b : Bool) : coef (a ^^ b) = coef a + coef b := by
  cases a <;> cases b <;> decide

def poly (c : BitVec n) : (ZMod 2)[X] := ∑ i : Fin n, C (coef (c.getLsbD i)) * X ^ i.val

def message : List Bool → (ZMod 2)[X]
  | [] => 0
  | b :: bits => C (coef b) * X ^ bits.length + message bits

def modulus (g : BitVec (n + 1)) : (ZMod 2)[X] := X ^ (n + 1) + poly g

theorem degree_poly_lt (c : BitVec n) : (poly c).degree < n :=
  degree_sum_fin_lt fun i : Fin n => coef (c.getLsbD i)

theorem poly_xor (a b : BitVec n) : poly (a ^^^ b) = poly a + poly b := by
  rw [poly, poly, poly, ← Finset.sum_add_distrib]
  apply Finset.sum_congr rfl
  intro i _
  rw [BitVec.getLsbD_xor, coef_xor, C_add, add_mul]

theorem poly_zero : poly (0#n) = 0 := by
  apply Finset.sum_eq_zero
  intro i _
  rw [BitVec.getLsbD_zero]
  show C (0 : ZMod 2) * _ = 0
  rw [C_0, zero_mul]

theorem poly_top (b : Bool) : poly (if b then top n else 0#_) = C (coef b) * X ^ n := by
  cases b with
  | false =>
    rw [if_neg (by decide), poly_zero]
    show 0 = C (0 : ZMod 2) * _
    rw [C_0, zero_mul]
  | true =>
    rw [if_pos rfl, poly, Finset.sum_eq_single (Fin.last n)]
    · simp [top]
    · intro i _ hi
      have hne : n ≠ i.val := fun h => hi (Fin.ext h.symm)
      have hbit : (top n).getLsbD i = false := by simp [top, BitVec.getLsbD_twoPow, hne]
      rw [hbit]
      show C (0 : ZMod 2) * _ = 0
      rw [C_0, zero_mul]
    · exact fun h => absurd (Finset.mem_univ _) h

theorem monic_modulus (g : BitVec (n + 1)) : (modulus g).Monic := by
  apply monic_X_pow_add
  exact degree_poly_lt g

theorem degree_modulus (g : BitVec (n + 1)) : (modulus g).degree = (n + 1 : Nat) := by
  have hpow : (X ^ (n + 1) : (ZMod 2)[X]).degree = (n + 1 : Nat) := degree_X_pow (n + 1)
  rw [modulus, degree_add_eq_left_of_degree_lt, hpow]
  rw [hpow]
  exact degree_poly_lt g

/-- a register is its own remainder -/
theorem poly_mod (g c : BitVec (n + 1)) : poly c %ₘ modulus g = poly c := by
  rw [modByMonic_eq_self_iff (monic_modulus g), degree_modulus]
  exact degree_poly_lt c

/-- a shift loses the highest bit -/
theorem poly_shift (c : BitVec (n + 1)) :
    X * poly c = poly (c <<< 1) + C (coef c.msb) * X ^ (n + 1) := by
  rw [poly, poly, Finset.mul_sum, Fin.sum_univ_castSucc, Fin.sum_univ_succ]
  have hlow : ∀ i : Fin n, (c <<< 1).getLsbD i.succ = c.getLsbD i := by
    intro i
    simp
  have hzero : (c <<< 1).getLsbD (0 : Fin (n + 1)) = false := by simp
  have hmsb : c.getLsbD (Fin.last n) = c.msb := by simp [BitVec.msb_eq_getLsbD_last]
  rw [hzero, hmsb]
  show _ = C (0 : ZMod 2) * _ + _ + _
  rw [C_0, zero_mul, zero_add]
  congr 1
  · apply Finset.sum_congr rfl
    intro i _
    rw [hlow i, Fin.val_castSucc, Fin.val_succ, pow_succ]
    ring
  · rw [Fin.val_last, pow_succ]
    ring

/-- **one turn of the register** multiplies by `x` and reduces -/
theorem poly_mulX (c : BitVec (n + 1)) : poly (mulX g c) = (X * poly c) %ₘ modulus g := by
  cases h : c.msb with
  | false =>
    rw [poly_shift, h]
    show _ = (_ + C (0 : ZMod 2) * _) %ₘ _
    rw [C_0, zero_mul, add_zero, poly_mod, mulX, h]
    rfl
  | true =>
    have hsplit : X * poly c = poly (mulX g c) + modulus g * 1 := by
      rw [poly_shift, h, mulX, h, if_pos rfl, poly_xor, modulus]
      show _ + C (1 : ZMod 2) * _ = _
      have htwo : poly g + poly g = 0 := CharTwo.add_self_eq_zero (poly g)
      rw [C_1]
      linear_combination -htwo
    rw [hsplit, add_modByMonic, self_mul_modByMonic (monic_modulus g), add_zero, poly_mod]

/-- a multiple of a remainder and of what it is the remainder of leave the same remainder -/
theorem mul_mod (p q : (ZMod 2)[X]) :
    (p %ₘ modulus g * q) %ₘ modulus g = (p * q) %ₘ modulus g := by
  have hdiv := modByMonic_add_div p (modulus g)
  have hsplit : p * q = p %ₘ modulus g * q + p /ₘ modulus g * q * modulus g := by
    linear_combination -q * hdiv
  rw [hsplit, add_modByMonic, mul_self_modByMonic (monic_modulus g), add_zero]

theorem poly_push (c : BitVec (n + 1)) (b : Bool) :
    poly (push g c b) = (X * poly c + C (coef b) * X ^ (n + 1)) %ₘ modulus g := by
  rw [push, poly_mulX, poly_xor, poly_top, pow_succ]
  congr 1
  ring

/-- **The register divides**: what it holds in the end is the remainder. -/
theorem poly_rem (bits : List Bool) (c : BitVec (n + 1)) :
    poly (rem g bits c) =
      (message bits * X ^ (n + 1) + poly c * X ^ bits.length) %ₘ modulus g := by
  induction bits generalizing c with
  | nil =>
    show _ = (0 * _ + poly c * X ^ 0) %ₘ _
    rw [zero_mul, zero_add, pow_zero, mul_one, poly_mod]
    rfl
  | cons b bits ih =>
    rw [rem_cons, ih, add_modByMonic, poly_push, mul_mod, ← add_modByMonic, message,
      List.length_cons]
    congr 1
    ring

end

end Checksum
