import Mathlib.Data.BitVec
import Mathlib.Algebra.Field.ZMod
import Mathlib.Algebra.BigOperators.Fin

/-!
# Checksums, part 1: remainders

Polynomials over the field of two elements modulo `x ^ (n + 1) + g`, as bit vectors, and the shift
register that computes the remainder of a message whose first bit is the highest.

* `mulX g`      multiplication by `x`: linear, and injective when `g` has a constant term;
* `rem g`       the register over a message: linear in message and start;
* `parity`      kept by `mulX` when `x + 1` divides the modulus: every odd error shows;
* `NoReturn`    the powers of `x` differ up to a bound: every double error shows;
* `rem_burst`   an error within `n + 1` bits shows.
-/

namespace Checksum

variable {n : Nat} {g : BitVec (n + 1)}

/-- the highest power of `x` below the modulus -/
def top (n : Nat) : BitVec (n + 1) := BitVec.twoPow (n + 1) n

def mulX (g c : BitVec (n + 1)) : BitVec (n + 1) :=
  if c.msb then c <<< 1 ^^^ g else c <<< 1

theorem xor_cancel (a b p : BitVec (n + 1)) : a ^^^ p ^^^ (b ^^^ p) = a ^^^ b := by
  rw [BitVec.xor_assoc, BitVec.xor_comm b p, ← BitVec.xor_assoc p, BitVec.xor_self,
    BitVec.zero_xor]

theorem xor_eq_zero {a b : BitVec (n + 1)} : a ^^^ b = 0#_ ↔ a = b := by
  constructor
  · intro h
    have hab := congrArg (· ^^^ b) h
    simpa [BitVec.xor_assoc] using hab
  · rintro rfl
    exact BitVec.xor_self

@[simp] theorem mulX_zero : mulX g 0#_ = 0#_ := by simp [mulX]

theorem mulX_xor (a b : BitVec (n + 1)) : mulX g (a ^^^ b) = mulX g a ^^^ mulX g b := by
  unfold mulX
  rw [BitVec.msb_xor, BitVec.shiftLeft_xor_distrib]
  cases a.msb <;> cases b.msb
  · rfl
  · exact BitVec.xor_assoc _ _ _
  · simp only [Bool.bne_false, if_true, Bool.false_eq_true, if_false]
    ac_rfl
  · exact (xor_cancel _ _ _).symm

theorem eq_zero_of_mulX (hg : g.getLsbD 0 = true) {c : BitVec (n + 1)} (h : mulX g c = 0#_) :
    c = 0#_ := by
  unfold mulX at h
  split at h
  case isTrue =>
    have hbit := congrArg (·.getLsbD 0) h
    rw [BitVec.getLsbD_xor, hg] at hbit
    simp at hbit
  case isFalse hmsb =>
    apply BitVec.eq_of_getLsbD_eq
    intro i hi
    rw [BitVec.getLsbD_zero]
    by_cases hin : i = n
    · subst hin
      simpa [BitVec.msb_eq_getLsbD_last] using hmsb
    · have hbit := congrArg (·.getLsbD (i + 1)) h
      rw [BitVec.getLsbD_shiftLeft] at hbit
      simpa only [BitVec.getLsbD_zero, show i + 1 < n + 1 by omega, decide_true, Bool.true_and,
        show ¬i + 1 < 1 by omega, decide_false, Bool.not_false, Nat.add_sub_cancel] using hbit

theorem mulX_injective (hg : g.getLsbD 0 = true) : Function.Injective (mulX g) := by
  intro a b h
  apply xor_eq_zero.mp
  apply eq_zero_of_mulX hg
  rw [mulX_xor, h, BitVec.xor_self]

/-! ## powers -/

theorem iterate_zero (k : Nat) : (mulX g)^[k] 0#_ = 0#_ := by
  induction k with
  | zero => rfl
  | succ k ih => rw [Function.iterate_succ_apply, mulX_zero, ih]

theorem iterate_xor (k : Nat) (a b : BitVec (n + 1)) :
    (mulX g)^[k] (a ^^^ b) = (mulX g)^[k] a ^^^ (mulX g)^[k] b := by
  induction k generalizing a b with
  | zero => rfl
  | succ k ih => simp only [Function.iterate_succ_apply, mulX_xor, ih]

theorem mulX_twoPow {j : Nat} (hj : j < n) :
    mulX g (BitVec.twoPow (n + 1) j) = BitVec.twoPow (n + 1) (j + 1) := by
  have hmsb : (BitVec.twoPow (n + 1) j).msb = false := by
    simp [BitVec.msb_eq_getLsbD_last]
    omega
  rw [mulX, hmsb]
  apply BitVec.eq_of_getLsbD_eq
  intro i hi
  simp only [Bool.false_eq_true, if_false, BitVec.getLsbD_shiftLeft, BitVec.getLsbD_twoPow]
  grind

theorem iterate_one {j : Nat} (hj : j ≤ n) :
    (mulX g)^[j] 1 = BitVec.twoPow (n + 1) j := by
  induction j with
  | zero => simp [BitVec.twoPow]
  | succ j ih => rw [Function.iterate_succ_apply', ih (by omega), mulX_twoPow (by omega)]

theorem iterate_top (k : Nat) : (mulX g)^[k] (top n) = (mulX g)^[k + n] 1 := by
  rw [Function.iterate_add_apply, iterate_one (Nat.le_refl n)]
  rfl

/-- the powers of `x` do not come back to `1` up to the exponent `N` -/
def NoReturn (g : BitVec (n + 1)) (N : Nat) : Prop :=
  ∀ d, 0 < d → d ≤ N → (mulX g)^[d] 1 ≠ 1

theorem NoReturn.ne (hg : g.getLsbD 0 = true) {N a b : Nat} (h : NoReturn g N) (hab : a < b)
    (hb : b ≤ N) : (mulX g)^[a] 1 ≠ (mulX g)^[b] 1 := by
  intro heq
  apply h (b - a) (by omega) (by omega)
  apply (mulX_injective hg).iterate a
  rw [← Function.iterate_add_apply, heq]
  congr 1
  omega

/-- the powers from `c` on: `1` is not among the next `N` -/
def differs (g : BitVec (n + 1)) : Nat → BitVec (n + 1) → Bool
  | 0, _ => true
  | N + 1, c => mulX g c != 1 && differs g N (mulX g c)

theorem differs_iterate {N : Nat} {c : BitVec (n + 1)} (h : differs g N c = true) {d : Nat}
    (h0 : 0 < d) (hd : d ≤ N) : (mulX g)^[d] c ≠ 1 := by
  induction N generalizing c d with
  | zero => omega
  | succ N ih =>
    rw [differs, Bool.and_eq_true, bne_iff_ne] at h
    obtain ⟨d, rfl⟩ : ∃ k, d = k + 1 := ⟨d - 1, by omega⟩
    rw [Function.iterate_succ_apply]
    by_cases hz : d = 0
    · subst hz
      exact h.1
    · exact ih h.2 (by omega) (by omega)

theorem noReturn_of_differs {N : Nat} (h : differs g N 1 = true) : NoReturn g N :=
  fun _ h0 hd => differs_iterate h h0 hd

/-! ## the register -/

/-- the next message bit enters at the top -/
def push (g : BitVec (n + 1)) (c : BitVec (n + 1)) (b : Bool) : BitVec (n + 1) :=
  mulX g (c ^^^ if b then top n else 0#_)

def rem (g : BitVec (n + 1)) (bits : List Bool) (c : BitVec (n + 1)) : BitVec (n + 1) :=
  bits.foldl (push g) c

@[simp] theorem rem_nil (c : BitVec (n + 1)) : rem g [] c = c := rfl
@[simp] theorem rem_cons (b : Bool) (bits : List Bool) (c : BitVec (n + 1)) :
    rem g (b :: bits) c = rem g bits (push g c b) := rfl

theorem rem_append (as bs : List Bool) (c : BitVec (n + 1)) :
    rem g (as ++ bs) c = rem g bs (rem g as c) := List.foldl_append

theorem push_false (c : BitVec (n + 1)) : push g c false = mulX g c := by
  simp [push]

theorem push_xor (a b : Bool) (c d : BitVec (n + 1)) :
    push g (c ^^^ d) (a ^^ b) = push g c a ^^^ push g d b := by
  unfold push
  rw [← mulX_xor]
  congr 1
  cases a <;> cases b
  · simp
  · simp only [Bool.false_xor, if_true, Bool.false_eq_true, if_false, BitVec.xor_zero]
    exact BitVec.xor_assoc _ _ _
  · simp only [Bool.xor_false, if_true, Bool.false_eq_true, if_false, BitVec.xor_zero]
    ac_rfl
  · simp only [Bool.xor_self, Bool.false_eq_true, if_false, if_true, BitVec.xor_zero]
    exact (xor_cancel _ _ _).symm

theorem rem_xor {as bs : List Bool} (h : as.length = bs.length) (c d : BitVec (n + 1)) :
    rem g (List.zipWith (· ^^ ·) as bs) (c ^^^ d) = rem g as c ^^^ rem g bs d := by
  induction as generalizing bs c d with
  | nil =>
    cases List.length_eq_zero_iff.mp h.symm
    rfl
  | cons a as ih =>
    cases bs with
    | nil => cases h
    | cons b bs =>
      rw [List.zipWith_cons_cons, rem_cons, rem_cons, rem_cons, push_xor]
      exact ih (Nat.succ.inj h) _ _

/-- the part of the start and the part of the message -/
theorem rem_split (bits : List Bool) (c : BitVec (n + 1)) :
    rem g bits c = (mulX g)^[bits.length] c ^^^ rem g bits 0#_ := by
  induction bits generalizing c with
  | nil => simp
  | cons b bits ih =>
    have hpush : push g c b = mulX g c ^^^ push g 0#_ b := by
      have := push_xor (g := g) false b c 0#_
      rwa [Bool.false_xor, BitVec.xor_zero, push_false] at this
    rw [rem_cons, ih, rem_cons, ih (push g 0#_ b), hpush, iterate_xor, List.length_cons,
      Function.iterate_succ_apply, BitVec.xor_assoc]

/-! ## few errors -/

theorem rem_none {bits : List Bool} (h : bits.count true = 0) : rem g bits 0#_ = 0#_ := by
  induction bits with
  | nil => rfl
  | cons b bits ih =>
    cases b with
    | true => simp at h
    | false =>
      rw [rem_cons, push_false, mulX_zero]
      exact ih (by simpa using h)

/-- an error in one bit is a power of `x` -/
theorem rem_one {bits : List Bool} (h : bits.count true = 1) :
    ∃ k, k < bits.length ∧ rem g bits 0#_ = (mulX g)^[k + 1 + n] 1 := by
  induction bits with
  | nil => simp at h
  | cons b bits ih =>
    cases b with
    | true =>
      refine ⟨bits.length, Nat.lt_succ_self _, ?_⟩
      rw [rem_cons, rem_split, rem_none (by simpa using h), BitVec.xor_zero, ← iterate_top,
        Function.iterate_succ_apply]
      simp [push]
    | false =>
      obtain ⟨k, hk, hrem⟩ := ih (by simpa using h)
      refine ⟨k, Nat.lt_succ_of_lt hk, ?_⟩
      rw [rem_cons, push_false, mulX_zero, hrem]

/-- an error in two bits is the sum of two powers of `x` -/
theorem rem_two {bits : List Bool} (h : bits.count true = 2) :
    ∃ j k, j < k ∧ k < bits.length ∧
      rem g bits 0#_ = (mulX g)^[k + 1 + n] 1 ^^^ (mulX g)^[j + 1 + n] 1 := by
  induction bits with
  | nil => simp at h
  | cons b bits ih =>
    cases b with
    | true =>
      have hone : bits.count true = 1 := by simpa using h
      obtain ⟨j, hj, hrem⟩ := rem_one (g := g) hone
      refine ⟨j, bits.length, hj, Nat.lt_succ_self _, ?_⟩
      rw [rem_cons, rem_split, hrem, ← iterate_top (bits.length + 1), Function.iterate_succ_apply]
      simp [push]
    | false =>
      obtain ⟨j, k, hjk, hk, hrem⟩ := ih (by simpa using h)
      refine ⟨j, k, hjk, Nat.lt_succ_of_lt hk, ?_⟩
      rw [rem_cons, push_false, mulX_zero, hrem]

/-! ## bursts -/

/-- `w` at the top of the register -/
def place (n : Nat) : List Bool → BitVec (n + 1)
  | [] => 0#_
  | b :: w => (if b then top n else 0#_) ^^^ place n w >>> 1

theorem place_low (w : List Bool) (i : Nat) (hi : i + w.length ≤ n) :
    (place n w).getLsbD i = false := by
  induction w generalizing i with
  | nil => simp [place]
  | cons b w ih =>
    rw [List.length_cons] at hi
    have htop : (if b then top n else 0#_).getLsbD i = false := by
      cases b
      · simp
      · simp [top]
        omega
    rw [place, BitVec.getLsbD_xor, htop, BitVec.getLsbD_ushiftRight, ih (1 + i) (by omega)]
    rfl

theorem place_eq_zero {w : List Bool} (hw : w.length ≤ n + 1) (h : place n w = 0#_) :
    w.count true = 0 := by
  induction w with
  | nil => rfl
  | cons b w ih =>
    rw [List.length_cons] at hw
    have hshift : ∀ i, (place n w >>> 1).getLsbD i = (place n w).getLsbD (1 + i) := fun i =>
      BitVec.getLsbD_ushiftRight ..
    cases b with
    | true =>
      have hbit := congrArg (·.getLsbD n) h
      simp [place, top] at hbit
    | false =>
      have hzero : place n w >>> 1 = 0#_ := by simpa [place] using h
      have hall : place n w = 0#_ := by
        apply BitVec.eq_of_getLsbD_eq
        intro i _
        rw [BitVec.getLsbD_zero]
        cases i with
        | zero => exact place_low w 0 (by omega)
        | succ i =>
          have hbit := congrArg (·.getLsbD i) hzero
          rw [hshift, BitVec.getLsbD_zero] at hbit
          rwa [Nat.add_comm 1 i] at hbit
      simpa using ih (by omega) hall

theorem mulX_place {w : List Bool} (hw : w.length ≤ n) :
    mulX g (place n w >>> 1) = place n w := by
  have hmsb : (place n w >>> 1).msb = false := by
    simp [BitVec.msb_eq_getLsbD_last]
  rw [mulX, hmsb]
  apply BitVec.eq_of_getLsbD_eq
  intro i hi
  cases i with
  | zero => simpa using (place_low w 0 (by omega)).symm
  | succ i => simp [hi, Nat.add_comm]

/-- a message no longer than the register -/
theorem rem_place {w : List Bool} (hw : w.length ≤ n + 1) (c : BitVec (n + 1)) :
    rem g w c = (mulX g)^[w.length] (c ^^^ place n w) := by
  induction w generalizing c with
  | nil => simp [place]
  | cons b w ih =>
    rw [List.length_cons] at hw
    rw [rem_cons, ih (by omega), List.length_cons, Function.iterate_succ_apply]
    congr 1
    rw [place, push, ← BitVec.xor_assoc, mulX_xor (_ ^^^ _), mulX_place (by omega)]

/-- a nonzero error within `n + 1` bits shows -/
theorem rem_burst (hg : g.getLsbD 0 = true) {pre w post : List Bool} (hpre : pre.count true = 0)
    (hpost : post.count true = 0) (hlen : w.length ≤ n + 1) (hw : w.count true ≠ 0) :
    rem g (pre ++ w ++ post) 0#_ ≠ 0#_ := by
  intro h
  rw [rem_append, rem_append, rem_none hpre, rem_split, rem_none hpost, BitVec.xor_zero] at h
  have hzero := (mulX_injective hg).iterate _ (h.trans (iterate_zero _).symm)
  rw [rem_place hlen, BitVec.zero_xor] at hzero
  have hplace := (mulX_injective hg).iterate _ (hzero.trans (iterate_zero _).symm)
  exact hw (place_eq_zero hlen hplace)

/-! ## parity -/

def parity (c : BitVec (n + 1)) : ZMod 2 := ∑ i : Fin (n + 1), if c.getLsbD i then 1 else 0

theorem parity_xor (a b : BitVec (n + 1)) : parity (a ^^^ b) = parity a + parity b := by
  unfold parity
  rw [← Finset.sum_add_distrib]
  apply Finset.sum_congr rfl
  intro i _
  rw [BitVec.getLsbD_xor]
  cases a.getLsbD i <;> cases b.getLsbD i <;> decide

theorem parity_zero : parity (0#(n + 1)) = 0 := by simp [parity]

theorem parity_twoPow {j : Nat} (hj : j < n + 1) : parity (BitVec.twoPow (n + 1) j) = 1 := by
  unfold parity
  rw [Finset.sum_eq_single (⟨j, hj⟩ : Fin (n + 1))]
  · simp [hj]
  · intro i _ hi
    have hne : j ≠ i.val := fun h => hi (Fin.ext h.symm)
    simp [BitVec.getLsbD_twoPow, hne]
  · simp

theorem parity_shift (c : BitVec (n + 1)) :
    parity (c <<< 1) + (if c.msb then 1 else 0) = parity c := by
  unfold parity
  rw [Fin.sum_univ_succ, Fin.sum_univ_castSucc (fun i => if c.getLsbD i then (1 : ZMod 2) else 0)]
  simp [BitVec.msb_eq_getLsbD_last]

theorem parity_mulX (hg : parity g = 1) (c : BitVec (n + 1)) : parity (mulX g c) = parity c := by
  rw [← parity_shift c]
  unfold mulX
  cases c.msb with
  | true => rw [if_pos rfl, if_pos rfl, parity_xor, hg]
  | false => simp

/-- the parity of the register is that of the start and the message together -/
theorem parity_rem (hg : parity g = 1) (bits : List Bool) (c : BitVec (n + 1)) :
    parity (rem g bits c) = parity c + bits.count true := by
  induction bits generalizing c with
  | nil => simp
  | cons b bits ih =>
    rw [rem_cons, ih, push, parity_mulX hg, parity_xor]
    cases b with
    | true =>
      rw [if_pos rfl, top, parity_twoPow (Nat.lt_succ_self n), List.count_cons_self]
      push_cast
      rw [add_assoc, add_comm (1 : ZMod 2)]
    | false => simp [parity_zero]

end Checksum
