import RaspikeArt.Model.State
import Mathlib.Data.List.GetD

/-!
# The saved status, part 1: bytes of the record

* `SpikeStatus.byte_write`    what a `memcpy` into the record makes of a byte;
* `SpikeStatus.bytes_write`   a range is what was copied to it, if it is the range of the copy, and
  `SpikeStatus.bytes_other`   what it was, if the copy missed it.
-/

namespace RaspikeArt
namespace SpikeStatus

variable {s s' : SpikeStatus} {off n k : Nat} {bs : List Byte}

theorem byte_write (hk : k < 136) :
    (s.write off bs).byte k = if off ≤ k ∧ k < off + bs.length then bs.getD (k - off) 0 else s.byte k := by
  simp [byte, write, hk]

theorem byte_write_in (hk : k < 136) (hlow : off ≤ k) (hhigh : k < off + bs.length) :
    (s.write off bs).byte k = bs.getD (k - off) 0 := by
  rw [byte_write hk, if_pos ⟨hlow, hhigh⟩]

/-- a byte that a copy misses; none of the record lies past its end -/
theorem byte_write_out (h : k < off ∨ off + bs.length ≤ k) : (s.write off bs).byte k = s.byte k := by
  by_cases hk : k < 136
  · rw [byte_write hk, if_neg (by omega)]
  · simp [byte, hk]

@[simp] theorem bytes_length : (s.bytes off n).length = n := by simp [bytes]

theorem bytes_getElem (hk : k < (s.bytes off n).length) : (s.bytes off n)[k] = s.byte (off + k) := by
  simp [bytes]

theorem bytes_congr (h : ∀ k < n, s.byte (off + k) = s'.byte (off + k)) :
    s.bytes off n = s'.bytes off n := by
  apply List.map_congr_left
  intro k hk
  exact h k (List.mem_range.mp hk)

theorem bytes_write (hend : off + bs.length ≤ 136) : (s.write off bs).bytes off bs.length = bs := by
  apply List.ext_getElem
  · exact bytes_length
  intro k hk hk'
  rw [bytes_getElem hk, byte_write_in (by omega) (Nat.le_add_right _ _) (by omega),
    Nat.add_sub_cancel_left]
  exact List.getD_eq_getElem _ _ hk'

theorem bytes_other {m : Nat} (h : m + n ≤ off ∨ off + bs.length ≤ m) :
    (s.write off bs).bytes m n = s.bytes m n := by
  apply bytes_congr
  intro k hk
  exact byte_write_out (by omega)

end SpikeStatus

/-! ## the offsets of a port -/

theorem portOffset_lt {p q : Nat} (h : p < q) : portOffset p + 16 ≤ portOffset q := by
  unfold portOffset
  omega

theorem portOffset_le {p : Nat} (h : p < 6) : portOffset p + 16 ≤ 136 := by
  unfold portOffset
  omega

/-- the entries of two ports lie apart -/
theorem portOffset_ne {p q : Nat} (h : p ≠ q) :
    portOffset p + 16 ≤ portOffset q ∨ portOffset q + 16 ≤ portOffset p := by
  rcases Nat.lt_or_gt_of_ne h with hlt | hgt
  · exact .inl (portOffset_lt hlt)
  · exact .inr (portOffset_lt hgt)

end RaspikeArt
