import Mathlib.Order.Basic
import Mathlib.Order.Lattice
import Mathlib.Algebra.Order.Group.Nat

/-!
Whole intervals. An anchor that advances in whole intervals only, as observations come in, loses no
remainder: whatever the observations, it has advanced by the whole intervals up to the latest of them.
-/

namespace Intervals

/-- The whole intervals of length `i` between an anchor and a time; none if the time is earlier. -/
def steps (i anchor t : Nat) : Nat := (t - anchor) / i

/-- The anchor, advanced by whole intervals towards a time. -/
def advance (i anchor t : Nat) : Nat := anchor + i * steps i anchor t

theorem advance_le_max (i anchor t : Nat) : advance i anchor t ≤ max anchor t := by
  have hmul := Nat.mul_div_le (t - anchor) i
  unfold advance steps
  omega

/-- The anchor stays less than an interval behind. -/
theorem max_lt_advance_add {i : Nat} (hi : 0 < i) (anchor t : Nat) : max anchor t < advance i anchor t + i := by
  have hlt := Nat.lt_mul_div_succ (t - anchor) hi
  rw [Nat.mul_add, Nat.mul_one] at hlt
  unfold advance steps
  omega

/-- Two observations count the intervals that the later one would count alone. -/
theorem steps_advance {i : Nat} (hi : 0 < i) (anchor m t : Nat) :
    steps i anchor m + steps i (advance i anchor m) t = steps i anchor (max m t) := by
  have hle := advance_le_max i anchor m
  have hlt := max_lt_advance_add hi anchor m
  by_cases hlate : advance i anchor m ≤ t
  · -- the second observation goes on from the anchor the first one left
    have hanchor : anchor + i * steps i anchor m = advance i anchor m := rfl
    have hsplit : max m t - anchor = (max m t - advance i anchor m) + i * steps i anchor m := by omega
    have hsteps : steps i (advance i anchor m) t = (max m t - advance i anchor m) / i := by
      by_cases hmt : m ≤ t
      · rw [Nat.max_eq_right hmt, steps]
      · rw [Nat.max_eq_left (by omega), steps, Nat.div_eq_of_lt (by omega), Nat.div_eq_of_lt (by omega)]
    rw [hsteps, steps.eq_1 i anchor (max m t), hsplit, Nat.add_mul_div_left _ _ hi, Nat.add_comm]
  · have hzero : steps i (advance i anchor m) t = 0 := by
      rw [steps, Nat.sub_eq_zero_of_le (by omega), Nat.zero_div]
    rw [hzero, Nat.add_zero]
    by_cases hmt : t ≤ m
    · rw [Nat.max_eq_left hmt]
    · -- an anchor beyond the time has not moved
      rw [Nat.max_eq_right (by omega)]
      unfold steps
      rw [Nat.sub_eq_zero_of_le (by omega), Nat.sub_eq_zero_of_le (by omega)]

theorem advance_advance {i : Nat} (hi : 0 < i) (anchor m t : Nat) :
    advance i (advance i anchor m) t = advance i anchor (max m t) := by
  rw [advance, advance, advance, Nat.add_assoc, ← Nat.mul_add, ← steps_advance hi]
  rfl

end Intervals
