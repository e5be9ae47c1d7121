import Mathlib.Algebra.Group.Nat.Defs
import Mathlib.Order.Basic
import Mathlib.Tactic.SplitIfs

/-!
The saturating operations of the 32-bit unsigned type, with the exact integer each one computes.
-/

namespace Rust

/-- `u32::MAX`. -/
def u32Max : UInt32 := 4294967295

/-- `a.saturating_sub(b)`. -/
def saturatingSub (a b : UInt32) : UInt32 := UInt32.ofNat (a.toNat - b.toNat)

/-- `a.saturating_add(b)`. -/
def saturatingAdd (a b : UInt32) : UInt32 := UInt32.ofNatClamp (a.toNat + b.toNat)

/-- `a.saturating_mul(b)`. -/
def saturatingMul (a b : UInt32) : UInt32 := UInt32.ofNatClamp (a.toNat * b.toNat)

@[simp] theorem toNat_u32Max : u32Max.toNat = 2 ^ 32 - 1 := rfl

theorem toNat_le_u32Max (a : UInt32) : a.toNat ≤ 2 ^ 32 - 1 := Nat.le_pred_of_lt a.toNat_lt

theorem toNat_ofNatClamp (n : Nat) : (UInt32.ofNatClamp n).toNat = min n (2 ^ 32 - 1) := by
  by_cases h : n < UInt32.size
  · rw [UInt32.toNat_ofNatClamp_of_lt h]
    have : UInt32.size = 2 ^ 32 := rfl
    omega
  · rw [UInt32.toNat_ofNatClamp_of_le (Nat.not_lt.mp h)]
    have : UInt32.size = 2 ^ 32 := rfl
    omega

@[simp] theorem toNat_saturatingSub (a b : UInt32) : (saturatingSub a b).toNat = a.toNat - b.toNat :=
  UInt32.toNat_ofNat_of_lt' (Nat.lt_of_le_of_lt (Nat.sub_le _ _) a.toNat_lt)

@[simp] theorem toNat_saturatingAdd (a b : UInt32) :
    (saturatingAdd a b).toNat = min (a.toNat + b.toNat) (2 ^ 32 - 1) := toNat_ofNatClamp _

@[simp] theorem toNat_saturatingMul (a b : UInt32) :
    (saturatingMul a b).toNat = min (a.toNat * b.toNat) (2 ^ 32 - 1) := toNat_ofNatClamp _

theorem toNat_max (a b : UInt32) : (max a b).toNat = max a.toNat b.toNat := by
  rw [show max a b = if a ≤ b then b else a from rfl]
  split_ifs with h
  · rw [Nat.max_eq_right (UInt32.le_iff_toNat_le.mp h)]
  · rw [Nat.max_eq_left (Nat.le_of_lt (UInt32.lt_iff_toNat_lt.mp (UInt32.not_le.mp h)))]

theorem saturatingSub_zero (a : UInt32) : saturatingSub a 0 = a := by
  apply UInt32.toNat_inj.mp
  rw [toNat_saturatingSub, UInt32.toNat_zero, Nat.sub_zero]

theorem zero_saturatingSub (b : UInt32) : saturatingSub 0 b = 0 := by
  apply UInt32.toNat_inj.mp
  rw [toNat_saturatingSub, UInt32.toNat_zero, Nat.zero_sub]

theorem zero_saturatingAdd (b : UInt32) : saturatingAdd 0 b = b := by
  apply UInt32.toNat_inj.mp
  rw [toNat_saturatingAdd, UInt32.toNat_zero, Nat.zero_add, Nat.min_eq_left (toNat_le_u32Max b)]

end Rust
