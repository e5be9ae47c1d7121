import Bluefrog.L7.Client
import Bluefrog.Lib.Intervals
import Mathlib.Data.List.Induction

/-!
The decay of a score. The anchor of the decay advances in whole intervals, so the times at which a
source happens to be observed, in whatever order, decide nothing but the latest of them.
-/

open Rust Intervals

namespace Bluefrog.Client

variable (client : Client) (now amount interval : UInt32)

/-- What one observation takes off the score and adds to the anchor, in exact integers. -/
theorem decay_toNat :
    (client.decay now amount interval).score.toNat =
        client.score.toNat - amount.toNat * steps (max interval.toNat 1) client.decayAt.toNat now.toNat ∧
      (client.decay now amount interval).decayAt.toNat =
        advance (max interval.toNat 1) client.decayAt.toNat now.toNat := by
  have hinterval : (max interval 1).toNat = max interval.toNat 1 := toNat_max interval 1
  have hsteps : (saturatingSub now client.decayAt / max interval 1).toNat =
      steps (max interval.toNat 1) client.decayAt.toNat now.toNat := by
    rw [UInt32.toNat_div, toNat_saturatingSub, hinterval, steps]
  have hadvance := advance_le_max (max interval.toNat 1) client.decayAt.toNat now.toNat
  have hscore := client.score.toNat_lt
  have hnow := now.toNat_lt
  have hanchor := client.decayAt.toNat_lt
  unfold decay
  simp only
  split_ifs with hpos
  · constructor
    · -- a product that saturates is beyond every score
      rw [toNat_saturatingSub, toNat_saturatingMul, hsteps, Nat.mul_comm]
      omega
    · -- the anchor stays within the observed times, so nothing saturates
      rw [toNat_saturatingAdd, toNat_saturatingMul, hsteps, hinterval, Nat.mul_comm]
      unfold advance at hadvance ⊢
      omega
  · have hzero : steps (max interval.toNat 1) client.decayAt.toNat now.toNat = 0 := by
      rw [← hsteps]
      exact Nat.eq_zero_of_not_pos fun h => hpos (UInt32.lt_iff_toNat_lt.mpr h)
    rw [advance, hzero, Nat.mul_zero, Nat.mul_zero]
    exact ⟨rfl, rfl⟩

/-- A source observed at each of some times, with nothing added to its score. -/
def decayAll (times : List UInt32) : Client := times.foldl (fun client now => client.decay now amount interval) client

/-- The latest of the anchor and some times. -/
def latest (times : List UInt32) : Nat := (times.map UInt32.toNat).foldl max client.decayAt.toNat

theorem latest_append_singleton (times : List UInt32) :
    client.latest (times ++ [now]) = max (client.latest times) now.toNat := by
  rw [latest, latest, List.map_append, List.foldl_append]
  rfl

theorem decayAt_le_latest (times : List UInt32) : client.decayAt.toNat ≤ client.latest times := by
  induction times using List.reverseRecOn with
  | nil => exact Nat.le_refl _
  | append_singleton times now ih =>
      rw [latest_append_singleton]
      exact Nat.le_trans ih (Nat.le_max_left _ _)

/-- Each observation only moves the latest time. -/
theorem decayAll_toNat (times : List UInt32) :
    (client.decayAll amount interval times).score.toNat =
        client.score.toNat -
          amount.toNat * steps (max interval.toNat 1) client.decayAt.toNat (client.latest times) ∧
      (client.decayAll amount interval times).decayAt.toNat =
        advance (max interval.toNat 1) client.decayAt.toNat (client.latest times) := by
  have hi : 0 < max interval.toNat 1 := Nat.le_max_right _ _
  induction times using List.reverseRecOn with
  | nil =>
      have hzero : steps (max interval.toNat 1) client.decayAt.toNat (client.latest []) = 0 := by
        rw [steps, latest, List.map_nil, List.foldl_nil, Nat.sub_self, Nat.zero_div]
      rw [advance, hzero, Nat.mul_zero, Nat.mul_zero]
      exact ⟨rfl, rfl⟩
  | append_singleton times now ih =>
      obtain ⟨hscore, hanchor⟩ := ih
      obtain ⟨hscore', hanchor'⟩ := decay_toNat (client.decayAll amount interval times) now amount interval
      have hlast : client.decayAll amount interval (times ++ [now]) =
          (client.decayAll amount interval times).decay now amount interval := List.foldl_concat _ _ _ _
      rw [hlast, latest_append_singleton]
      constructor
      · rw [hscore', hscore, hanchor, Nat.sub_sub, ← Nat.mul_add, steps_advance hi]
      · rw [hanchor', hanchor, advance_advance hi]

/-- **Decay is path independent.** -/
theorem decayAll_path_independent (times : List UInt32) :
    (client.decayAll amount interval times).score.toNat =
        client.score.toNat -
          amount.toNat * ((client.latest times - client.decayAt.toNat) / max interval.toNat 1) ∧
      (client.decayAll amount interval times).decayAt.toNat =
        client.decayAt.toNat +
          max interval.toNat 1 * ((client.latest times - client.decayAt.toNat) / max interval.toNat 1) ∧
      (client.decayAll amount interval times).decayAt.toNat ≤ client.latest times ∧
      client.latest times < (client.decayAll amount interval times).decayAt.toNat + max interval.toNat 1 := by
  have hi : 0 < max interval.toNat 1 := Nat.le_max_right _ _
  have hm : max client.decayAt.toNat (client.latest times) = client.latest times :=
    Nat.max_eq_right (client.decayAt_le_latest times)
  obtain ⟨hscore, hanchor⟩ := client.decayAll_toNat amount interval times
  have hle := advance_le_max (max interval.toNat 1) client.decayAt.toNat (client.latest times)
  have hlt := max_lt_advance_add hi client.decayAt.toNat (client.latest times)
  rw [hm, ← hanchor] at hle hlt
  exact ⟨hscore, hanchor, hle, hlt⟩

end Bluefrog.Client
