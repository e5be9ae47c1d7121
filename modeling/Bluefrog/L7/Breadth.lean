import Bluefrog.L7.Client
import Mathlib.Data.Finset.Card

/-!
The breadth fingerprint is a set of buckets. Folding a torrent in adds its bucket, and the population
count is the size of the set.
-/

open Rust

namespace Bluefrog

/-- The bucket of an info-hash. -/
def bucket (hash : InfoHash) : Nat := (breadthBit hash).toNat

theorem bucket_lt (hash : InfoHash) : bucket hash < 64 := by
  rw [bucket, breadthBit, UInt64.toNat_toUInt32, UInt64.toNat_shiftRight, Nat.shiftRight_eq_div_pow]
  refine Nat.lt_of_le_of_lt (Nat.mod_le _ _) (Nat.div_lt_of_lt_mul ?_)
  exact UInt64.toNat_lt _

/-- The buckets of some torrents. -/
def buckets (hashes : List InfoHash) : Finset Nat := (hashes.map bucket).toFinset

/-- The bits of a fingerprint are the buckets. -/
def Fingerprints (breadth : UInt64) (hashes : List InfoHash) : Prop :=
  ∀ i, breadth.toNat.testBit i = true ↔ i ∈ buckets hashes

theorem fingerprints_nil : Fingerprints 0 [] := fun i => by
  rw [UInt64.toNat_zero, Nat.zero_testBit]
  exact iff_of_false Bool.false_ne_true (Finset.notMem_empty i)

/-- The bit of a bucket. -/
theorem testBit_shift (hash : InfoHash) (i : Nat) :
    ((1 : UInt64) <<< (breadthBit hash).toUInt64).toNat.testBit i = decide (bucket hash = i) := by
  have hlt := bucket_lt hash
  have hshift : ((1 : UInt64) <<< (breadthBit hash).toUInt64).toNat = 2 ^ bucket hash := by
    rw [UInt64.toNat_shiftLeft, UInt32.toNat_toUInt64, UInt64.toNat_one, Nat.shiftLeft_eq, Nat.one_mul]
    rw [bucket] at hlt ⊢
    rw [Nat.mod_eq_of_lt hlt, Nat.mod_eq_of_lt (Nat.pow_lt_pow_right (by decide) hlt)]
  rw [hshift, Nat.testBit_two_pow]

/-- Folding a torrent in adds its bucket. -/
theorem Fingerprints.widen {client : Client} {hashes : List InfoHash} (h : Fingerprints client.breadth hashes)
    (hash : InfoHash) : Fingerprints (client.widen hash).breadth (hashes ++ [hash]) := by
  intro i
  rw [Client.widen, UInt64.toNat_or, Nat.testBit_or, testBit_shift, Bool.or_eq_true, h i, decide_eq_true_eq]
  simp only [buckets, List.mem_toFinset, List.map_append, List.mem_append, List.map_singleton, List.mem_singleton,
    eq_comm]

/-- **The population count is the number of buckets.** -/
theorem Fingerprints.countOnes {breadth : UInt64} {hashes : List InfoHash} (h : Fingerprints breadth hashes) :
    (countOnes breadth).toNat = (buckets hashes).card := by
  have hset : ((List.range 64).filter fun i => breadth.toNat.testBit i).toFinset = buckets hashes := by
    ext i
    rw [List.mem_toFinset, List.mem_filter, h i, List.mem_range, and_iff_right_iff_imp]
    intro hi
    obtain ⟨hash, -, rfl⟩ := List.mem_map.mp (List.mem_toFinset.mp hi)
    exact bucket_lt hash
  have hcard : (List.range 64).countP (fun i => breadth.toNat.testBit i) = (buckets hashes).card := by
    rw [← hset, List.toFinset_card_of_nodup (List.nodup_range.filter _), List.countP_eq_length_filter]
  have hle : (List.range 64).countP (fun i => breadth.toNat.testBit i) ≤ 64 := List.countP_le_length
  rw [Bluefrog.countOnes, UInt32.toNat_ofNat_of_lt' (by change _ < 2 ^ 32; omega), hcard]

end Bluefrog
