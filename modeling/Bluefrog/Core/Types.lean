import Bluefrog.Lib.Bytes

/-! The types every part of the tracker shares: info-hashes, peer ids, peer flags and announce events. -/

open Rust

namespace Bluefrog

/-- The length of an info-hash or peer id. -/
def hashLen : Nat := 20

abbrev InfoHash := Bytes hashLen

abbrev PeerId := Bytes hashLen

namespace Flag

/-- The peer has the complete torrent. -/
def seeding : UInt8 := 0x80

/-- The peer reported that it completed the torrent. -/
def completed : UInt8 := 0x40

/-- Whether a flag byte has a bit set. -/
def has (flags bit : UInt8) : Bool := flags &&& bit != 0

/-- Clearing the completed bit keeps the seeding bit. -/
theorem has_seeding_clear_completed (flags : UInt8) :
    has (flags &&& ~~~completed) seeding = has flags seeding := by
  rw [has, has, UInt8.and_assoc, show ~~~completed &&& seeding = seeding from rfl]

theorem has_or (a b bit : UInt8) : has (a ||| b) bit = (has a bit || has b bit) := by
  have hdistrib : (a ||| b) &&& bit = a &&& bit ||| b &&& bit := UInt8.toBitVec_inj.mp BitVec.and_or_distrib_right
  rw [Bool.eq_iff_iff, has, has, has, hdistrib]
  simp only [bne_iff_ne, Bool.or_eq_true, ne_eq, UInt8.or_eq_zero_iff, not_and_or]

theorem has_and_self (flags bit : UInt8) : has (flags &&& bit) bit = has flags bit := by
  rw [has, has, UInt8.and_assoc, UInt8.and_self]

theorem has_clear (flags bit : UInt8) : has (flags &&& ~~~bit) bit = false := by
  rw [has, UInt8.and_assoc, UInt8.not_and_self, UInt8.and_zero, bne_self_eq_false]

/-- Merging an old completed bit keeps the seeding bit. -/
theorem has_seeding_or_completed (flags old : UInt8) :
    has (flags ||| (old &&& completed)) seeding = has flags seeding := by
  have hzero : has (old &&& completed) seeding = false := by
    rw [has, UInt8.and_assoc, show completed &&& seeding = 0 from rfl, UInt8.and_zero, bne_self_eq_false]
  rw [has_or, hzero, Bool.or_false]

end Flag

/-- An announce event, as the tracker acts on it. `started` needs no accounting and is `none`. -/
inductive Event where
  | none
  | completed
  | stopped
  deriving DecidableEq, Repr

/-- Decodes the event field of a UDP announce. -/
def Event.fromUdp (code : UInt32) : Event :=
  if code = 1 then .completed else if code = 3 then .stopped else .none

end Bluefrog
