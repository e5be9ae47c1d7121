import Bluefrog.Lib.Bytes

/-!
Wire formats. A format writes a value and reads it back from the front of a buffer, and it reads nothing that it
would not have written. Formats in a row make a format, and a format over and over makes one of a whole buffer.
The second part writes fields into a buffer that is there, one after the other.
-/

namespace Rust
namespace Wire

/-- A format of values at the front of a buffer. -/
structure Format (α : Type) where
  write : α → List UInt8
  read : List UInt8 → Option (α × List UInt8)
  read_iff : ∀ b x rest, read b = some (x, rest) ↔ b = write x ++ rest

/-- A format of values that take up a whole buffer. -/
structure Whole (α : Type) where
  write : α → List UInt8
  read : List UInt8 → Option α
  read_iff : ∀ b x, read b = some x ↔ b = write x

variable {α β : Type}

theorem Format.read_write (f : Format α) (x : α) (rest : List UInt8) : f.read (f.write x ++ rest) = some (x, rest) :=
  (f.read_iff _ x rest).mpr rfl

theorem Whole.read_write (f : Whole α) (x : α) : f.read (f.write x) = some x := (f.read_iff _ x).mpr rfl

/-- Reads a number of bytes and what they spell. -/
def readBytes (w : Nat) (spell : List UInt8 → α) (b : List UInt8) : Option (α × List UInt8) :=
  if w ≤ b.length then some (spell (b.take w), b.drop w) else none

theorem readBytes_iff {w : Nat} {spell : List UInt8 → α} {write : α → List UInt8} (hlen : ∀ x, (write x).length = w)
    (hspell : ∀ x, spell (write x) = x) (hwrite : ∀ b, b.length = w → write (spell b) = b) (b : List UInt8) (x : α)
    (rest : List UInt8) : readBytes w spell b = some (x, rest) ↔ b = write x ++ rest := by
  unfold readBytes
  constructor
  · intro h
    split_ifs at h with hle
    cases h
    rw [hwrite _ (List.length_take_of_le hle), List.take_append_drop]
  · rintro rfl
    rw [if_pos (by rw [List.length_append, hlen]; omega), List.take_left' (hlen x), List.drop_left' (hlen x), hspell]

namespace Format

def be32 : Format UInt32 where
  write := toBe32
  read := readBytes 4 fun b => UInt32.ofNat (beNat b)
  read_iff := readBytes_iff length_toBe32 ofNat_beNat_toBe32 fun _ => toBe32_ofNat_beNat

def be64 : Format UInt64 where
  write := toBe64
  read := readBytes 8 fun b => UInt64.ofNat (beNat b)
  read_iff := readBytes_iff length_toBe64 ofNat_beNat_toBe64 fun _ => toBe64_ofNat_beNat

/-- One format after another. -/
def pair (f : Format α) (g : Format β) : Format (α × β) where
  write x := f.write x.1 ++ g.write x.2
  read b := do
    let (x, b) ← f.read b
    let (y, b) ← g.read b
    some ((x, y), b)
  read_iff b z rest := by
    obtain ⟨x, y⟩ := z
    simp only [Option.bind_eq_bind, Option.bind_eq_some_iff, Prod.exists, Option.some.injEq, Prod.mk.injEq]
    constructor
    · rintro ⟨x', b', hf, y', rest', hg, ⟨rfl, rfl⟩, rfl⟩
      rw [(f.read_iff _ _ _).mp hf, (g.read_iff _ _ _).mp hg, List.append_assoc]
    · rintro rfl
      exact ⟨x, g.write y ++ rest, by rw [List.append_assoc, f.read_write], y, rest, g.read_write y rest, ⟨rfl, rfl⟩,
        rfl⟩

end Format

namespace Whole

/-- Any bytes. -/
def bytes : Whole (List UInt8) where
  write b := b
  read := some
  read_iff b x := by rw [Option.some.injEq]

/-- A format, and a format of what is left. -/
def cons (f : Format α) (g : Whole β) : Whole (α × β) where
  write x := f.write x.1 ++ g.write x.2
  read b := do
    let (x, b) ← f.read b
    let y ← g.read b
    some (x, y)
  read_iff b z := by
    obtain ⟨x, y⟩ := z
    simp only [Option.bind_eq_bind, Option.bind_eq_some_iff, Prod.exists, Option.some.injEq, Prod.mk.injEq]
    constructor
    · rintro ⟨x', b', hf, y', hg, rfl, rfl⟩
      rw [(f.read_iff _ _ _).mp hf, (g.read_iff _ _).mp hg]
    · rintro rfl
      exact ⟨x, g.write y, f.read_write x _, y, g.read_write y, rfl, rfl⟩

/-- A format with nothing left. -/
def single (f : Format α) : Whole α where
  write := f.write
  read b :=
    match f.read b with
    | some (x, []) => some x
    | _ => none
  read_iff b x := by
    constructor
    · intro h
      split at h
      · rename_i y hread
        cases h
        rw [(f.read_iff _ _ _).mp hread, List.append_nil]
      · cases h
    · rintro rfl
      have hread := f.read_write x []
      rw [List.append_nil] at hread
      simp only [hread]

/-- Reads a format over and over, as long as there is fuel. -/
def readMany (f : Format α) : Nat → List UInt8 → Option (List α)
  | _, [] => some []
  | 0, _ => none
  | fuel + 1, b => do
      let (x, b) ← f.read b
      let xs ← readMany f fuel b
      some (x :: xs)

theorem readMany_nil_iff {f : Format α} (hne : ∀ x, f.write x ≠ []) (fuel : Nat) (xs : List α) :
    readMany f fuel [] = some xs ↔ [] = xs.flatMap f.write := by
  have hread : readMany f fuel [] = some [] := by cases fuel <;> rfl
  rw [hread, Option.some.injEq]
  cases xs with
  | nil => exact ⟨fun _ => rfl, fun _ => rfl⟩
  | cons x xs => simp [hne x]

/-- A buffer that there is fuel for is read if it is of whole values. -/
theorem readMany_iff {f : Format α} (hne : ∀ x, f.write x ≠ []) (fuel : Nat) {b : List UInt8} (hfuel : b.length ≤ fuel)
    (xs : List α) : readMany f fuel b = some xs ↔ b = xs.flatMap f.write := by
  induction fuel generalizing b xs with
  | zero =>
      cases List.length_eq_zero_iff.mp (Nat.le_zero.mp hfuel)
      exact readMany_nil_iff hne 0 xs
  | succ fuel ih =>
      have hshorter : ∀ x rest, b = f.write x ++ rest → rest.length ≤ fuel := by
        rintro x rest rfl
        have hpos := List.length_pos_iff.mpr (hne x)
        rw [List.length_append] at hfuel
        omega
      cases b with
      | nil => exact readMany_nil_iff hne (fuel + 1) xs
      | cons c b =>
          simp only [readMany, Option.bind_eq_bind, Option.bind_eq_some_iff, Prod.exists, Option.some.injEq]
          constructor
          · rintro ⟨x, rest, hread, xs', hmany, rfl⟩
            have hb := (f.read_iff _ _ _).mp hread
            rw [hb, (ih (hshorter x rest hb) xs').mp hmany, List.flatMap_cons]
          · intro hb
            cases xs with
            | nil => cases hb
            | cons x xs =>
                rw [List.flatMap_cons] at hb
                exact ⟨x, xs.flatMap f.write, by rw [hb, f.read_write], xs, (ih (hshorter x _ hb) xs).mpr rfl, rfl⟩

/-- A format over and over. -/
def many (f : Format α) (hne : ∀ x, f.write x ≠ []) : Whole (List α) where
  write xs := xs.flatMap f.write
  read b := readMany f b.length b
  read_iff b xs := readMany_iff hne b.length (Nat.le_refl _) xs

end Whole

section Fields

/-- Copies fields into a buffer one after the other, from an offset on. -/
def copyFields : List (List UInt8) → List UInt8 × Nat → Option (List UInt8 × Nat)
  | [], acc => some acc
  | field :: fields, (out, off) => do
      let out ← copyFromSlice out off (off + field.length) field
      copyFields fields (out, off + field.length)

/-- The fields are written where they fit, and the bytes around them stay. -/
theorem copyFields_eq (fields : List (List UInt8)) (pre old : List UInt8) :
    copyFields fields (pre ++ old, pre.length) =
      if fields.flatten.length ≤ old.length then
        some (pre ++ fields.flatten ++ old.drop fields.flatten.length, pre.length + fields.flatten.length)
      else none := by
  induction fields generalizing pre old with
  | nil => simp [copyFields]
  | cons field fields ih =>
      rw [copyFields, List.flatten_cons, List.length_append]
      by_cases hfit : field.length ≤ old.length
      · have hnext := ih (pre ++ field) (old.drop field.length)
        rw [List.length_append, List.length_drop] at hnext
        rw [copyFromSlice_front rfl rfl hfit, Option.bind_eq_bind, Option.bind_some, hnext, List.drop_drop]
        by_cases hrest : field.length + fields.flatten.length ≤ old.length
        · rw [if_pos (by omega), if_pos hrest]
          simp only [List.append_assoc, Nat.add_assoc]
        · rw [if_neg (by omega), if_neg hrest]
      · rw [copyFromSlice, if_neg (by rw [List.length_append]; omega), if_neg (by omega)]
        rfl

end Fields

end Wire
end Rust
