import Mathlib.Data.Nat.Digits.Defs

/-!
ASCII text as a Rust program handles it: byte strings, splitting at a separator, and decimals of the
unsigned integer types.
-/

namespace Rust

/-- The bytes of a string literal. -/
def ascii (s : String) : List UInt8 := s.toUTF8.data.toList

section Splitting

/-- `s.split_once(sep)`. -/
def splitOnce (sep : UInt8) (s : List UInt8) : Option (List UInt8 × List UInt8) :=
  if sep ∈ s then some (s.takeWhile (· != sep), (s.dropWhile (· != sep)).tail) else none

theorem splitOnce_append {sep : UInt8} {a : List UInt8} (h : sep ∉ a) (b : List UInt8) :
    splitOnce sep (a ++ sep :: b) = some (a, b) := by
  have hne : ∀ c ∈ a, (c != sep) = true := fun c hc => bne_iff_ne.mpr fun heq => h (heq ▸ hc)
  rw [splitOnce, if_pos (List.mem_append_right _ List.mem_cons_self), List.takeWhile_append_of_pos hne,
    List.dropWhile_append_of_pos hne]
  simp

end Splitting

section Decimal

def isDigit (c : UInt8) : Bool := decide (48 ≤ c.toNat) && decide (c.toNat ≤ 57)

/-- The number a string of digits spells. -/
def ofDecimal (s : List UInt8) : Nat := s.foldl (fun acc c => acc * 10 + (c.toNat - 48)) 0

/-- The string spells the number in decimal. Leading zeros are allowed. -/
def SpellsDecimal (s : List UInt8) (n : Nat) : Prop :=
  s ≠ [] ∧ (∀ c ∈ s, isDigit c = true) ∧ ofDecimal s = n

instance (s : List UInt8) (n : Nat) : Decidable (SpellsDecimal s n) :=
  decidable_of_iff (s ≠ [] ∧ s.all isDigit = true ∧ ofDecimal s = n) (by rw [List.all_eq_true, SpellsDecimal])

/-- `s.parse()` at an unsigned type with values below `bound`: digits after an optional plus sign. -/
def parseUnsigned (bound : Nat) (s : List UInt8) : Option Nat :=
  let digits := if s.head? = some 43 then s.tail else s
  if digits ≠ [] ∧ digits.all isDigit = true ∧ ofDecimal digits < bound then some (ofDecimal digits) else none

theorem parseUnsigned_of_spells {bound n : Nat} {s : List UInt8} (h : SpellsDecimal s n) (hn : n < bound) :
    parseUnsigned bound s = some n := by
  obtain ⟨hne, hdigits, hval⟩ := h
  have hhead : s.head? ≠ some 43 := by
    intro hplus
    have hmem := List.mem_of_mem_head? hplus
    exact absurd (hdigits 43 hmem) (by decide)
  rw [parseUnsigned, if_neg hhead]
  rw [if_pos ⟨hne, List.all_eq_true.mpr hdigits, by rw [hval]; exact hn⟩, hval]

/-- The canonical decimal of a number. -/
def decimal (n : Nat) : List UInt8 :=
  if n = 0 then [48] else (Nat.digits 10 n).reverse.map fun d => UInt8.ofNat (48 + d)

theorem toNat_ofNat_digit {d : Nat} (h : d < 10) : (UInt8.ofNat (48 + d)).toNat = 48 + d :=
  UInt8.toNat_ofNat_of_lt' (by change _ < 2 ^ 8; omega)

theorem isDigit_of_mem_decimal {n : Nat} : ∀ c ∈ decimal n, isDigit c = true := by
  intro c hc
  unfold decimal at hc
  split_ifs at hc with hn
  · rw [List.mem_singleton.mp hc]
    rfl
  · obtain ⟨d, hd, rfl⟩ := List.mem_map.mp hc
    have hlt : d < 10 := Nat.digits_lt_base (by decide) (List.mem_reverse.mp hd)
    rw [isDigit, toNat_ofNat_digit hlt, Bool.and_eq_true, decide_eq_true_eq, decide_eq_true_eq]
    omega

theorem decimal_ne_nil (n : Nat) : decimal n ≠ [] := by
  unfold decimal
  split_ifs with hn
  · exact List.cons_ne_nil _ _
  · rw [Ne, List.map_eq_nil_iff, List.reverse_eq_nil_iff]
    exact Nat.digits_ne_nil_iff_ne_zero.mpr hn

theorem ofDecimal_decimal (n : Nat) : ofDecimal (decimal n) = n := by
  unfold decimal
  split_ifs with hn
  · rw [hn]
    rfl
  · have hdigits : ∀ d ∈ Nat.digits 10 n, (UInt8.ofNat (48 + d)).toNat - 48 = d := by
      intro d hd
      rw [toNat_ofNat_digit (Nat.digits_lt_base (by decide) hd), Nat.add_sub_cancel_left]
    have hfold : ∀ l : List Nat, (∀ d ∈ l, (UInt8.ofNat (48 + d)).toNat - 48 = d) →
        ofDecimal (l.reverse.map fun d => UInt8.ofNat (48 + d)) = Nat.ofDigits 10 l := by
      intro l hl
      induction l with
      | nil => rfl
      | cons d l ih =>
          rw [Nat.ofDigits_cons, ← ih fun d' hd' => hl d' (List.mem_cons_of_mem _ hd'), ofDecimal, List.reverse_cons,
            List.map_append, List.foldl_append, ← ofDecimal]
          simp only [List.map_cons, List.map_nil, List.foldl_cons, List.foldl_nil, hl d List.mem_cons_self]
          rw [Nat.mul_comm, Nat.add_comm]
    rw [hfold _ hdigits, Nat.ofDigits_digits]

/-- Reads the digits at the start of a string. -/
def readDecimal (s : List UInt8) : Option (Nat × List UInt8) :=
  if s.takeWhile isDigit = [] then none else some (ofDecimal (s.takeWhile isDigit), s.dropWhile isDigit)

theorem readDecimal_append (n : Nat) {c : UInt8} (hc : isDigit c = false) (rest : List UInt8) :
    readDecimal (decimal n ++ c :: rest) = some (n, c :: rest) := by
  have htake : (decimal n ++ c :: rest).takeWhile isDigit = decimal n := by
    rw [List.takeWhile_append_of_pos isDigit_of_mem_decimal, List.takeWhile_cons_of_neg (by simp [hc]),
      List.append_nil]
  have hdrop : (decimal n ++ c :: rest).dropWhile isDigit = c :: rest := by
    rw [List.dropWhile_append_of_pos isDigit_of_mem_decimal, List.dropWhile_cons_of_neg (by simp [hc])]
  rw [readDecimal, htake, if_neg (decimal_ne_nil n), hdrop, ofDecimal_decimal]

end Decimal
end Rust
