import Bluefrog.Lib.Text

/-!
The text exposition of metrics: two lines for each, its type and its sample. No name and no kind has a space or a
line break in it, so that what is written is read back.
-/

namespace Rust
namespace Exposition

/-- A word has no space and no line feed. -/
def IsWord (s : List UInt8) : Prop := (32 : UInt8) ∉ s ∧ (10 : UInt8) ∉ s

instance (s : List UInt8) : Decidable (IsWord s) := inferInstanceAs (Decidable (_ ∧ _))

/-- A metric: of what kind it is, its name, and its value. -/
structure Metric where
  kind : List UInt8
  name : List UInt8
  value : UInt64
  kind_word : IsWord kind
  name_word : IsWord name
  deriving DecidableEq

namespace Metric

def typeLine (m : Metric) : List UInt8 := ascii "# TYPE " ++ m.name ++ 32 :: m.kind

def sampleLine (m : Metric) : List UInt8 := m.name ++ 32 :: decimal m.value.toNat

end Metric

/-- Writes some metrics, every line with its line feed. -/
def write (metrics : List Metric) : List UInt8 :=
  metrics.flatMap fun m => m.typeLine ++ 10 :: (m.sampleLine ++ [10])

theorem write_append (a b : List Metric) : write (a ++ b) = write a ++ write b := List.flatMap_append

/-- The lines of a text, without their line feeds. -/
def linesOf : List UInt8 → List (List UInt8)
  | [] => []
  | c :: s =>
      if c = 10 then [] :: linesOf s
      else
        match linesOf s with
        | [] => [[c]]
        | line :: lines => (c :: line) :: lines

/-- The name and the kind in a line that gives a type. -/
def readType (line : List UInt8) : Option (List UInt8 × List UInt8) := do
  let (hash, line) ← splitOnce 32 line
  let (keyword, line) ← splitOnce 32 line
  if hash = ascii "#" ∧ keyword = ascii "TYPE" then splitOnce 32 line else none

/-- A metric from its two lines, which are to give one name. -/
def readMetric (typeLine sampleLine : List UInt8) : Option Metric := do
  let (name, kind) ← readType typeLine
  let (sampled, digits) ← splitOnce 32 sampleLine
  let value ← parseUnsigned (2 ^ 64) digits
  if h : sampled = name ∧ IsWord kind ∧ IsWord name then
    some ⟨kind, name, UInt64.ofNat value, h.2.1, h.2.2⟩
  else none

def readLines : List (List UInt8) → Option (List Metric)
  | [] => some []
  | [_] => none
  | typeLine :: sampleLine :: lines => do
      let m ← readMetric typeLine sampleLine
      let metrics ← readLines lines
      some (m :: metrics)

/-- Reads a text of metrics. -/
def read (s : List UInt8) : Option (List Metric) := readLines (linesOf s)

/-- A line that is written is a line that is read. -/
theorem linesOf_append {line : List UInt8} (h : (10 : UInt8) ∉ line) (s : List UInt8) :
    linesOf (line ++ 10 :: s) = line :: linesOf s := by
  induction line with
  | nil => rfl
  | cons c line ih =>
      rw [List.mem_cons, not_or] at h
      rw [List.cons_append, linesOf, if_neg (Ne.symm h.1), ih h.2]

theorem notMem_decimal {c : UInt8} (hc : isDigit c = false) (n : Nat) : c ∉ decimal n := by
  intro hmem
  rw [isDigit_of_mem_decimal c hmem] at hc
  cases hc

theorem spellsDecimal_decimal (n : Nat) : SpellsDecimal (decimal n) n :=
  ⟨decimal_ne_nil n, isDigit_of_mem_decimal, ofDecimal_decimal n⟩

theorem Metric.notMem_typeLine (m : Metric) : (10 : UInt8) ∉ m.typeLine := by
  have htype : (10 : UInt8) ∉ ascii "# TYPE " := by decide
  simp [typeLine, htype, m.kind_word.2, m.name_word.2]

theorem Metric.notMem_sampleLine (m : Metric) : (10 : UInt8) ∉ m.sampleLine := by
  simp [sampleLine, m.name_word.2, notMem_decimal (show isDigit 10 = false from rfl)]

theorem readType_typeLine (m : Metric) : readType m.typeLine = some (m.name, m.kind) := by
  have hline : m.typeLine = ascii "#" ++ 32 :: (ascii "TYPE" ++ 32 :: (m.name ++ 32 :: m.kind)) := rfl
  have hhash : (32 : UInt8) ∉ ascii "#" := by decide
  have hkeyword : (32 : UInt8) ∉ ascii "TYPE" := by decide
  rw [hline, readType, splitOnce_append hhash]
  simp only [Option.bind_eq_bind, Option.bind_some, splitOnce_append hkeyword, and_self, if_true]
  exact splitOnce_append m.name_word.1 m.kind

/-- A metric is read back from its two lines. -/
theorem readMetric_lines (m : Metric) : readMetric m.typeLine m.sampleLine = some m := by
  have hvalue := parseUnsigned_of_spells (spellsDecimal_decimal m.value.toNat) m.value.toNat_lt
  rw [readMetric, readType_typeLine, Metric.sampleLine, splitOnce_append m.name_word.1]
  simp only [Option.bind_eq_bind, Option.bind_some, hvalue]
  rw [dif_pos ⟨trivial, m.kind_word, m.name_word⟩, UInt64.ofNat_toNat]

/-- **What is written is read back.** -/
theorem read_write (metrics : List Metric) : read (write metrics) = some metrics := by
  induction metrics with
  | nil => rfl
  | cons m metrics ih =>
      have hlines : linesOf (write (m :: metrics)) = m.typeLine :: m.sampleLine :: linesOf (write metrics) := by
        rw [write, List.flatMap_cons, ← write, List.append_assoc, List.cons_append, linesOf_append m.notMem_typeLine,
          List.append_assoc, List.singleton_append, linesOf_append m.notMem_sampleLine]
      rw [read] at ih
      rw [read, hlines, readLines, readMetric_lines, ih]
      rfl

end Exposition
end Rust
