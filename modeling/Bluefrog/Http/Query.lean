import Bluefrog.Http.Handler
import Mathlib.Data.List.TakeWhile
import Mathlib.Tactic.IntervalCases

/-!
What a query string means, apart from how the handler reads it: percent-encoding as a relation
between a spelling and the bytes it stands for, and a query as segments joined by ampersands. The
handler's readers are shown to read every such spelling.
-/

open Rust

namespace Bluefrog.Http

/-- The byte is a hexadecimal digit of either case. -/
inductive HexDigit : UInt8 → Nat → Prop
  | decimal {d : Nat} (h : d < 10) : HexDigit (UInt8.ofNat (48 + d)) d
  | lower {d : Nat} (h : d < 6) : HexDigit (UInt8.ofNat (97 + d)) (10 + d)
  | upper {d : Nat} (h : d < 6) : HexDigit (UInt8.ofNat (65 + d)) (10 + d)

/-- The first string is a percent-encoding of the second. Any byte may be escaped, with digits of
either case; a space may be a plus sign. -/
inductive PercentEncoding : List UInt8 → List UInt8 → Prop
  | nil : PercentEncoding [] []
  | plain {c : UInt8} {raw out : List UInt8} (hpercent : c ≠ 37) (hplus : c ≠ 43) (hamp : c ≠ 38)
      (h : PercentEncoding raw out) : PercentEncoding (c :: raw) (c :: out)
  | space {raw out : List UInt8} (h : PercentEncoding raw out) : PercentEncoding (43 :: raw) (32 :: out)
  | escape {hi lo : UInt8} {m n : Nat} {raw out : List UInt8} (hhi : HexDigit hi m) (hlo : HexDigit lo n)
      (h : PercentEncoding raw out) : PercentEncoding (37 :: hi :: lo :: raw) (UInt8.ofNat (16 * m + n) :: out)

/-- The first string spells the second. Any byte may be escaped, a space may be a plus sign, and every byte
but a percent sign and a plus sign may stand for itself. -/
inductive Spelling : List UInt8 → List UInt8 → Prop
  | nil : Spelling [] []
  | plain {c : UInt8} {raw out : List UInt8} (hpercent : c ≠ 37) (hplus : c ≠ 43) (h : Spelling raw out) :
      Spelling (c :: raw) (c :: out)
  | space {raw out : List UInt8} (h : Spelling raw out) : Spelling (43 :: raw) (32 :: out)
  | escape {hi lo : UInt8} {m n : Nat} {raw out : List UInt8} (hhi : HexDigit hi m) (hlo : HexDigit lo n)
      (h : Spelling raw out) : Spelling (37 :: hi :: lo :: raw) (UInt8.ofNat (16 * m + n) :: out)

theorem PercentEncoding.spelling {raw out : List UInt8} (h : PercentEncoding raw out) : Spelling raw out := by
  induction h with
  | nil => exact .nil
  | plain hpercent hplus _ _ ih => exact .plain hpercent hplus ih
  | space _ ih => exact .space ih
  | escape hhi hlo _ ih => exact .escape hhi hlo ih

/-- A string without bytes of a meaning of their own is its own encoding. -/
theorem PercentEncoding.self {s : List UInt8} (h : s.all (fun c => c != 37 && c != 43 && c != 38) = true) :
    PercentEncoding s s := by
  induction s with
  | nil => exact .nil
  | cons c s ih =>
      simp only [List.all_cons, Bool.and_eq_true, bne_iff_ne] at h
      exact .plain h.1.1.1 h.1.1.2 h.1.2 (ih h.2)

theorem HexDigit.lt {c : UInt8} {d : Nat} (h : HexDigit c d) : d < 16 := by
  cases h <;> omega

theorem HexDigit.hexVal_eq {c : UInt8} {d : Nat} (h : HexDigit c d) : hexVal c = some (UInt8.ofNat d) := by
  cases h with
  | decimal h => interval_cases d <;> rfl
  | @lower d h => interval_cases d <;> rfl
  | @upper d h => interval_cases d <;> rfl

theorem HexDigit.ne_amp {c : UInt8} {d : Nat} (h : HexDigit c d) : c ≠ 38 := by
  cases h with
  | decimal h => interval_cases d <;> decide
  | @lower d h => interval_cases d <;> decide
  | @upper d h => interval_cases d <;> decide

/-- Two digits, put together as the handler does. -/
theorem or_shift_digits {m n : Nat} (hm : m < 16) (hn : n < 16) :
    UInt8.ofNat m <<< 4 ||| UInt8.ofNat n = UInt8.ofNat (16 * m + n) := by
  have hall : ∀ m n : Fin 16, UInt8.ofNat m.val <<< 4 ||| UInt8.ofNat n.val = UInt8.ofNat (16 * m.val + n.val) := by
    decide
  exact hall ⟨m, hm⟩ ⟨n, hn⟩

theorem percentDecode_plain {c : UInt8} (hpercent : c ≠ 37) (hplus : c ≠ 43) (rest : List UInt8) :
    percentDecode (c :: rest) = (percentDecode rest).map fun out => c :: out := by
  rw [percentDecode.eq_def]
  simp only [if_neg hpercent, if_neg hplus]

theorem percentDecode_plus (rest : List UInt8) :
    percentDecode (43 :: rest) = (percentDecode rest).map fun out => 32 :: out := by
  rw [percentDecode.eq_def]
  simp only [if_neg (show (43 : UInt8) ≠ 37 by decide), if_true]

theorem percentDecode_percent (h l : UInt8) (rest : List UInt8) :
    percentDecode (37 :: h :: l :: rest) =
      (hexVal h).bind fun h => (hexVal l).bind fun l => (percentDecode rest).map fun out => (h <<< 4 ||| l) :: out := by
  rw [percentDecode, if_pos rfl]
  cases percentDecode rest <;> rfl

theorem percentDecode_escape {hi lo : UInt8} {m n : Nat} (hhi : HexDigit hi m) (hlo : HexDigit lo n)
    (rest : List UInt8) :
    percentDecode (37 :: hi :: lo :: rest) = (percentDecode rest).map fun out => UInt8.ofNat (16 * m + n) :: out := by
  rw [percentDecode_percent, hhi.hexVal_eq, hlo.hexVal_eq, Option.bind_some, Option.bind_some,
    or_shift_digits hhi.lt hlo.lt]

theorem Spelling.decode {raw b : List UInt8} (h : Spelling raw b) : percentDecode raw = some b := by
  induction h with
  | nil => rfl
  | plain hpercent hplus _ ih => rw [percentDecode_plain hpercent hplus, ih, Option.map_some]
  | space _ ih => rw [percentDecode_plus, ih, Option.map_some]
  | escape hhi hlo _ ih => rw [percentDecode_escape hhi hlo, ih, Option.map_some]

theorem Spelling.decodeHash {raw : List UInt8} {hash : InfoHash} (h : Spelling raw hash.toList) :
    decodeHash raw = some hash := by
  rw [Http.decodeHash, h.decode, Option.bind_some, toArray_toList]

theorem PercentEncoding.amp_notMem {raw out : List UInt8} (h : PercentEncoding raw out) : 38 ∉ raw := by
  induction h with
  | nil => exact List.not_mem_nil
  | plain _ _ hamp _ ih => exact List.not_mem_cons_of_ne_of_not_mem hamp.symm ih
  | space _ ih => exact List.not_mem_cons_of_ne_of_not_mem (by decide) ih
  | escape hhi hlo _ ih =>
      have hlow := List.not_mem_cons_of_ne_of_not_mem hlo.ne_amp.symm ih
      have hhigh := List.not_mem_cons_of_ne_of_not_mem hhi.ne_amp.symm hlow
      exact List.not_mem_cons_of_ne_of_not_mem (by decide) hhigh

theorem decodeHash_of_encoding {raw : List UInt8} {hash : InfoHash} (h : PercentEncoding raw hash.toList) :
    decodeHash raw = some hash := h.spelling.decodeHash

theorem amp_notMem_of_spells {raw : List UInt8} {n : Nat} (h : SpellsDecimal raw n) : 38 ∉ raw := by
  intro hmem
  exact absurd (h.2.1 38 hmem) (by decide)

/-- A query made of segments. -/
def joinSegments (segments : List (List UInt8)) : List UInt8 := [38].intercalate segments

/-- The pair a segment stands for. -/
def splitSegment (segment : List UInt8) : List UInt8 × List UInt8 := (splitOnce 61 segment).getD (segment, [])

/-- The segment of a named value. -/
def segmentOf (name raw : List UInt8) : List UInt8 := name ++ 61 :: raw

theorem splitSegment_segmentOf {name : List UInt8} (h : 61 ∉ name) (raw : List UInt8) :
    splitSegment (segmentOf name raw) = (name, raw) := by
  rw [splitSegment, segmentOf, splitOnce_append h, Option.getD_some]

theorem splitSegment_fst (s : List UInt8) : (splitSegment s).1 = s.takeWhile (· != 61) := by
  rw [splitSegment, splitOnce]
  split_ifs with h
  · rfl
  · refine (List.takeWhile_eq_self_iff.mpr fun c hc => bne_iff_ne.mpr ?_).symm
    rintro rfl
    exact h hc

theorem segmentOf_ne_nil (name raw : List UInt8) : segmentOf name raw ≠ [] :=
  List.append_ne_nil_of_right_ne_nil _ (List.cons_ne_nil _ _)

theorem splitOnce_target {path : List UInt8} (h : 63 ∉ path) (query : List UInt8) :
    splitOnce 63 (path ++ ascii "?" ++ query) = some (path, query) := by
  rw [List.append_assoc]
  exact splitOnce_append h query

/-- The handler sees the segments it was sent, but for the empty ones. -/
theorem queryPairs_joinSegments {segments : List (List UInt8)} (h : ∀ s ∈ segments, 38 ∉ s) :
    queryPairs (joinSegments segments) = (segments.filter fun s => s ≠ []).map splitSegment := by
  cases segments with
  | nil => rfl
  | cons s segments =>
      rw [queryPairs, joinSegments, List.splitOn_intercalate 38 h (List.cons_ne_nil _ _)]
      rfl

end Bluefrog.Http
