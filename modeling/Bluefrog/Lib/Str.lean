import Mathlib.Data.List.DropRight
import Mathlib.Data.List.Forall2

/-!
Unicode text as a Rust program handles it: lists of scalar values, with whitespace, lines and splitting.
-/

namespace Rust

abbrev Str := List Char

/-- The text of a string literal. -/
def str (s : String) : Str := s.toList

/-- `s.as_bytes()`. -/
def Str.asBytes (s : Str) : List UInt8 := s.flatMap String.utf8EncodeChar

section Trimming

/-- `c.is_whitespace()`: the characters with the Unicode property `White_Space`. -/
def isWhitespace (c : Char) : Bool :=
  let n := c.toNat
  (9 ≤ n && n ≤ 13) || n == 0x20 || n == 0x85 || n == 0xa0 || n == 0x1680 || (0x2000 ≤ n && n ≤ 0x200a) ||
    n == 0x2028 || n == 0x2029 || n == 0x202f || n == 0x205f || n == 0x3000

def trimStart (s : Str) : Str := s.dropWhile isWhitespace

def trimEnd (s : Str) : Str := s.rdropWhile isWhitespace

def trim (s : Str) : Str := trimEnd (trimStart s)

/-- `s.split_once(char::is_whitespace)`. -/
def splitOnceWhitespace (s : Str) : Option (Str × Str) :=
  if s.any isWhitespace then
    some (s.takeWhile fun c => !isWhitespace c, (s.dropWhile fun c => !isWhitespace c).tail)
  else none

/-- `s.split_whitespace()`. -/
def splitWhitespace (s : Str) : List Str := (s.splitOnP isWhitespace).filter fun w => w ≠ []

end Trimming

section Lines

/-- `s.split_inclusive('\n')`. -/
def splitInclusive : Str → List Str
  | [] => []
  | c :: s =>
      if c = '\n' then [c] :: splitInclusive s
      else
        match splitInclusive s with
        | [] => [[c]]
        | line :: rest => (c :: line) :: rest

/-- A line without its line ending, `\n` or `\r\n`. -/
def stripLineEnd (line : Str) : Str :=
  if line.getLast? = some '\n' then
    if line.dropLast.getLast? = some '\r' then line.dropLast.dropLast else line.dropLast
  else line

/-- `s.lines()`. -/
def lines (s : Str) : List Str := (splitInclusive s).map stripLineEnd

end Lines

section Trimming

theorem trimStart_append {s : Str} (h : trimStart s ≠ []) (t : Str) : trimStart (s ++ t) = trimStart s ++ t := by
  rw [trimStart, List.dropWhile_append]
  exact if_neg (by rwa [List.isEmpty_iff])

theorem trimEnd_append {t : Str} (h : trimEnd t ≠ []) (s : Str) : trimEnd (s ++ t) = s ++ trimEnd t := by
  simp only [trimEnd, List.rdropWhile] at h ⊢
  rw [Ne, List.reverse_eq_nil_iff] at h
  rw [List.reverse_append, List.dropWhile_append, if_neg (by rwa [List.isEmpty_iff]), List.reverse_append,
    List.reverse_reverse]

theorem trimEnd_append_whitespace (s : Str) {w : Str} (h : ∀ c ∈ w, isWhitespace c = true) :
    trimEnd (s ++ w) = trimEnd s := by
  simp only [trimEnd, List.rdropWhile]
  rw [List.reverse_append, List.dropWhile_append_of_pos fun c hc => h c (List.mem_reverse.mp hc)]

theorem trimEnd_cons {c : Char} (h : isWhitespace c = false) (s : Str) : trimEnd (c :: s) = c :: trimEnd s := by
  have hsingle : trimEnd [c] = [c] := (List.rdropWhile_singleton _ _).trans (if_neg (by rw [h]; decide))
  by_cases hs : trimEnd s = []
  · have hws : ∀ d ∈ s, isWhitespace d = true := List.rdropWhile_eq_nil_iff.mp hs
    rw [hs, ← List.singleton_append, trimEnd_append_whitespace [c] hws, hsingle]
  · rw [← List.singleton_append, trimEnd_append hs, List.singleton_append]

theorem trimStart_eq_nil_iff {s : Str} : trimStart s = [] ↔ ∀ c ∈ s, isWhitespace c = true :=
  List.dropWhile_eq_nil_iff

/-- What trimming the end drops is whitespace. -/
theorem exists_trimEnd_append (s : Str) : ∃ w, s = trimEnd s ++ w ∧ ∀ c ∈ w, isWhitespace c = true :=
  ⟨s.rtakeWhile isWhitespace, (List.rdropWhile_append_rtakeWhile).symm, fun _ hc => List.mem_rtakeWhile_imp hc⟩

theorem trim_append_whitespace (s : Str) {w : Str} (h : ∀ c ∈ w, isWhitespace c = true) : trim (s ++ w) = trim s := by
  by_cases hs : trimStart s = []
  · have hall : trimStart (s ++ w) = [] := by
      rw [trimStart_eq_nil_iff] at hs ⊢
      exact fun c hc => (List.mem_append.mp hc).elim (hs c) (h c)
    rw [trim, hall, trim, hs]
  · rw [trim, trimStart_append hs, trimEnd_append_whitespace _ h, trim]

theorem trim_whitespace_append {w : Str} (h : ∀ c ∈ w, isWhitespace c = true) (s : Str) : trim (w ++ s) = trim s := by
  rw [trim, trimStart, List.dropWhile_append_of_pos h, trim, trimStart]

theorem trim_cons {c : Char} (h : isWhitespace c = false) (s : Str) : trim (c :: s) = c :: trimEnd s := by
  rw [trim, trimStart, List.dropWhile_cons_of_neg (by rw [h]; decide), trimEnd_cons h]

/-- A text with more text after some whitespace: the front is trimmed on its own, up to whitespace. -/
theorem trim_append_cons (s : Str) {w : Str} (hw : ∀ c ∈ w, isWhitespace c = true) {d : Char}
    (hd : isWhitespace d = false) (t : Str) : ∃ w', (∀ c ∈ w', isWhitespace c = true) ∧
      (trim s ≠ [] → w ≠ [] → w' ≠ []) ∧ trim (s ++ w ++ d :: t) = trim s ++ w' ++ d :: trimEnd t := by
  have hend : trimEnd (d :: t) ≠ [] := by
    rw [trimEnd_cons hd]
    exact List.cons_ne_nil _ _
  by_cases hs : trimStart s = []
  · have hall : ∀ c ∈ s ++ w, isWhitespace c = true :=
      fun c hc => (List.mem_append.mp hc).elim (trimStart_eq_nil_iff.mp hs c) (hw c)
    have hnil : trim s = [] := by rw [trim, hs]; rfl
    refine ⟨[], fun c hc => absurd hc List.not_mem_nil, fun hne => absurd hnil hne, ?_⟩
    have hfront : trimStart (s ++ w ++ d :: t) = d :: t := by
      rw [trimStart, List.dropWhile_append_of_pos hall, List.dropWhile_cons_of_neg (by rw [hd]; decide)]
    rw [trim, hfront, trimEnd_cons hd, hnil, List.nil_append, List.nil_append]
  · obtain ⟨w₀, hw₀, hws₀⟩ := exists_trimEnd_append (trimStart s)
    refine ⟨w₀ ++ w, fun c hc => (List.mem_append.mp hc).elim (hws₀ c) (hw c), fun _ hne => ?_, ?_⟩
    · exact fun hnil => hne (List.append_eq_nil_iff.mp hnil).2
    · calc trim (s ++ w ++ d :: t)
          = trimEnd (trimStart s ++ w ++ d :: t) := by
            rw [trim, List.append_assoc, trimStart_append hs, List.append_assoc]
        _ = trimStart s ++ w ++ d :: trimEnd t := by rw [trimEnd_append hend, trimEnd_cons hd]
        _ = trim s ++ (w₀ ++ w) ++ d :: trimEnd t := by
            rw [trim, ← List.append_assoc, ← hw₀]

/-- Trimming drops no character that is not whitespace. -/
theorem count_trim {d : Char} (hd : isWhitespace d = false) (s : Str) : (trim s).count d = s.count d := by
  have hnone : ∀ w : Str, (∀ c ∈ w, isWhitespace c = true) → w.count d = 0 := by
    intro w hw
    refine List.count_eq_zero_of_not_mem fun hmem => ?_
    rw [hw d hmem] at hd
    cases hd
  obtain ⟨w, hw, hws⟩ := exists_trimEnd_append (trimStart s)
  have htake : (s.takeWhile isWhitespace).count d = 0 := hnone _ fun c hc => List.mem_takeWhile_imp hc
  calc (trim s).count d
      = (trimEnd (trimStart s) ++ w).count d := by rw [List.count_append, hnone w hws, Nat.add_zero, trim]
    _ = (s.takeWhile isWhitespace ++ s.dropWhile isWhitespace).count d := by
        rw [← hw, List.count_append, htake, Nat.zero_add, trimStart]
    _ = s.count d := by rw [List.takeWhile_append_dropWhile]

/-- The first whitespace of a text. -/
theorem exists_first_whitespace {s : Str} (h : s.any isWhitespace = true) :
    ∃ k x v, s = k ++ x :: v ∧ (∀ c ∈ k, isWhitespace c = false) ∧ isWhitespace x = true := by
  induction s with
  | nil => cases h
  | cons c s ih =>
      cases hc : isWhitespace c with
      | true => exact ⟨[], c, s, rfl, fun d hd => absurd hd List.not_mem_nil, hc⟩
      | false =>
          rw [List.any_cons, hc, Bool.false_or] at h
          obtain ⟨k, x, v, rfl, hk, hx⟩ := ih h
          refine ⟨c :: k, x, v, rfl, fun d hd => ?_, hx⟩
          rcases List.mem_cons.mp hd with rfl | hd
          · exact hc
          · exact hk d hd

theorem splitOnceWhitespace_append {k : Str} (hk : ∀ c ∈ k, isWhitespace c = false) {x : Char}
    (hx : isWhitespace x = true) (v : Str) : splitOnceWhitespace (k ++ x :: v) = some (k, v) := by
  have hstop : ∀ c ∈ k, (!isWhitespace c) = true := fun c hc => by rw [hk c hc]; rfl
  have hany : (k ++ x :: v).any isWhitespace = true :=
    List.any_eq_true.mpr ⟨x, List.mem_append_right _ List.mem_cons_self, hx⟩
  rw [splitOnceWhitespace, if_pos hany, List.takeWhile_append_of_pos hstop, List.dropWhile_append_of_pos hstop,
    List.takeWhile_cons_of_neg (by rw [hx]; decide), List.dropWhile_cons_of_neg (by rw [hx]; decide), List.append_nil]
  rfl

/-- Splitting at a separator drops no other character. -/
theorem count_flatten_splitOn {d sep : Char} (h : d ≠ sep) (s : Str) : (s.splitOn sep).flatten.count d = s.count d := by
  induction s with
  | nil => rfl
  | cons c s ih =>
      rw [List.splitOn_cons_eq_if_modifyHead]
      split_ifs with hc
      · rw [List.flatten_cons, List.nil_append, ih, List.count_cons_of_ne]
        exact fun heq => h (heq.symm.trans (eq_of_beq hc))
      · cases hsplit : s.splitOn sep with
        | nil => exact absurd hsplit (List.splitOn_ne_nil sep s)
        | cons part parts =>
            rw [hsplit] at ih
            rw [List.modifyHead_cons, List.flatten_cons, List.cons_append, ← List.flatten_cons, List.count_cons, ih,
              List.count_cons]

end Trimming

section Lines

theorem splitInclusive_ne_nil {s : Str} (h : s ≠ []) : splitInclusive s ≠ [] := by
  cases s with
  | nil => exact absurd rfl h
  | cons c s =>
      unfold splitInclusive
      split_ifs
      · exact List.cons_ne_nil _ _
      · cases splitInclusive s <;> exact List.cons_ne_nil _ _

theorem splitInclusive_append_newline (a b : Str) :
    splitInclusive (a ++ '\n' :: b) = splitInclusive (a ++ ['\n']) ++ splitInclusive b := by
  induction a with
  | nil => rfl
  | cons c a ih =>
      rw [List.cons_append, List.cons_append, splitInclusive, splitInclusive, ih]
      split_ifs with hc
      · rfl
      · cases hsplit : splitInclusive (a ++ ['\n']) with
        | nil =>
            have hne : a ++ ['\n'] ≠ [] := List.append_ne_nil_of_right_ne_nil _ (List.cons_ne_nil _ _)
            exact absurd hsplit (splitInclusive_ne_nil hne)
        | cons line rest => rfl

theorem splitInclusive_of_notMem {line : Str} (hne : line ≠ []) (h : '\n' ∉ line) : splitInclusive line = [line] := by
  induction line with
  | nil => exact absurd rfl hne
  | cons c line ih =>
      rw [List.mem_cons, not_or] at h
      rw [splitInclusive, if_neg (Ne.symm h.1)]
      by_cases hline : line = []
      · rw [hline]
        rfl
      · rw [ih hline h.2]

theorem splitInclusive_of_notMem_newline {line : Str} (h : '\n' ∉ line) :
    splitInclusive (line ++ ['\n']) = [line ++ ['\n']] := by
  induction line with
  | nil => rfl
  | cons c line ih =>
      rw [List.mem_cons, not_or] at h
      rw [List.cons_append, splitInclusive, if_neg (Ne.symm h.1), ih h.2]

/-- The ending of a line is whitespace. -/
theorem exists_stripLineEnd_append (line : Str) :
    ∃ w, line = stripLineEnd line ++ w ∧ ∀ c ∈ w, isWhitespace c = true := by
  unfold stripLineEnd
  split_ifs with hn hr
  · refine ⟨['\r', '\n'], ?_, List.all_eq_true.mp rfl⟩
    calc line = line.dropLast ++ ['\n'] := (List.dropLast_append_getLast? _ hn).symm
      _ = line.dropLast.dropLast ++ ['\r'] ++ ['\n'] := by rw [List.dropLast_append_getLast? _ hr]
      _ = line.dropLast.dropLast ++ ['\r', '\n'] := by rw [List.append_assoc, List.singleton_append]
  · exact ⟨['\n'], (List.dropLast_append_getLast? _ hn).symm, List.all_eq_true.mp rfl⟩
  · exact ⟨[], (List.append_nil _).symm, fun c hc => absurd hc List.not_mem_nil⟩

theorem trim_stripLineEnd (line : Str) : trim (stripLineEnd line) = trim line := by
  obtain ⟨w, hline, hw⟩ := exists_stripLineEnd_append line
  calc trim (stripLineEnd line) = trim (stripLineEnd line ++ w) := (trim_append_whitespace _ hw).symm
    _ = trim line := by rw [← hline]

/-- The string ends a line: it is empty, or starts with a line ending. -/
def EndsLine (rest : Str) : Prop := rest = [] ∨ ∃ later, rest = '\n' :: later ∨ rest = '\r' :: '\n' :: later

/-- The string is made of whole lines. -/
def WholeLines (pre : Str) : Prop := pre = [] ∨ ∃ front, pre = front ++ ['\n']

theorem lines_append {pre : Str} (h : WholeLines pre) (s : Str) : lines (pre ++ s) = lines pre ++ lines s := by
  rcases h with rfl | ⟨front, rfl⟩
  · rfl
  · rw [lines, List.append_assoc, List.singleton_append, splitInclusive_append_newline, List.map_append]
    rfl

/-- The first line of a text. -/
theorem lines_of_endsLine {line rest : Str} (hne : line ≠ []) (hline : '\n' ∉ line) (hrest : EndsLine rest) :
    ∃ first, lines (line ++ rest) = first :: (lines rest).tail ∧ trim first = trim line := by
  rcases hrest with rfl | ⟨later, rfl | rfl⟩
  · refine ⟨stripLineEnd line, ?_, trim_stripLineEnd line⟩
    rw [List.append_nil, lines, splitInclusive_of_notMem hne hline]
    rfl
  · refine ⟨stripLineEnd (line ++ ['\n']), ?_, ?_⟩
    · rw [lines, splitInclusive_append_newline, splitInclusive_of_notMem_newline hline]
      rfl
    · rw [trim_stripLineEnd, trim_append_whitespace _ (List.all_eq_true.mp rfl)]
  · have hcr : '\n' ∉ line ++ ['\r'] := by
      rw [List.mem_append, not_or]
      exact ⟨hline, by decide⟩
    refine ⟨stripLineEnd (line ++ ['\r'] ++ ['\n']), ?_, ?_⟩
    · rw [lines, show line ++ '\r' :: '\n' :: later = line ++ ['\r'] ++ '\n' :: later by simp,
        splitInclusive_append_newline, splitInclusive_of_notMem_newline hcr]
      rfl
    · rw [trim_stripLineEnd, trim_append_whitespace _ (List.all_eq_true.mp rfl),
        trim_append_whitespace _ (List.all_eq_true.mp rfl)]

/-- What stands between the line feeds of a text are its lines with the ending taken off them; behind the last
ending there is one more, empty. -/
theorem splitOn_newline (s : Str) : ∃ pieces last, s.splitOn '\n' = pieces ++ last ∧ (last = [] ∨ last = [[]]) ∧
    List.Forall₂ (fun line piece => line = piece ∨ line = piece ++ ['\n']) (splitInclusive s) pieces := by
  induction s with
  | nil => exact ⟨[], [[]], rfl, .inr rfl, .nil⟩
  | cons c s ih =>
      obtain ⟨pieces, last, hsplit, hlast, hpieces⟩ := ih
      rw [List.splitOn_cons_eq_if_modifyHead, splitInclusive, hsplit]
      by_cases hc : c = '\n'
      · rw [if_pos hc, if_pos (beq_iff_eq.mpr hc), hc]
        exact ⟨[] :: pieces, last, rfl, hlast, .cons (.inr rfl) hpieces⟩
      · rw [if_neg hc, if_neg (mt beq_iff_eq.mp hc)]
        generalize splitInclusive s = lines at hpieces
        cases hpieces with
        | nil =>
            have hend : last = [[]] := by
              refine hlast.resolve_left fun hnil => List.splitOn_ne_nil '\n' s ?_
              rw [hsplit, hnil, List.append_nil]
            rw [hend]
            exact ⟨[[c]], [], rfl, .inl rfl, .cons (.inl rfl) .nil⟩
        | cons hpiece hpieces =>
            refine ⟨_, last, rfl, hlast, .cons ?_ hpieces⟩
            rcases hpiece with rfl | rfl
            · exact .inl rfl
            · exact .inr rfl

/-- Trimmed, the lines of a text are what stands between its line feeds, but for an empty piece at the end. -/
theorem exists_map_trim_splitOn (s : Str) : ∃ last, (last = [] ∨ last = [[]]) ∧
    (s.splitOn '\n').map trim = (lines s).map trim ++ last := by
  obtain ⟨pieces, last, hsplit, hlast, hpieces⟩ := splitOn_newline s
  have htrim : ∀ line piece, line = piece ∨ line = piece ++ ['\n'] → trim (stripLineEnd line) = trim piece := by
    rintro line piece (rfl | rfl)
    · exact trim_stripLineEnd line
    · rw [trim_stripLineEnd, trim_append_whitespace _ (List.all_eq_true.mp rfl)]
  have hsame : List.Forall₂ Eq ((splitInclusive s).map (trim ∘ stripLineEnd)) (pieces.map trim) :=
    List.forall₂_map_left_iff.mpr (List.forall₂_map_right_iff.mpr (hpieces.imp htrim))
  have hlines : (lines s).map trim = pieces.map trim := by
    rw [lines, List.map_map]
    exact List.forall₂_eq_eq_eq ▸ hsame
  refine ⟨last, hlast, ?_⟩
  rw [hsplit, List.map_append, hlines]
  rcases hlast with rfl | rfl <;> rfl

end Lines

end Rust
