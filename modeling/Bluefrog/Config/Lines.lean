import Bluefrog.Config.Parser

/-!
The lines of a configuration: their keys and values, and the loop of the parser over them.
-/

open Rust

namespace Bluefrog
namespace ConfigFile

namespace Directive

theorem mem_all (d : Directive) : d ∈ all := by
  cases d <;> decide

theorem ofKey_key (d : Directive) : ofKey d.key = some d := by
  have hall : ∀ d ∈ all, ofKey d.key = some d := by decide +kernel
  exact hall d (mem_all d)

theorem key_of_ofKey {key : Str} {d : Directive} (h : ofKey key = some d) : d.key = key := by
  rw [ofKey, List.find?_eq_some_iff_append] at h
  exact of_decide_eq_true h.1

end Directive

/-- The key of a line; `none` if it is empty or a comment. -/
def keyOf (raw : Str) : Option Str := if skipped (trim raw) then none else some (splitKey (trim raw)).1

/-- The key and the value of a line; `none` if it is empty or a comment. -/
def directiveOf (raw : Str) : Option (Str × Str) := if skipped (trim raw) then none else some (splitKey (trim raw))

/-- What a directive does to the configuration, unless its value is malformed. An unknown key is recorded. -/
def updateOf (debug : DebugFmt) (entry : Str × Str) (line : Nat) : Except ParseError (Config → Config) :=
  match Directive.ofKey entry.1 with
  | some d => d.update debug entry.2 line
  | none => .ok fun c => { c with unknown := c.unknown ++ [entry.1] }

/-- The formatting of a text that has no character to escape. -/
def quoted : DebugFmt := fun s => '"' :: (s ++ ['"'])

variable {debug : DebugFmt} {d : Directive} {c : Config} {raw : Str} {line : Nat}

/-- A turn of the loop only reads the line trimmed. -/
theorem parseLine_congr {raw' : Str} (h : trim raw = trim raw') :
    parseLine debug c raw line = parseLine debug c raw' line := by
  simp only [parseLine, h]

theorem parseLine_of_none (h : directiveOf raw = none) : parseLine debug c raw line = .ok c := by
  unfold directiveOf at h
  split_ifs at h with hskip
  simp only [parseLine, if_pos hskip]

theorem parseLine_of_some {entry : Str × Str} (h : directiveOf raw = some entry) :
    parseLine debug c raw line = (updateOf debug entry line).map fun update => update c := by
  unfold directiveOf at h
  split_ifs at h with hskip
  cases h
  simp only [parseLine, if_neg hskip, updateOf]
  cases Directive.ofKey (splitKey (trim raw)).1 <;> rfl

theorem directiveOf_of_keyOf_none (h : keyOf raw = none) : directiveOf raw = none := by
  unfold keyOf at h
  split_ifs at h with hskip
  rw [directiveOf, if_pos hskip]

theorem directiveOf_of_keyOf {key : Str} (h : keyOf raw = some key) :
    directiveOf raw = some (key, (splitKey (trim raw)).2) := by
  unfold keyOf at h
  split_ifs at h with hskip
  cases h
  rw [directiveOf, if_neg hskip]

theorem parseLine_of_ofKey {key : Str} (h : keyOf raw = some key) (hd : Directive.ofKey key = some d) :
    parseLine debug c raw line =
      (d.update debug (splitKey (trim raw)).2 line).map fun update => update c := by
  rw [parseLine_of_some (directiveOf_of_keyOf h), updateOf, hd]

theorem parseLine_of_unknown {key : Str} (h : keyOf raw = some key) (hd : Directive.ofKey key = none) :
    parseLine debug c raw line = .ok { c with unknown := c.unknown ++ [key] } := by
  rw [parseLine_of_some (directiveOf_of_keyOf h), updateOf, hd]
  rfl

variable (debug) in
/-- The loop of `parse` over the lines from a line number on. -/
def parseFrom (c : Config) (later : List Str) (index : Nat) : Except ParseError Config :=
  (later.zipIdx index).foldlM (fun c entry => parseLine debug c entry.1 (entry.2 + 1)) c

theorem parseFrom_cons (c : Config) (raw : Str) (later : List Str) (index : Nat) :
    parseFrom debug c (raw :: later) index =
      (parseLine debug c raw (index + 1)).bind fun c => parseFrom debug c later (index + 1) := by
  rw [parseFrom, List.zipIdx_cons, List.foldlM_cons]
  rfl

theorem parseFrom_append (c : Config) (front later : List Str) (index : Nat) :
    parseFrom debug c (front ++ later) index =
      (parseFrom debug c front index).bind fun c => parseFrom debug c later (index + front.length) := by
  rw [parseFrom, List.zipIdx_append, List.foldlM_append]
  rfl

/-- The loop only reads the lines trimmed. -/
theorem parseFrom_congr {ls ls' : List Str} (h : ls.map trim = ls'.map trim) (c : Config) (index : Nat) :
    parseFrom debug c ls index = parseFrom debug c ls' index := by
  induction ls generalizing ls' c index with
  | nil =>
      rw [List.map_nil, eq_comm, List.map_eq_nil_iff] at h
      rw [h]
  | cons raw ls ih =>
      obtain ⟨raw', ls', rfl, hraw, hls⟩ := List.map_eq_cons_iff.mp h.symm
      rw [parseFrom_cons, parseFrom_cons, parseLine_congr hraw.symm]
      congr
      funext c
      exact ih hls.symm c (index + 1)

/-- What stands between the line feeds of a text. -/
def physicalLines (text : Str) : List Str := text.splitOn '\n'

/-- The parser runs over the physical lines: the ending of a line is whitespace, and so is a last line that is empty. -/
theorem parse_eq (text : Str) : parse debug text = parseFrom debug Config.default (physicalLines text) 0 := by
  obtain ⟨last, hlast, htrim⟩ := exists_map_trim_splitOn text
  have hblank : last.map trim = last := by rcases hlast with rfl | rfl <;> rfl
  have hend : ∀ c index, parseFrom debug c last index = .ok c := by
    rcases hlast with rfl | rfl
    · exact fun _ _ => rfl
    · exact fun _ _ => rfl
  rw [← hblank, ← List.map_append] at htrim
  rw [physicalLines, parseFrom_congr htrim, parseFrom_append]
  simp only [hend]
  exact (bind_pure (parse debug text)).symm

end ConfigFile
end Bluefrog
