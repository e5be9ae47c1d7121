import Bluefrog.Config.Fields
import Bluefrog.Lib.Reordering
import Mathlib.Logic.Relation

/-!
A configuration is the sequence of its directives. Blank lines, comments and the whitespace around a line do not
matter, the first malformed value is the error, and directives that write different fields may change places.
-/

open Rust Reordering

namespace Bluefrog
namespace ConfigFile

section Edits

/-- The directives of lines, in order. -/
def directives (ls : List Str) : List (Str × Str) := ls.filterMap directiveOf

/-- A line that is blank, or a comment. -/
def Ignorable (raw : Str) : Prop :=
  (∀ c ∈ raw, isWhitespace c = true) ∨
    ∃ ws comment, (∀ c ∈ ws, isWhitespace c = true) ∧ raw = ws ++ '#' :: comment

/-- One edit: a blank line or a comment comes or goes, or whitespace is put around a line. -/
inductive Edit : List Str → List Str → Prop
  | insert (front back : List Str) {raw : Str} (h : Ignorable raw) : Edit (front ++ back) (front ++ raw :: back)
  | delete (front back : List Str) {raw : Str} (h : Ignorable raw) : Edit (front ++ raw :: back) (front ++ back)
  | pad (front back : List Str) (line : Str) {ws ws' : Str} (h : ∀ c ∈ ws ++ ws', isWhitespace c = true ∧ c ≠ '\n') :
      Edit (front ++ line :: back) (front ++ (ws ++ line ++ ws') :: back)

theorem directiveOf_ignorable {raw : Str} (h : Ignorable raw) : directiveOf raw = none := by
  have hskip : skipped (trim raw) = true := by
    rcases h with hblank | ⟨ws, comment, hws, rfl⟩
    · rw [trim, trimStart_eq_nil_iff.mpr hblank]
      rfl
    · rw [trim_whitespace_append hws, trim_cons (by decide)]
      rfl
  rw [directiveOf, if_pos hskip]

theorem directiveOf_pad (line : Str) {ws ws' : Str} (h : ∀ c ∈ ws ++ ws', isWhitespace c = true ∧ c ≠ '\n') :
    directiveOf (ws ++ line ++ ws') = directiveOf line := by
  have htrim : trim (ws ++ line ++ ws') = trim line := by
    rw [trim_append_whitespace _ fun c hc => (h c (List.mem_append_right _ hc)).1,
      trim_whitespace_append fun c hc => (h c (List.mem_append_left _ hc)).1]
  rw [directiveOf, htrim, directiveOf]

theorem directives_edit {ls ls' : List Str} (h : Edit ls ls') : directives ls' = directives ls := by
  cases h with
  | insert front back h | delete front back h =>
      simp only [directives, List.filterMap_append, List.filterMap_cons, directiveOf_ignorable h]
  | pad front back line h =>
      simp only [directives, List.filterMap_append, List.filterMap_cons, directiveOf_pad line h]

theorem directives_edits {ls ls' : List Str} (h : Relation.ReflTransGen Edit ls ls') :
    directives ls' = directives ls := by
  induction h with
  | refl => rfl
  | tail _ hedit ih => rw [directives_edit hedit, ih]

end Edits

section Values

variable {debug : DebugFmt}

/-- The value of a directive is malformed for its key. -/
def Malformed (entry : Str × Str) : Prop := ∃ d : Directive, entry.1 = d.key ∧ d.accepts entry.2 = false

/-- What a directive does, or why it is refused, only depends on its key and its value. -/
theorem updateOf_cases (debug : DebugFmt) (entry : Str × Str) :
    (¬Malformed entry ∧ ∃ u, ∀ line, updateOf debug entry line = .ok u) ∨
      (Malformed entry ∧ ∃ reason, ∀ line, updateOf debug entry line = .error ⟨line, reason⟩) := by
  cases hkey : Directive.ofKey entry.1 with
  | none =>
      refine .inl ⟨?_, _, fun line => by rw [updateOf, hkey]⟩
      rintro ⟨d, hd, -⟩
      rw [hd, Directive.ofKey_key] at hkey
      cases hkey
  | some d =>
      have hupdate : ∀ line, updateOf debug entry line = d.update debug entry.2 line := fun line => by
        rw [updateOf, hkey]
      simp only [hupdate]
      cases haccepts : d.accepts entry.2 with
      | true =>
          refine .inl ⟨?_, d.decides_update.accept haccepts⟩
          rintro ⟨d', hd', hrefuses⟩
          rw [hd', Directive.ofKey_key] at hkey
          rw [Option.some.inj hkey, haccepts] at hrefuses
          cases hrefuses
      | false =>
          exact .inr ⟨⟨d, (Directive.key_of_ofKey hkey).symm, haccepts⟩, _, d.decides_update.refuse haccepts⟩

/-- The line has a directive with a malformed value. -/
def MalformedLine (raw : Str) : Prop := ∃ entry, directiveOf raw = some entry ∧ Malformed entry

theorem parseLine_cases (debug : DebugFmt) (raw : Str) :
    (¬MalformedLine raw ∧ ∃ u : Config → Config, ∀ c line, parseLine debug c raw line = .ok (u c)) ∨
      (MalformedLine raw ∧ ∃ reason, ∀ c line, parseLine debug c raw line = .error ⟨line, reason⟩) := by
  cases hraw : directiveOf raw with
  | none =>
      refine .inl ⟨?_, id, fun c line => parseLine_of_none hraw⟩
      rintro ⟨entry, hentry, -⟩
      rw [hraw] at hentry
      cases hentry
  | some entry =>
      rcases updateOf_cases debug entry with ⟨hwell, u, hu⟩ | ⟨hmalformed, reason, hreason⟩
      · refine .inl ⟨?_, u, fun c line => by rw [parseLine_of_some hraw, hu]; rfl⟩
        rintro ⟨entry', hentry, hmalformed⟩
        rw [hraw] at hentry
        cases hentry
        exact hwell hmalformed
      · exact .inr ⟨⟨entry, hraw, hmalformed⟩, reason, fun c line => by rw [parseLine_of_some hraw, hreason]; rfl⟩

end Values

section Errors

theorem parseFrom_of_wellFormed (debug : DebugFmt) {ls : List Str} (h : ∀ raw ∈ ls, ¬MalformedLine raw) (c : Config)
    (index : Nat) : ∃ c', parseFrom debug c ls index = .ok c' := by
  induction ls generalizing c index with
  | nil => exact ⟨c, rfl⟩
  | cons raw ls ih =>
      rcases parseLine_cases debug raw with ⟨-, u, hu⟩ | ⟨hmalformed, -⟩
      · obtain ⟨c', hc'⟩ := ih (fun raw hraw => h raw (List.mem_cons_of_mem _ hraw)) (u c) (index + 1)
        exact ⟨c', by rw [parseFrom_cons, hu]; exact hc'⟩
      · exact absurd hmalformed (h raw List.mem_cons_self)

/-- The first malformed line is the error, whatever the lines behind it. -/
theorem exists_parseFrom_error (debug : DebugFmt) {front : List Str} {raw : Str}
    (hfront : ∀ l ∈ front, ¬MalformedLine l) (hraw : MalformedLine raw) : ∃ reason, ∀ later c index,
      parseFrom debug c (front ++ raw :: later) index = .error ⟨index + front.length + 1, reason⟩ := by
  rcases parseLine_cases debug raw with ⟨hwell, -⟩ | ⟨-, reason, hreason⟩
  · exact absurd hraw hwell
  · refine ⟨reason, fun later c index => ?_⟩
    obtain ⟨c', hc'⟩ := parseFrom_of_wellFormed debug hfront c index
    rw [parseFrom_append, hc']
    change parseFrom debug c' (raw :: later) (index + front.length) = _
    rw [parseFrom_cons, hreason]
    rfl

theorem exists_first_malformed {ls : List Str} (h : ∃ raw ∈ ls, MalformedLine raw) :
    ∃ front raw later, ls = front ++ raw :: later ∧ (∀ l ∈ front, ¬MalformedLine l) ∧ MalformedLine raw := by
  classical
  obtain ⟨raw, hraw, hmalformed⟩ := h
  have hfind : (ls.find? fun l => MalformedLine l).isSome = true :=
    List.find?_isSome.mpr ⟨raw, hraw, decide_eq_true hmalformed⟩
  obtain ⟨first, hfirst⟩ := Option.isSome_iff_exists.mp hfind
  obtain ⟨hholds, front, later, hls, hfront⟩ := List.find?_eq_some_iff_append.mp hfirst
  refine ⟨front, first, later, hls, fun l hl => ?_, of_decide_eq_true hholds⟩
  simpa using hfront l hl

theorem parse_error_iff (debug : DebugFmt) (text : Str) :
    (∃ e, parse debug text = .error e) ↔ ∃ raw ∈ physicalLines text, MalformedLine raw := by
  rw [parse_eq]
  constructor
  · rintro ⟨e, he⟩
    by_contra hnone
    push Not at hnone
    obtain ⟨c, hc⟩ := parseFrom_of_wellFormed debug hnone Config.default 0
    rw [hc] at he
    cases he
  · intro h
    obtain ⟨front, raw, later, hls, hfront, hraw⟩ := exists_first_malformed h
    obtain ⟨reason, hreason⟩ := exists_parseFrom_error debug hfront hraw
    exact ⟨_, by rw [hls, hreason]⟩

end Errors

section Messages

variable {debug : DebugFmt}

/-- The same configuration, or two errors that differ in nothing but the line. -/
def SameButLine (x y : Except ParseError Config) : Prop :=
  x.mapError ParseError.message = y.mapError ParseError.message

variable (debug) in
/-- A turn of the loop for a directive, with the message of its error alone. -/
def obey (c : Config) (entry : Str × Str) : Except Str Config :=
  ((updateOf debug entry 0).map fun update => update c).mapError ParseError.message

theorem message_parseLine {raw : Str} {entry : Str × Str} (h : directiveOf raw = some entry) (c : Config) (line : Nat) :
    (parseLine debug c raw line).mapError ParseError.message = obey debug c entry := by
  rw [parseLine_of_some h, obey]
  rcases updateOf_cases debug entry with ⟨-, u, hu⟩ | ⟨-, reason, hreason⟩
  · rw [hu, hu]
  · rw [hreason, hreason]
    rfl

/-- But for the line of an error, the loop obeys the directives in order. -/
theorem message_parseFrom (ls : List Str) (c : Config) (index : Nat) :
    (parseFrom debug c ls index).mapError ParseError.message = (directives ls).foldlM (obey debug) c := by
  induction ls generalizing c index with
  | nil => rfl
  | cons raw ls ih =>
      rw [parseFrom_cons, directives]
      cases hraw : directiveOf raw with
      | none =>
          rw [parseLine_of_none hraw, List.filterMap_cons_none hraw]
          exact ih c (index + 1)
      | some entry =>
          rw [List.filterMap_cons_some hraw, List.foldlM_cons, ← message_parseLine hraw c (index + 1)]
          cases parseLine debug c raw (index + 1) with
          | error e => rfl
          | ok c' => exact ih c' (index + 1)

theorem sameButLine_of_directives {text text' : Str}
    (h : directives (physicalLines text') = directives (physicalLines text)) :
    SameButLine (parse debug text') (parse debug text) := by
  rw [SameButLine, parse_eq, parse_eq, message_parseFrom, message_parseFrom, h]

end Messages

section Order

variable {debug : DebugFmt} {entry entry' : Str × Str} {a b : Str}

/-- The fields that a directive writes, by its key. -/
def fieldsOf (entry : Str × Str) : List Field := (Directive.ofKey entry.1).elim [.unknown] Directive.fields

/-- The directives of two lines write a common field. -/
def SharesField (a b : Str) : Prop :=
  ∃ f ∈ (directiveOf a).elim [] fieldsOf, f ∈ (directiveOf b).elim [] fieldsOf

instance : DecidableRel SharesField := fun a b =>
  inferInstanceAs (Decidable (∃ f ∈ (directiveOf a).elim [] fieldsOf, f ∈ (directiveOf b).elim [] fieldsOf))

/-- Directives that write different fields commute, those of unknown keys too. -/
theorem updateOf_comm {u u' : Config → Config} {line line' : Nat} (h : updateOf debug entry line = .ok u)
    (h' : updateOf debug entry' line' = .ok u') (hdisjoint : ∀ f ∈ fieldsOf entry, f ∉ fieldsOf entry') (c : Config) :
    u (u' c) = u' (u c) := by
  unfold updateOf at h h'
  unfold fieldsOf at hdisjoint
  cases hkey : Directive.ofKey entry.1 with
  | none =>
      rw [hkey] at h hdisjoint
      cases h
      cases hkey' : Directive.ofKey entry'.1 with
      | none =>
          rw [hkey'] at hdisjoint
          exact absurd List.mem_cons_self (hdisjoint _ List.mem_cons_self)
      | some d' =>
          rw [hkey'] at h'
          exact (Directive.update_unknown h' entry.1 c).symm
  | some d =>
      rw [hkey] at h hdisjoint
      cases hkey' : Directive.ofKey entry'.1 with
      | none =>
          rw [hkey'] at h'
          cases h'
          exact Directive.update_unknown h entry'.1 c
      | some d' =>
          rw [hkey'] at h' hdisjoint
          exact Directive.update_comm h h' hdisjoint c

variable (debug) in
/-- A turn of the loop, up to the error. -/
def turn (c : Option Config) (raw : Str) : Option Config := c.bind fun c => (parseLine debug c raw 0).toOption

theorem turn_of_none (h : directiveOf a = none) (c : Option Config) : turn debug c a = c := by
  cases c with
  | none => rfl
  | some c => rw [turn, Option.bind_some, parseLine_of_none h]; rfl

theorem turn_of_some (h : directiveOf a = some entry) (c : Option Config) :
    turn debug c a = c.bind fun c => (updateOf debug entry 0).toOption.map fun update => update c := by
  cases c with
  | none => rfl
  | some c =>
      rw [turn, Option.bind_some, Option.bind_some, parseLine_of_some h]
      cases updateOf debug entry 0 <;> rfl

/-- Lines that write different fields commute. -/
theorem independent_turn : Independent SharesField (turn debug) := by
  intro c a b hshares
  cases ha : directiveOf a with
  | none => rw [turn_of_none ha, turn_of_none ha]
  | some entry =>
      cases hb : directiveOf b with
      | none => rw [turn_of_none hb, turn_of_none hb]
      | some entry' =>
          have hdisjoint : ∀ f ∈ fieldsOf entry, f ∉ fieldsOf entry' := by
            intro f hf hf'
            refine hshares ⟨f, ?_, ?_⟩
            · rw [ha]
              exact hf
            · rw [hb]
              exact hf'
          simp only [turn_of_some ha, turn_of_some hb]
          cases c with
          | none => rfl
          | some c =>
              cases hu : updateOf debug entry 0 with
              | error e => cases updateOf debug entry' 0 <;> rfl
              | ok u =>
                  cases hu' : updateOf debug entry' 0 with
                  | error e => rfl
                  | ok u' => exact congrArg some (updateOf_comm hu hu' hdisjoint c).symm

theorem foldl_turn_none (ls : List Str) : ls.foldl (turn debug) none = none := by
  induction ls with
  | nil => rfl
  | cons raw ls ih => exact ih

theorem toOption_parseFrom (ls : List Str) (c : Config) (index : Nat) :
    (parseFrom debug c ls index).toOption = ls.foldl (turn debug) (some c) := by
  induction ls generalizing c index with
  | nil => rfl
  | cons raw ls ih =>
      rw [parseFrom_cons, List.foldl_cons, turn, Option.bind_some]
      rcases parseLine_cases debug raw with ⟨-, u, hu⟩ | ⟨-, reason, hreason⟩
      · rw [hu, hu]
        exact ih (u c) (index + 1)
      · rw [hreason, hreason]
        exact (foldl_turn_none ls).symm

/-- Lines may change places, as long as those that write one field do not. -/
theorem parse_of_reorders (debug : DebugFmt) {text text' : Str}
    (h : Reorders SharesField (physicalLines text) (physicalLines text')) :
    (parse debug text').toOption = (parse debug text).toOption := by
  rw [parse_eq, parse_eq, toOption_parseFrom, toOption_parseFrom]
  exact independent_turn.foldl_of_reorders h (some Config.default)

end Order

section Sequence

variable (debug : DebugFmt)

/-- A text is read as the sequence of its directives. -/
structure ReadAsDirectives (text : Str) : Prop where
  /-- The directives are all that counts, but for the line of an error. -/
  sequence : ∀ text', directives (physicalLines text') = directives (physicalLines text) →
    SameButLine (parse debug text') (parse debug text)
  /-- Blank lines, comments and whitespace around a line change no more than the line of an error. -/
  edited : ∀ text', Relation.ReflTransGen Edit (physicalLines text) (physicalLines text') →
    SameButLine (parse debug text') (parse debug text)
  /-- There is an error exactly where there is a malformed value. -/
  refused : (∃ e, parse debug text = .error e) ↔ ∃ raw ∈ physicalLines text, MalformedLine raw
  /-- The error has the number of the first line with a malformed value, and no later line can change it. -/
  first : ∀ e, parse debug text = .error e → ∃ front raw later, physicalLines text = front ++ raw :: later ∧
    (∀ l ∈ front, ¬MalformedLine l) ∧ MalformedLine raw ∧ e.line = front.length + 1 ∧
    ∀ text' later', physicalLines text' = front ++ raw :: later' → parse debug text' = .error e
  /-- Lines may be permuted, if those that write one field keep their order. -/
  permuted : ∀ text' c, Reorders SharesField (physicalLines text) (physicalLines text') →
    parse debug text = .ok c → parse debug text' = .ok c

/-- **A configuration is the sequence of its directives.** -/
theorem parse_sequence (text : Str) : ReadAsDirectives debug text where
  sequence _ h := sameButLine_of_directives h
  edited _ h := sameButLine_of_directives (directives_edits h)
  refused := parse_error_iff debug text
  first := by
    intro e he
    obtain ⟨front, raw, later, hls, hfront, hraw⟩ := exists_first_malformed ((parse_error_iff debug text).mp ⟨e, he⟩)
    obtain ⟨reason, hreason⟩ := exists_parseFrom_error debug hfront hraw
    have hparse : ∀ text' later', physicalLines text' = front ++ raw :: later' →
        parse debug text' = .error ⟨0 + front.length + 1, reason⟩ := by
      intro text' later' htext'
      rw [parse_eq, htext', hreason]
    cases he.symm.trans (hparse text later hls)
    exact ⟨front, raw, later, hls, hfront, hraw, by rw [Nat.zero_add], hparse⟩
  permuted := by
    intro text' c h hparse
    have hsame := parse_of_reorders debug h
    rw [hparse] at hsame
    cases hparse' : parse debug text' with
    | error e =>
        rw [hparse'] at hsame
        cases hsame
    | ok c' =>
        rw [hparse'] at hsame
        exact congrArg Except.ok (Option.some.inj hsame)

/-- Two lines change places, with a comment between them. -/
theorem parse_sequence_swapped : ∃ c, parse quoted (str "nft.enable 1\n# bans\nnft.set4 a,b") = .ok c ∧
    parse quoted (str "nft.set4 a,b\n# bans\nnft.enable 1") = .ok c := by
  have hreorders : Reorders SharesField (physicalLines (str "nft.enable 1\n# bans\nnft.set4 a,b"))
      (physicalLines (str "nft.set4 a,b\n# bans\nnft.enable 1")) :=
    ⟨[(str "nft.set4 a,b", 2), (str "# bans", 1), (str "nft.enable 1", 0)], by decide, rfl, by decide⟩
  exact ⟨_, rfl, (parse_sequence quoted (str "nft.enable 1\n# bans\nnft.set4 a,b")).permuted _ _ hreorders rfl⟩

end Sequence

end ConfigFile
end Bluefrog
