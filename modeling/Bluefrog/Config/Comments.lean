import Bluefrog.Config.Fields

/-!
Comments at the end of a directive line. The parser only knows comments that are whole lines; after a
directive, a comment is part of the value. So a value with a type of its own is then malformed, and a value
that is free text takes the comment in.
-/

open Rust

namespace Bluefrog
namespace ConfigFile

variable (debug : DebugFmt)

namespace Directive

/-- A later value of a text replaces an earlier one. -/
theorem setText_setText (d : Directive) (val val' : Str) (c : Config) :
    d.setText val (d.setText val' c) = d.setText val c := by
  cases d <;> rfl

end Directive

section Values

variable {debug} {val : Str} {line : Nat}

theorem hash_mem_asBytes (h : '#' ∈ val) : 35 ∈ val.asBytes := List.mem_flatMap.mpr ⟨'#', h, by decide⟩

theorem parseUnsigned_of_hash (bound : Nat) {s : List UInt8} (h : 35 ∈ s) : parseUnsigned bound s = none := by
  have hdigits : 35 ∈ (if s.head? = some 43 then s.tail else s) := by
    split_ifs with hplus
    · obtain ⟨rest, rfl⟩ := List.head?_eq_some_iff.mp hplus
      rcases List.mem_cons.mp h with heq | hmem
      · exact absurd heq (by decide)
      · exact hmem
    · exact h
  unfold parseUnsigned
  refine if_neg fun hall => ?_
  exact absurd (List.all_eq_true.mp hall.2.1 35 hdigits) (by decide)

theorem socketAddr_of_hash {s : List UInt8} (h : 35 ∈ s) : SocketAddr.fromStr s = none := by
  cases hs : SocketAddr.fromStr s with
  | none => rfl
  | some sa => exact absurd (SocketAddr.isAddrChar_of_fromStr hs 35 h) (by decide)

theorem ipAddr_of_hash {s : List UInt8} (h : 35 ∈ s) : IpAddr.fromStr s = none := by
  cases hs : IpAddr.fromStr s with
  | none => rfl
  | some ip => exact absurd (IpAddr.isAddrChar_of_fromStr hs 35 h) (by decide)

/-- No value but a text has a hash in it. -/
theorem Directive.accepts_of_hash {d : Directive} (hd : d.isText = false) (h : '#' ∈ val) : d.accepts val = false := by
  have hsocket := socketAddr_of_hash (hash_mem_asBytes h)
  have hip := ipAddr_of_hash (hash_mem_asBytes h)
  have hnumber : ∀ bound, parseUnsigned bound val.asBytes = none := fun bound =>
    parseUnsigned_of_hash bound (hash_mem_asBytes h)
  cases d with
  | listenUdp | listenTcp | listenTcpUdp => rw [accepts, hsocket, hip]; rfl
  | metricsListen => rw [accepts, hsocket]; rfl
  | listenUdpWorkers | listenUdpRcvbuf | l7MaxEntries | l7MaxOffenders => rw [accepts, parseUsize, hnumber]; rfl
  | udpConnidWindow | l7ReannounceMinInterval | l7ScoreBanThreshold | l7BanDuration | l7RebanCooldown
  | l7FastAnnounceGap => rw [accepts, parseU32, hnumber]; rfl
  | l7Enable | nftEnable =>
      refine decide_eq_false fun hword => ?_
      exact absurd h ((by decide : ∀ word ∈ booleanWords, '#' ∉ word) val hword)
  | trackerRedirectUrl | trackerRootdir | trackerUser | nftTable | nftSet4 | nftSet6 => cases hd

/-- A value that is not a text is malformed with a hash in it. -/
theorem Directive.update_of_hash {d : Directive} (hd : d.isText = false) (h : '#' ∈ val) :
    ∃ e, d.update debug val line = .error e :=
  ⟨_, d.decides_update.refuse (d.accepts_of_hash hd h) line⟩

end Values

section Lines

variable {debug} {d : Directive} {c : Config} {raw : Str} {line : Nat}

/-- A line with the key of a text replaces the text. -/
theorem parseLine_setText_self (hd : d.isText = true) (h : keyOf raw = some d.key) (val : Str) :
    parseLine debug (d.setText val c) raw line = parseLine debug c raw line := by
  rw [parseLine_of_ofKey h (Directive.ofKey_key d), parseLine_of_ofKey h (Directive.ofKey_key d)]
  simp only [Directive.update_of_isText hd, Except.map, Directive.setText_setText]

/-- A line with another key leaves the text alone. -/
theorem parseLine_setText_of_ne (h : keyOf raw ≠ some d.key) (val : Str) :
    parseLine debug (d.setText val c) raw line = (parseLine debug c raw line).map (d.setText val) := by
  cases hkey : keyOf raw with
  | none =>
      have hnone := directiveOf_of_keyOf_none hkey
      rw [parseLine_of_none hnone, parseLine_of_none hnone]
      rfl
  | some key =>
      cases hof : Directive.ofKey key with
      | none =>
          rw [parseLine_of_unknown hkey hof, parseLine_of_unknown hkey hof]
          refine congrArg Except.ok ?_
          cases d <;> rfl
      | some d' =>
          rw [parseLine_of_ofKey hkey hof, parseLine_of_ofKey hkey hof]
          have hne : d' ≠ d := by
            rintro rfl
            rw [hkey, Directive.key_of_ofKey hof] at h
            exact h rfl
          cases hupdate : d'.update debug (splitKey (trim raw)).2 line with
          | error e => rfl
          | ok u => exact congrArg Except.ok (Directive.update_setText hupdate hne val c)

/-- Lines with other keys leave the text alone. -/
theorem parseFrom_setText_of_notMem {later : List Str} (h : ∀ raw ∈ later, keyOf raw ≠ some d.key) (val : Str)
    (index : Nat) :
    parseFrom debug (d.setText val c) later index = (parseFrom debug c later index).map (d.setText val) := by
  induction later generalizing c index with
  | nil => rfl
  | cons raw later ih =>
      rw [parseFrom_cons, parseFrom_cons, parseLine_setText_of_ne (h raw List.mem_cons_self)]
      cases parseLine debug c raw (index + 1) with
      | error e => rfl
      | ok c' => exact ih (fun raw hraw => h raw (List.mem_cons_of_mem _ hraw)) (index + 1)

/-- Once a line sets the text again, what it was before is gone. -/
theorem parseFrom_setText_of_mem {later : List Str} (hd : d.isText = true)
    (h : ∃ raw ∈ later, keyOf raw = some d.key) (val : Str) (index : Nat) :
    parseFrom debug (d.setText val c) later index = parseFrom debug c later index := by
  induction later generalizing c index with
  | nil =>
      obtain ⟨raw, hraw, -⟩ := h
      exact absurd hraw List.not_mem_nil
  | cons raw later ih =>
      rw [parseFrom_cons, parseFrom_cons]
      by_cases hkey : keyOf raw = some d.key
      · rw [parseLine_setText_self hd hkey]
      · have hlater : ∃ raw ∈ later, keyOf raw = some d.key := by
          obtain ⟨raw', hraw', hkey'⟩ := h
          rcases List.mem_cons.mp hraw' with rfl | hmem
          · exact absurd hkey' hkey
          · exact ⟨raw', hmem, hkey'⟩
        rw [parseLine_setText_of_ne hkey]
        cases parseLine debug c raw (index + 1) with
        | error e => rfl
        | ok c' => exact ih hlater (index + 1)

end Lines

section Comments

/-- A line with a comment after it. -/
def commented (line ws comment : Str) : Str := line ++ ws ++ '#' :: comment

/-- A comment after a directive keeps the key and becomes part of the value. -/
theorem splitKey_append_comment (t : Str) {w : Str} (hw : ∀ c ∈ w, isWhitespace c = true) (hne : w ≠ [])
    (comment : Str) : (splitKey (t ++ w ++ '#' :: comment)).1 = (splitKey t).1 ∧
      ∃ w', (splitKey (t ++ w ++ '#' :: comment)).2 = (splitKey t).2 ++ w' ++ '#' :: trimEnd comment := by
  by_cases hany : t.any isWhitespace = true
  · obtain ⟨k, x, v, rfl, hk, hx⟩ := exists_first_whitespace hany
    obtain ⟨w', -, -, htrim⟩ := trim_append_cons v hw (by decide : isWhitespace '#' = false) comment
    have hsplit : splitOnceWhitespace (k ++ x :: v ++ w ++ '#' :: comment) = some (k, v ++ w ++ '#' :: comment) := by
      rw [← splitOnceWhitespace_append hk hx (v ++ w ++ '#' :: comment)]
      simp only [List.append_assoc, List.cons_append]
    rw [splitKey, splitKey, hsplit, splitOnceWhitespace_append hk hx]
    exact ⟨rfl, w', htrim⟩
  · obtain ⟨x, w, rfl⟩ := List.exists_cons_of_ne_nil hne
    have hk : ∀ c ∈ t, isWhitespace c = false := fun c hc =>
      Bool.eq_false_iff.mpr fun hws => hany (List.any_eq_true.mpr ⟨c, hc, hws⟩)
    obtain ⟨w', -, -, htrim⟩ := trim_append_cons [] (fun c hc => hw c (List.mem_cons_of_mem _ hc))
      (by decide : isWhitespace '#' = false) comment
    have hsplit : splitOnceWhitespace (t ++ x :: w ++ '#' :: comment) = some (t, w ++ '#' :: comment) := by
      rw [← splitOnceWhitespace_append hk (hw x List.mem_cons_self) (w ++ '#' :: comment)]
      simp only [List.append_assoc, List.cons_append]
    have hnone : splitOnceWhitespace t = none := if_neg hany
    rw [splitKey, splitKey, hsplit, hnone]
    exact ⟨rfl, w', htrim⟩

/-- A directive line with a comment: its key is the same, and its value has the comment appended. -/
theorem keyOf_commented {line ws : Str} {key : Str} (hkey : keyOf line = some key)
    (hws : ∀ c ∈ ws, isWhitespace c = true) (hne : ws ≠ []) (comment : Str) :
    keyOf (commented line ws comment) = some key ∧ ∃ w, (splitKey (trim (commented line ws comment))).2 =
      (splitKey (trim line)).2 ++ w ++ '#' :: trimEnd comment := by
  unfold keyOf at hkey
  split_ifs at hkey with hskip
  simp only [skipped, Bool.or_eq_true, not_or, List.isEmpty_iff, beq_iff_eq] at hskip
  obtain ⟨hnil, hhash⟩ := hskip
  obtain ⟨w, hw, hwne, htrim⟩ := trim_append_cons line hws (by decide : isWhitespace '#' = false) comment
  obtain ⟨hfst, w', hsnd⟩ := splitKey_append_comment (trim line) hw (hwne hnil hne) (trimEnd comment)
  have hidem : trimEnd (trimEnd comment) = trimEnd comment := List.rdropWhile_idempotent _ _
  rw [keyOf, commented, htrim, if_neg, hfst, hsnd, hidem]
  · exact ⟨hkey, w', rfl⟩
  · obtain ⟨c, t, ht⟩ := List.exists_cons_of_ne_nil hnil
    rw [ht, List.head?_cons, Option.some.injEq] at hhash
    simp [skipped, ht, hhash]

theorem count_flatten_setList (val : Str) : (setList val).flatten.count '#' = val.count '#' := by
  have htrim : (List.count '#' ∘ trim : Str → Nat) = List.count '#' := by
    funext s
    exact count_trim (by decide) s
  calc (setList val).flatten.count '#'
      = ((val.splitOn ',').map trim).flatten.count '#' := by rw [setList, List.flatten_filter_not_isEmpty]
    _ = (val.splitOn ',').flatten.count '#' := by rw [List.count_flatten, List.map_map, htrim, List.count_flatten]
    _ = val.count '#' := count_flatten_splitOn (by decide) val

/-- A configuration shows how many hashes its texts have. -/
theorem Directive.count_of_setText_eq {d : Directive} (hd : d.isText = true) {val val' : Str} {c : Config}
    (h : d.setText val c = d.setText val' c) : val.count '#' = val'.count '#' := by
  cases d with
  | trackerRedirectUrl => rw [Option.some.inj (congrArg Config.redirectUrl h)]
  | trackerRootdir => rw [Option.some.inj (congrArg Config.rootdir h)]
  | trackerUser => rw [Option.some.inj (congrArg Config.user h)]
  | nftTable => rw [show val = val' from congrArg Config.nftTable h]
  | nftSet4 =>
      have hset : setList val = setList val' := congrArg Config.nftSet4 h
      rw [← count_flatten_setList, hset, count_flatten_setList]
  | nftSet6 =>
      have hset : setList val = setList val' := congrArg Config.nftSet6 h
      rw [← count_flatten_setList, hset, count_flatten_setList]
  | _ => cases hd

/-- What is left of a line after a comment decides: either no directive of the parser has its key, or its
value is a text, and a later line sets that text again. -/
def CommentHarmless (line rest : Str) : Prop :=
  ∀ d : Directive, keyOf line = some d.key →
    d.isText = true ∧ ∃ later ∈ (lines rest).tail, keyOf later = some d.key

variable {debug} {c : Config}

/-- The loop of `parse`, up to a line and from that line on. -/
theorem parse_append {pre line rest : Str} (hpre : WholeLines pre) (hne : line ≠ []) (hline : '\n' ∉ line)
    (hrest : EndsLine rest) : parse debug (pre ++ line ++ rest) =
      (parseFrom debug Config.default (lines pre) 0).bind fun c =>
        (parseLine debug c line ((lines pre).length + 1)).bind fun c =>
          parseFrom debug c (lines rest).tail ((lines pre).length + 1) := by
  obtain ⟨first, hfirst, htrim⟩ := lines_of_endsLine hne hline hrest
  have hparse : parse debug (pre ++ line ++ rest) =
      parseFrom debug Config.default (lines pre ++ first :: (lines rest).tail) 0 := by
    rw [parse, parseFrom, List.append_assoc, lines_append hpre, hfirst]
  rw [hparse, parseFrom_append, Nat.zero_add]
  simp only [parseFrom_cons, parseLine_congr htrim]

theorem ne_nil_of_keyOf {line key : Str} (h : keyOf line = some key) : line ≠ [] := by
  rintro rfl
  cases h

theorem newline_notMem_commented {line ws comment : Str} (hline : '\n' ∉ line) (hws : ∀ x ∈ ws, x ≠ '\n')
    (hcomment : '\n' ∉ comment) : '\n' ∉ commented line ws comment := by
  rw [commented, List.mem_append, List.mem_append, List.mem_cons, not_or, not_or, not_or]
  exact ⟨⟨hline, fun hmem => hws _ hmem rfl⟩, by decide, hcomment⟩

/-- A text with more hashes ends up in the configuration unless a later line sets the text again. -/
theorem parseFrom_setText_iff {d : Directive} (hd : d.isText = true) {val val' : Str}
    (hcount : val.count '#' < val'.count '#') {c₀ : Config} {later : List Str} {index : Nat}
    (hparse : parseFrom debug (d.setText val c₀) later index = .ok c) :
    parseFrom debug (d.setText val' c₀) later index = .ok c ↔ ∃ raw ∈ later, keyOf raw = some d.key := by
  by_cases hlater : ∃ raw ∈ later, keyOf raw = some d.key
  · rw [parseFrom_setText_of_mem hd hlater] at hparse ⊢
    exact ⟨fun _ => hlater, fun _ => hparse⟩
  · have hnone : ∀ raw ∈ later, keyOf raw ≠ some d.key := fun raw hraw hkey => hlater ⟨raw, hraw, hkey⟩
    rw [parseFrom_setText_of_notMem hnone] at hparse ⊢
    cases hrest : parseFrom debug c₀ later index with
    | error e =>
        rw [hrest] at hparse
        cases hparse
    | ok c₁ =>
        rw [hrest] at hparse
        refine ⟨fun hsame => ?_, fun hmem => absurd hmem hlater⟩
        have heq : d.setText val c₁ = d.setText val' c₁ := (Except.ok.inj hparse).trans (Except.ok.inj hsame).symm
        rw [Directive.count_of_setText_eq hd heq] at hcount
        exact absurd hcount (Nat.lt_irrefl _)

/-- Whatever follows a key that no directive has. -/
theorem commentHarmless_of_unknown {line rest key : Str} (hkey : keyOf line = some key)
    (hd : Directive.ofKey key = none) : CommentHarmless line rest := by
  intro d hd'
  rw [hkey, Option.some.injEq] at hd'
  rw [hd', Directive.ofKey_key] at hd
  cases hd

theorem commentHarmless_iff {line rest : Str} {d : Directive} (hkey : keyOf line = some d.key) :
    CommentHarmless line rest ↔
      d.isText = true ∧ ∃ later ∈ (lines rest).tail, keyOf later = some d.key := by
  rw [CommentHarmless, hkey]
  refine ⟨fun h => h d rfl, fun h d' hd' => ?_⟩
  have hof := Directive.ofKey_key d'
  rw [← Option.some.inj hd', Directive.ofKey_key] at hof
  exact Option.some.inj hof ▸ h

/-- **When a comment after a directive changes nothing.** -/
theorem parse_commented_iff (pre line rest ws comment : Str) (c : Config) (hpre : WholeLines pre)
    (hline : '\n' ∉ line) (hrest : EndsLine rest) (hdirective : (keyOf line).isSome = true) (hne : ws ≠ [])
    (hws : ∀ x ∈ ws, isWhitespace x = true ∧ x ≠ '\n') (hcomment : '\n' ∉ comment)
    (hparse : parse debug (pre ++ line ++ rest) = .ok c) :
    parse debug (pre ++ commented line ws comment ++ rest) = .ok c ↔ CommentHarmless line rest := by
  obtain ⟨key, hkey⟩ := Option.isSome_iff_exists.mp hdirective
  obtain ⟨hkey', w, hval⟩ := keyOf_commented hkey (fun x hx => (hws x hx).1) hne comment
  rw [parse_append hpre (ne_nil_of_keyOf hkey) hline hrest] at hparse
  rw [parse_append hpre (ne_nil_of_keyOf hkey')
    (newline_notMem_commented hline (fun x hx => (hws x hx).2) hcomment) hrest]
  cases hfront : parseFrom debug Config.default (lines pre) 0 with
  | error e =>
      rw [hfront] at hparse
      cases hparse
  | ok c₀ =>
      rw [hfront] at hparse
      simp only [Except.bind] at hparse ⊢
      cases hd : Directive.ofKey key with
      | none =>
          -- an unknown directive is recorded by its key, whatever its value
          have hharmless : CommentHarmless line rest := commentHarmless_of_unknown hkey hd
          rw [parseLine_of_unknown hkey hd] at hparse
          rw [parseLine_of_unknown hkey' hd]
          exact ⟨fun _ => hharmless, fun _ => hparse⟩
      | some d =>
          rw [parseLine_of_ofKey hkey hd] at hparse
          rw [parseLine_of_ofKey hkey' hd, hval,
            commentHarmless_iff (hkey.trans (congrArg some (Directive.key_of_ofKey hd).symm))]
          cases htext : d.isText with
          | false =>
              have hhash : '#' ∈ (splitKey (trim line)).2 ++ w ++ '#' :: trimEnd comment :=
                List.mem_append_right _ List.mem_cons_self
              obtain ⟨e, he⟩ := Directive.update_of_hash htext hhash
              rw [he]
              constructor
              · intro h
                cases h
              · intro h
                cases h.1
          | true =>
              have hcount : (splitKey (trim line)).2.count '#' <
                  ((splitKey (trim line)).2 ++ w ++ '#' :: trimEnd comment).count '#' := by
                rw [List.count_append, List.count_append, List.count_cons_self]
                omega
              rw [Directive.update_of_isText htext] at hparse ⊢
              simp only [Except.map] at hparse ⊢
              rw [parseFrom_setText_iff htext hcount hparse, true_and]

/-- A comment after a user that a later line replaces. -/
theorem parse_commented_iff_replaced : ∃ c, parse quoted (str "tracker.user root\ntracker.user nobody\n") = .ok c ∧
    parse quoted (str "tracker.user root # for now\ntracker.user nobody\n") = .ok c := by
  have hharmless : CommentHarmless (str "tracker.user root") (str "\ntracker.user nobody\n") := by
    intro d hd
    have hof := Directive.ofKey_key d
    rw [← Option.some.inj hd] at hof
    cases hof
    exact ⟨rfl, str "tracker.user nobody", by decide, rfl⟩
  have hws : ∀ x ∈ [' '], isWhitespace x = true ∧ x ≠ '\n' := by
    intro x hx
    rw [List.mem_singleton.mp hx]
    exact ⟨rfl, by decide⟩
  refine ⟨_, rfl, ?_⟩
  exact (parse_commented_iff [] (str "tracker.user root") (str "\ntracker.user nobody\n") [' '] (str " for now") _
    (.inl rfl) (by decide) (.inr ⟨_, .inl rfl⟩) rfl (by decide) hws (by decide) rfl).mpr hharmless

/-- The sample configuration has a comment after the number of workers, which the parser refuses. -/
theorem workers_comment_refused :
    (∃ c, parse quoted (str "listen.udp.workers 16") = .ok c) ∧
      parse quoted (commented (str "listen.udp.workers 16") (str "          ")
        (str " SO_REUSEPORT sockets/tasks (default: 1)")) =
          .error ⟨1, str "invalid value: \"16          # SO_REUSEPORT sockets/tasks (default: 1)\""⟩ :=
  ⟨⟨_, rfl⟩, rfl⟩

end Comments

end ConfigFile
end Bluefrog
