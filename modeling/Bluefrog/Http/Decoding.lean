import Bluefrog.Http.Canonical
import Bluefrog.Http.Query

/-!
Percent-decoding as the source runs it, by an index into the input. It accepts exactly the strings whose
escapes are complete, and inverts every spelling of a byte string, so a request is about the info-hash it
spells wherever in the query it stands.
-/

open Rust BencodeFormat

namespace Bluefrog.Http

/-- The loop of `percent_decode` from an index: whether no escape is malformed, and the output buffer. -/
def percentDecodeFrom (input : List UInt8) (i : Nat) (out : List UInt8) : Bool × List UInt8 :=
  if hi : i < input.length then
    if input[i] = 37 then
      match input[i + 1]?, input[i + 2]? with
      | some h, some l =>
          match hexVal h, hexVal l with
          | some h, some l => percentDecodeFrom input (i + 3) (out ++ [h <<< 4 ||| l])
          | _, _ => (false, out)
      | _, _ => (false, out)
    else if input[i] = 43 then percentDecodeFrom input (i + 1) (out ++ [32])
    else percentDecodeFrom input (i + 1) (out ++ [input[i]])
  else (true, out)
termination_by input.length - i

/-- The string is made of plain bytes and of complete escapes. -/
inductive WellEscaped : List UInt8 → Prop
  | nil : WellEscaped []
  | plain {c : UInt8} {raw : List UInt8} (hpercent : c ≠ 37) (h : WellEscaped raw) : WellEscaped (c :: raw)
  | escape {hi lo : UInt8} {m n : Nat} {raw : List UInt8} (hhi : HexDigit hi m) (hlo : HexDigit lo n)
      (h : WellEscaped raw) : WellEscaped (37 :: hi :: lo :: raw)

theorem HexDigit.of_hexVal {c v : UInt8} (h : hexVal c = some v) : ∃ d, HexDigit c d := by
  have hshift : ∀ base d : Nat, c.toNat = base + d → c = UInt8.ofNat (base + d) := fun base d hd => by
    rw [← hd, UInt8.ofNat_toNat]
  unfold hexVal at h
  simp only [UInt8.le_iff_toNat_le] at h
  split_ifs at h with hdecimal hlower hupper
  · change 48 ≤ c.toNat ∧ c.toNat ≤ 57 at hdecimal
    rw [hshift 48 (c.toNat - 48) (by omega)]
    exact ⟨_, .decimal (by omega)⟩
  · change 97 ≤ c.toNat ∧ c.toNat ≤ 102 at hlower
    rw [hshift 97 (c.toNat - 97) (by omega)]
    exact ⟨_, .lower (by omega)⟩
  · change 65 ≤ c.toNat ∧ c.toNat ≤ 70 at hupper
    rw [hshift 65 (c.toNat - 65) (by omega)]
    exact ⟨_, .upper (by omega)⟩

/-- A percent sign without two more bytes is malformed. -/
theorem percentDecode_short {rest : List UInt8} (h : rest.length < 2) : percentDecode (37 :: rest) = none := by
  cases rest with
  | nil => rfl
  | cons hi rest =>
      cases rest with
      | nil => rfl
      | cons lo rest => exact absurd h (Nat.not_lt.mpr (Nat.le_add_left 2 rest.length))

/-- What the loop leaves, if so much is decoded from here on. -/
def Leaves (out : List UInt8) (decoded : Option (List UInt8)) (result : Bool × List UInt8) : Prop :=
  (∀ b, decoded = some b → result = (true, out ++ b)) ∧ (decoded = none → result.1 = false)

theorem Leaves.cons {out : List UInt8} {c : UInt8} {decoded : Option (List UInt8)} {result : Bool × List UInt8}
    (h : Leaves (out ++ [c]) decoded result) : Leaves out (decoded.map fun b => c :: b) result := by
  constructor
  · intro b hb
    obtain ⟨rest, hrest, rfl⟩ := Option.map_eq_some_iff.mp hb
    rw [h.1 rest hrest, List.append_assoc, List.singleton_append]
  · exact fun hnone => h.2 (Option.map_eq_none_iff.mp hnone)

theorem leaves_none (out out' : List UInt8) : Leaves out none (false, out') := ⟨fun _ h => (by cases h), fun _ => rfl⟩

/-- **The loop computes the decoding of what is left of the input.** -/
theorem percentDecodeFrom_leaves (input : List UInt8) (i : Nat) (out : List UInt8) :
    Leaves out (percentDecode (input.drop i)) (percentDecodeFrom input i out) := by
  have hescape : ∀ {i : Nat} {h l : UInt8} (hi : i < input.length), input[i] = 37 → input[i + 1]? = some h →
      input[i + 2]? = some l → input.drop i = 37 :: h :: l :: input.drop (i + 3) := by
    intro i h l hi hpercent hh hl
    obtain ⟨hi1, rfl⟩ := List.getElem?_eq_some_iff.mp hh
    obtain ⟨hi2, rfl⟩ := List.getElem?_eq_some_iff.mp hl
    rw [List.drop_eq_getElem_cons hi, List.drop_eq_getElem_cons hi1, List.drop_eq_getElem_cons hi2, hpercent]
  fun_induction percentDecodeFrom input i out with
  | case1 i out hi hpercent h l hl hh h' l' hlval hhval ih =>
      rw [hescape hi hpercent hh hl, percentDecode_percent, hhval, hlval]
      exact ih.cons
  | case2 i out hi hpercent h l hl hh hbad =>
      rw [hescape hi hpercent hh hl, percentDecode_percent]
      cases hhval : hexVal h with
      | none => exact leaves_none _ _
      | some h' =>
          cases hlval : hexVal l with
          | none => exact leaves_none _ _
          | some l' => exact (hbad h' l' hhval hlval).elim
  | case3 i out hi hpercent hshort =>
      have hlen : (input.drop (i + 1)).length < 2 := by
        rw [List.length_drop]
        by_contra hge
        exact hshort _ _ (List.getElem?_eq_getElem (by omega)) (List.getElem?_eq_getElem (by omega))
      rw [List.drop_eq_getElem_cons hi, hpercent, percentDecode_short hlen]
      exact leaves_none _ _
  | case4 i out hi hpercent hplus ih =>
      rw [List.drop_eq_getElem_cons hi, hplus, percentDecode_plus]
      exact ih.cons
  | case5 i out hi hpercent hplus ih =>
      rw [List.drop_eq_getElem_cons hi, percentDecode_plain hpercent hplus]
      exact ih.cons
  | case6 i out hi =>
      rw [List.drop_eq_nil_of_le (Nat.not_lt.mp hi)]
      exact ⟨fun b hb => (by cases hb; rw [List.append_nil]), fun h => (by cases h)⟩

theorem WellEscaped.decode {raw : List UInt8} (h : WellEscaped raw) : ∃ out, percentDecode raw = some out := by
  induction h with
  | nil => exact ⟨[], rfl⟩
  | @plain c raw hpercent _ ih =>
      obtain ⟨out, hout⟩ := ih
      by_cases hplus : c = 43
      · rw [hplus, percentDecode_plus, hout]
        exact ⟨_, rfl⟩
      · rw [percentDecode_plain hpercent hplus, hout]
        exact ⟨_, rfl⟩
  | escape hhi hlo _ ih =>
      obtain ⟨out, hout⟩ := ih
      rw [percentDecode_escape hhi hlo, hout]
      exact ⟨_, rfl⟩

theorem WellEscaped.of_decode {raw out : List UInt8} (h : percentDecode raw = some out) : WellEscaped raw := by
  induction raw using percentDecode.induct generalizing out with
  | case1 => exact .nil
  | case2 hi lo rest ih =>
      rw [percentDecode_percent] at h
      obtain ⟨m, hhi, h⟩ := Option.bind_eq_some_iff.mp h
      obtain ⟨n, hlo, h⟩ := Option.bind_eq_some_iff.mp h
      obtain ⟨out', hrest, -⟩ := Option.map_eq_some_iff.mp h
      obtain ⟨_, hdigit⟩ := HexDigit.of_hexVal hhi
      obtain ⟨_, hdigit'⟩ := HexDigit.of_hexVal hlo
      exact .escape hdigit hdigit' (ih hrest)
  | case3 rest hshort =>
      have hlen : rest.length < 2 := by
        rcases rest with _ | ⟨hi, _ | ⟨lo, tail⟩⟩
        · exact Nat.two_pos
        · exact Nat.one_lt_two
        · exact (hshort hi lo tail rfl).elim
      rw [percentDecode_short hlen] at h
      cases h
  | case4 rest _ ih =>
      rw [percentDecode_plus] at h
      obtain ⟨out', hrest, -⟩ := Option.map_eq_some_iff.mp h
      exact .plain (by decide) (ih hrest)
  | case5 c rest hpercent hplus ih =>
      rw [percentDecode_plain hpercent hplus] at h
      obtain ⟨out', hrest, -⟩ := Option.map_eq_some_iff.mp h
      exact .plain hpercent (ih hrest)

/-- `percent_decode(input, out)`. -/
def percentDecodeInto (input out : List UInt8) : Bool × List UInt8 := percentDecodeFrom input 0 out

theorem percentDecodeInto_leaves (input out : List UInt8) :
    Leaves out (percentDecode input) (percentDecodeInto input out) := percentDecodeFrom_leaves input 0 out

/-- **Exactly the well-escaped strings are accepted.** -/
theorem percentDecodeInto_iff (input out : List UInt8) :
    (percentDecodeInto input out).1 = true ↔ WellEscaped input := by
  have hleaves := percentDecodeInto_leaves input out
  cases hdecode : percentDecode input with
  | none =>
      rw [hleaves.2 hdecode]
      apply iff_of_false Bool.false_ne_true
      intro h
      obtain ⟨out', hout⟩ := h.decode
      rw [hdecode] at hout
      cases hout
  | some b =>
      rw [hleaves.1 b hdecode]
      exact iff_of_true rfl (.of_decode hdecode)

/-- The check of the handler: the decoding succeeds, and has the length of an info-hash. -/
theorem decodeHash_eq (raw : List UInt8) : decodeHash raw =
    if (percentDecodeInto raw []).1 = true then toArray hashLen (percentDecodeInto raw []).2 else none := by
  have hleaves := percentDecodeInto_leaves raw []
  cases hdecode : percentDecode raw with
  | none => rw [decodeHash, hdecode, hleaves.2 hdecode, if_neg Bool.false_ne_true, Option.bind_none]
  | some b => rw [decodeHash, hdecode, hleaves.1 b hdecode, if_pos rfl, Option.bind_some, List.nil_append]

section Queries

/-- The pairs of some segments. -/
def pairsOf (segments : List (List UInt8)) : List Pair := (segments.filter fun s => s ≠ []).map splitSegment

/-- How many segments name an info-hash. -/
def hashCount (segments : List (List UInt8)) : Nat :=
  segments.countP fun s => (splitSegment s).1 = ascii "info_hash"

/-- A query with an info-hash among its segments. -/
def queryOf (pre post : List (List UInt8)) (raw : List UInt8) : List UInt8 :=
  joinSegments (pre ++ segmentOf (ascii "info_hash") raw :: post)

variable {pre post : List (List UInt8)} {raw : List UInt8}

theorem queryPairs_queryOf (h : ∀ s ∈ pre ++ post, 38 ∉ s) (hraw : 38 ∉ raw) :
    queryPairs (queryOf pre post raw) = pairsOf pre ++ (ascii "info_hash", raw) :: pairsOf post := by
  have hall : ∀ s ∈ pre ++ segmentOf (ascii "info_hash") raw :: post, 38 ∉ s := by
    intro s hs
    rw [List.mem_append, List.mem_cons] at hs
    rcases hs with hpre | rfl | hpost
    · exact h s (List.mem_append_left _ hpre)
    · rw [segmentOf, List.mem_append, List.mem_cons]
      rintro (hname | hsep | hin)
      · exact absurd hname (by decide)
      · exact absurd hsep (by decide)
      · exact hraw hin
    · exact h s (List.mem_append_right _ hpost)
  rw [queryOf, queryPairs_joinSegments hall, List.filter_append, List.map_append,
    List.filter_cons_of_pos (by simpa using segmentOf_ne_nil _ _), List.map_cons,
    splitSegment_segmentOf (by decide)]
  rfl

theorem mem_pairsOf {segments : List (List UInt8)} {pair : Pair} :
    pair ∈ pairsOf segments ↔ ∃ s ∈ segments, s ≠ [] ∧ splitSegment s = pair := by
  simp only [pairsOf, List.mem_map, List.mem_filter, decide_eq_true_eq, and_assoc]

/-- An empty segment names nothing. -/
theorem exists_mem_pairsOf {segments : List (List UInt8)} {p : Pair → Prop} (hempty : ¬p ([], [])) :
    (∃ pair ∈ pairsOf segments, p pair) ↔ ∃ s ∈ segments, p (splitSegment s) := by
  constructor
  · rintro ⟨pair, hmem, hp⟩
    obtain ⟨s, hs, -, rfl⟩ := mem_pairsOf.mp hmem
    exact ⟨s, hs, hp⟩
  · rintro ⟨s, hs, hp⟩
    refine ⟨_, mem_pairsOf.mpr ⟨s, hs, ?_, rfl⟩, hp⟩
    rintro rfl
    exact hempty hp

theorem exists_mem_queryPairs (h : ∀ s ∈ pre ++ post, 38 ∉ s) (hraw : 38 ∉ raw) {p : Pair → Prop}
    (hempty : ¬p ([], [])) (hown : ¬p (ascii "info_hash", raw)) :
    (∃ pair ∈ queryPairs (queryOf pre post raw), p pair) ↔ ∃ s ∈ pre ++ post, p (splitSegment s) := by
  rw [queryPairs_queryOf h hraw]
  simp only [List.mem_append, List.mem_cons, or_and_right, exists_or, exists_eq_left]
  rw [exists_mem_pairsOf hempty, exists_mem_pairsOf hempty, or_iff_right hown]

theorem length_filter_pairsOf (segments : List (List UInt8)) :
    ((pairsOf segments).filter fun pair => pair.1 = ascii "info_hash").length = hashCount segments := by
  rw [hashCount, ← List.countP_eq_length_filter, pairsOf, List.countP_map, List.countP_filter]
  refine List.countP_congr fun s _ => ?_
  simp only [Function.comp, Bool.and_eq_true, decide_eq_true_eq, and_iff_left_iff_imp]
  rintro hname rfl
  exact absurd hname (by decide)

/-- The value of a name that no later pair has. -/
theorem lastValue_of_last {name raw : List UInt8} {pairs rest : List Pair} (h : ¬Named name rest) :
    lastValue name (pairs ++ (name, raw) :: rest) = some raw := by
  have hrest : rest.filter (fun pair => pair.1 = name) = [] :=
    List.filter_eq_nil_iff.mpr fun pair hmem => by simpa using fun hname => h ⟨pair, hmem, hname⟩
  rw [lastValue, List.filter_append, List.filter_cons_of_pos (by simp), hrest, List.map_append, List.map_singleton,
    List.getLast?_concat]

/-- A scrape that is not refused reports on its info-hashes in request order. -/
theorem scrapeFiles_getElem? (store : Store) {raw : List UInt8} {hash : InfoHash} (hraw : decodeHash raw = some hash)
    {pairs rest : List Pair} {files out : List (InfoHash × Counts)}
    (h : scrapeFiles store (pairs ++ (ascii "info_hash", raw) :: rest) files = .ok out)
    (hroom : files.length + (pairs.filter fun pair => pair.1 = ascii "info_hash").length < maxScrapeHashes) :
    out[files.length + (pairs.filter fun pair => pair.1 = ascii "info_hash").length]? =
      some (hash, store.scrape hash) := by
  induction pairs generalizing files with
  | nil =>
      rw [List.filter_nil, List.length_nil, Nat.add_zero] at hroom ⊢
      rw [List.nil_append, scrapeFiles, if_pos rfl, if_neg (Nat.not_le.mpr hroom), hraw] at h
      have hout := scrapeFiles_ok store h
      rw [hout, List.append_assoc, List.getElem?_append_right (Nat.le_refl _), Nat.sub_self]
      rfl
  | cons pair pairs ih =>
      obtain ⟨key, value⟩ := pair
      rw [List.cons_append, scrapeFiles] at h
      by_cases hkey : key = ascii "info_hash"
      · rw [List.filter_cons_of_pos (by simpa using hkey), List.length_cons] at hroom ⊢
        rw [if_pos hkey, if_neg (by omega)] at h
        cases hvalue : decodeHash value with
        | none =>
            rw [hvalue] at h
            cases h
        | some first =>
            rw [hvalue] at h
            have hlen : (files ++ [(first, store.scrape first)]).length = files.length + 1 := List.length_append
            have hat := ih h (by rw [hlen]; omega)
            rwa [hlen, Nat.add_right_comm, Nat.add_assoc] at hat
      · rw [List.filter_cons_of_neg (by simpa using hkey)] at hroom ⊢
        rw [if_neg hkey] at h
        exact ih h hroom

theorem scrapeFiles_error_mem (store : Store) {pairs : List Pair} {files : List (InfoHash × Counts)}
    {response : Response} (h : scrapeFiles store pairs files = .error response) :
    ∃ pair ∈ pairs, pair.1 = ascii "info_hash" ∧ decodeHash pair.2 = none := by
  induction pairs generalizing files with
  | nil => cases h
  | cons pair pairs ih =>
      obtain ⟨key, raw⟩ := pair
      unfold scrapeFiles at h
      split_ifs at h with hkey
      · cases hhash : decodeHash raw with
        | none => exact ⟨_, List.mem_cons_self, hkey, hhash⟩
        | some hash =>
            rw [hhash] at h
            obtain ⟨pair, hmem, hpair⟩ := ih h
            exact ⟨pair, List.mem_cons_of_mem _ hmem, hpair⟩
      · obtain ⟨pair, hmem, hpair⟩ := ih h
        exact ⟨pair, List.mem_cons_of_mem _ hmem, hpair⟩

end Queries

end Bluefrog.Http

namespace Bluefrog.HttpHandler

open Http

/-- What a request is about that carries an info-hash between other segments. -/
structure Carries (itoa : Itoa) (order : HashOrder) (h : HttpHandler) (pre post : List (List UInt8))
    (raw : List UInt8) (hash : InfoHash) (srcIp : Bytes 16) (isV4 : Bool) (now interval : UInt32) : Prop where
  /-- An announce is refused for the sake of other segments only. -/
  announce_badRequest :
    (h.handle itoa order (ascii "/announce" ++ ascii "?" ++ queryOf pre post raw) srcIp isV4 now interval).2 =
      .badRequest ↔ ∃ s ∈ pre ++ post, BadPair (splitSegment s)
  announce : (¬∃ s ∈ pre ++ post, BadPair (splitSegment s)) →
    (∃ s ∈ pre ++ post, (splitSegment s).1 = ascii "port") → (¬∃ s ∈ post, (splitSegment s).1 = ascii "info_hash") →
    ∃ port left event numwant peers4 peers6,
      let op := announceOp (announcedPeer hash port srcIp isV4) left event numwant now []
      h.handle itoa order (ascii "/announce" ++ ascii "?" ++ queryOf pre post raw) srcIp isV4 now interval =
        (⟨h.store.step order op⟩, .body (Bencode.announceResponse itoa []
          ((h.store.step order op).scrape hash) interval peers4 peers6))
  /-- A scrape is refused for the sake of other info-hashes only. -/
  scrape_badRequest :
    (h.handle itoa order (ascii "/scrape" ++ ascii "?" ++ queryOf pre post raw) srcIp isV4 now interval).2 =
      .badRequest → ∃ s ∈ pre ++ post, (splitSegment s).1 = ascii "info_hash" ∧ decodeHash (splitSegment s).2 = none
  scrape :
    (h.handle itoa order (ascii "/scrape" ++ ascii "?" ++ queryOf pre post raw) srcIp isV4 now interval).2 ≠
      .badRequest → hashCount pre < maxScrapeHashes →
    ∃ files, h.handle itoa order (ascii "/scrape" ++ ascii "?" ++ queryOf pre post raw) srcIp isV4 now interval =
        (h, .body (Bencode.scrapeResponse itoa [] files)) ∧
      files[hashCount pre]? = some (hash, h.store.scrape hash)

variable {itoa : Itoa} {order : HashOrder} (h : HttpHandler) {pre post : List (List UInt8)} {raw : List UInt8}

theorem handle_announce (query : List UInt8) (srcIp : Bytes 16) (isV4 : Bool) (now interval : UInt32) :
    h.handle itoa order (ascii "/announce" ++ ascii "?" ++ query) srcIp isV4 now interval =
      h.announce itoa order query srcIp isV4 now interval := by
  have hsplit : splitTarget (ascii "/announce" ++ ascii "?" ++ query) = (ascii "/announce", query) := by
    rw [splitTarget, splitOnce_target (by decide), Option.getD_some]
  rw [handle_eq, hsplit, if_neg (show ascii "/announce" ≠ ascii "/" by decide), if_pos rfl]

theorem handle_scrape (query : List UInt8) (srcIp : Bytes 16) (isV4 : Bool) (now interval : UInt32) :
    h.handle itoa order (ascii "/scrape" ++ ascii "?" ++ query) srcIp isV4 now interval =
      (h, h.scrape itoa query) := by
  have hsplit : splitTarget (ascii "/scrape" ++ ascii "?" ++ query) = (ascii "/scrape", query) := by
    rw [splitTarget, splitOnce_target (by decide), Option.getD_some]
  rw [handle_eq, hsplit, if_neg (show ascii "/scrape" ≠ ascii "/" by decide),
    if_neg (show ascii "/scrape" ≠ ascii "/announce" by decide), if_pos rfl]

/-- A spelled info-hash is what the request is about. -/
theorem carries_of_decodeHash (hsegments : ∀ s ∈ pre ++ post, 38 ∉ s) (hamp : 38 ∉ raw) {hash : InfoHash}
    (hraw : decodeHash raw = some hash) (srcIp : Bytes 16) (isV4 : Bool) (now interval : UInt32) :
    Carries itoa order h pre post raw hash srcIp isV4 now interval := by
  have hpairs := queryPairs_queryOf hsegments hamp
  have hempty : ¬BadPair ([], []) := by
    rintro (⟨hname, -⟩ | ⟨hname, -⟩ | ⟨hname, -⟩) <;> exact absurd hname (by decide)
  have hown : ¬BadPair (ascii "info_hash", raw) := by
    rintro (⟨-, hnone⟩ | ⟨hname, -⟩ | ⟨hname, -⟩)
    · rw [(decodeHash_eq_none_iff raw).mpr hnone] at hraw
      cases hraw
    · exact absurd hname (show ascii "info_hash" ≠ ascii "port" by decide)
    · exact absurd hname (show ascii "info_hash" ≠ ascii "compact" by decide)
  have hbad := exists_mem_queryPairs hsegments hamp hempty hown
  refine ⟨?_, ?_, ?_, ?_⟩
  · rw [handle_announce, announce_badRequest_iff, hbad]
  · intro hgood hport hlast
    rw [handle_announce]
    have hlastValue : lastValue (ascii "info_hash") (queryPairs (queryOf pre post raw)) = some raw := by
      rw [hpairs]
      apply lastValue_of_last
      rw [Named, exists_mem_pairsOf (by decide)]
      exact hlast
    have hhash : (paramsOf (queryPairs (queryOf pre post raw))).infoHash = some hash := by
      rw [paramsOf, hlastValue, Option.bind_some, hraw]
    have hnone : ¬∃ pair ∈ queryPairs (queryOf pre post raw), BadPair pair := mt hbad.mp hgood
    have hnamed : Named (ascii "port") (queryPairs (queryOf pre post raw)) :=
      (exists_mem_queryPairs hsegments hamp (by decide)
        (show ascii "info_hash" ≠ ascii "port" by decide)).mpr hport
    obtain ⟨_, port, -, hport⟩ := (paramsOf_complete_iff hnone).mpr ⟨⟨_, mem_of_lastValue hlastValue, rfl⟩, hnamed⟩
    obtain ⟨peers4, peers6, hannounce, -⟩ := announce_spec itoa order h srcIp isV4 now interval
      ((foldlM_read _).2 hnone) hhash hport
    exact ⟨port, _, _, _, peers4, peers6, hannounce⟩
  · rw [handle_scrape, HttpHandler.scrape]
    intro hresponse
    cases hfiles : scrapeFiles h.store (queryPairs (queryOf pre post raw)) [] with
    | error response =>
        refine (exists_mem_queryPairs hsegments hamp (by decide) ?_).mp (scrapeFiles_error_mem h.store hfiles)
        rintro ⟨-, hnone⟩
        rw [hnone] at hraw
        cases hraw
    | ok files =>
        rw [hfiles] at hresponse
        cases hresponse
  · rw [handle_scrape, HttpHandler.scrape]
    intro hresponse hroom
    cases hfiles : scrapeFiles h.store (queryPairs (queryOf pre post raw)) [] with
    | error response =>
        rw [hfiles] at hresponse
        exact absurd (scrapeFiles_error h.store hfiles) hresponse
    | ok files =>
        refine ⟨files, rfl, ?_⟩
        rw [hpairs] at hfiles
        have hat := scrapeFiles_getElem? h.store hraw hfiles
        rw [length_filter_pairsOf, List.length_nil, Nat.zero_add] at hat
        exact hat hroom

end Bluefrog.HttpHandler

namespace Bluefrog.Http

/-- **Percent-decoding accepts exactly the well-escaped strings, inverts every spelling, and so an info-hash is
understood however it is spelled and wherever it stands.** -/
theorem percent_decoding (itoa : Itoa) (order : HashOrder) :
    (∀ input out, (percentDecodeInto input out).1 = true ↔ WellEscaped input) ∧
    (∀ raw b out, Spelling raw b → percentDecodeInto raw out = (true, out ++ b)) ∧
    (∀ raw, decodeHash raw =
      if (percentDecodeInto raw []).1 = true then toArray hashLen (percentDecodeInto raw []).2 else none) ∧
    ∀ (hash : InfoHash) raw, Spelling raw hash.toList → 38 ∉ raw → ∀ pre post, (∀ s ∈ pre ++ post, 38 ∉ s) →
      ∀ (h : HttpHandler) srcIp isV4 now interval,
        HttpHandler.Carries itoa order h pre post raw hash srcIp isV4 now interval :=
  ⟨percentDecodeInto_iff, fun raw b out h => (percentDecodeInto_leaves raw out).1 b h.decode, decodeHash_eq,
    fun _ _ hspelling hamp _ _ hsegments h srcIp isV4 now interval =>
      HttpHandler.carries_of_decodeHash h hsegments hamp hspelling.decodeHash srcIp isV4 now interval⟩

/-- An info-hash of bytes that mean something in a target, as themselves. -/
def delimiterHash : InfoHash := ⟨ascii "=?=?=?=?=?/#=?=?=?=?", rfl⟩

/-- A scrape for that info-hash, behind another parameter. -/
theorem percent_decoding_delimiters : ∃ files,
    (⟨.new⟩ : HttpHandler).handle (fun n => decimal n.toNat) HashOrder.arbitrary
        (ascii "/scrape" ++ ascii "?" ++ queryOf [ascii "x=1"] [] delimiterHash.toList) (.replicate _ 1) false 16 1800 =
      (⟨.new⟩, .body (Bencode.scrapeResponse (fun n => decimal n.toNat) [] files)) ∧
      files[0]? = some (delimiterHash, Store.new.scrape delimiterHash) := by
  have hspelling : Spelling delimiterHash.toList delimiterHash.toList := (PercentEncoding.self (by decide)).spelling
  have hcarries := (percent_decoding (fun n => decimal n.toNat) HashOrder.arbitrary).2.2.2 delimiterHash _ hspelling
    (by decide) [ascii "x=1"] [] (by decide) ⟨.new⟩ (.replicate _ 1) false 16 1800
  refine hcarries.scrape (fun hrefused => ?_) (by decide)
  obtain ⟨s, hs, hname, -⟩ := hcarries.scrape_badRequest hrefused
  rw [List.append_nil, List.mem_singleton] at hs
  rw [hs] at hname
  exact absurd hname (by decide)

end Bluefrog.Http
