import Bluefrog.Http.Handler

/-!
Which announces the HTTP handler accepts. One bad pair anywhere refuses the request; else each parameter
is that of the last pair that sets it. Nothing is done to the store before all pairs are read.
-/

open Rust BencodeFormat

namespace Bluefrog
namespace Http

abbrev Pair := List UInt8 × List UInt8

/-- The announce loop refuses the pair. -/
def BadPair (pair : Pair) : Prop :=
  (pair.1 = ascii "info_hash" ∧ ∀ out, percentDecode pair.2 = some out → out.length ≠ hashLen) ∨
    (pair.1 = ascii "port" ∧ parseUnsigned (2 ^ 16) pair.2 = none) ∨
    (pair.1 = ascii "compact" ∧ pair.2 = ascii "0")

/-- A name occurs among the pairs. -/
def Named (name : List UInt8) (pairs : List Pair) : Prop := ∃ pair ∈ pairs, pair.1 = name

instance (name : List UInt8) (pairs : List Pair) : Decidable (Named name pairs) :=
  inferInstanceAs (Decidable (∃ pair ∈ pairs, pair.1 = name))

/-- The value of the last pair of a name. -/
def lastValue (name : List UInt8) (pairs : List Pair) : Option (List UInt8) :=
  ((pairs.filter fun pair => pair.1 = name).map Prod.snd).getLast?

/-- The last peer count that parses. -/
def lastNumwant (pairs : List Pair) : Option Nat :=
  ((pairs.filter fun pair => pair.1 = ascii "numwant").filterMap fun pair => parseUnsigned (2 ^ 64) pair.2).getLast?

/-- The parameters of a query without a bad pair. -/
def paramsOf (pairs : List Pair) : Params where
  infoHash := (lastValue (ascii "info_hash") pairs).bind decodeHash
  port := ((lastValue (ascii "port") pairs).bind (parseUnsigned (2 ^ 16))).map UInt16.ofNat
  left := ((lastValue (ascii "left") pairs).map fun raw =>
    UInt64.ofNat ((parseUnsigned (2 ^ 64) raw).getD 1)).getD 1
  event := (lastValue (ascii "event") pairs).getD []
  numwant := min ((lastNumwant pairs).getD numwantDefault) numwantMax
  numwant_le := Nat.min_le_right _ _

theorem decodeHash_eq_none_iff (raw : List UInt8) :
    decodeHash raw = none ↔ ∀ out, percentDecode raw = some out → out.length ≠ hashLen := by
  rw [decodeHash, Option.bind_eq_none_iff]
  refine forall_congr' fun out => imp_congr_right fun _ => ?_
  rw [toArray]
  split_ifs with hlen
  · exact iff_of_false id (not_not_intro hlen)
  · exact iff_of_true rfl hlen

instance (pair : Pair) : Decidable (BadPair pair) :=
  decidable_of_iff ((pair.1 = ascii "info_hash" ∧ decodeHash pair.2 = none) ∨
      (pair.1 = ascii "port" ∧ parseUnsigned (2 ^ 16) pair.2 = none) ∨
      (pair.1 = ascii "compact" ∧ pair.2 = ascii "0")) (by rw [BadPair, decodeHash_eq_none_iff])

section Last

variable {name : List UInt8} {pairs : List Pair} {pair : Pair}

theorem lastValue_append_singleton (name : List UInt8) (pairs : List Pair) (pair : Pair) :
    lastValue name (pairs ++ [pair]) = if pair.1 = name then some pair.2 else lastValue name pairs := by
  rw [lastValue, List.filter_append, List.map_append]
  split_ifs with h
  · rw [List.filter_cons_of_pos (by simpa using h), List.map_cons, List.filter_nil, List.map_nil, List.getLast?_concat]
  · rw [List.filter_cons_of_neg (by simpa using h), List.filter_nil, List.map_nil, List.append_nil, lastValue]

theorem lastNumwant_append_singleton (pairs : List Pair) (pair : Pair) :
    lastNumwant (pairs ++ [pair]) =
      if pair.1 = ascii "numwant" then (parseUnsigned (2 ^ 64) pair.2).or (lastNumwant pairs)
      else lastNumwant pairs := by
  rw [lastNumwant, List.filter_append, List.filterMap_append]
  split_ifs with h
  · rw [List.filter_cons_of_pos (by simpa using h), List.filter_nil]
    cases hparse : parseUnsigned (2 ^ 64) pair.2 with
    | none => simp only [List.filterMap_cons, hparse, List.filterMap_nil, List.append_nil, Option.none_or, lastNumwant]
    | some n => simp only [List.filterMap_cons, hparse, List.filterMap_nil, List.getLast?_concat, Option.some_or]
  · rw [List.filter_cons_of_neg (by simpa using h), List.filter_nil, List.filterMap_nil, List.append_nil, lastNumwant]

theorem lastValue_eq_none_iff : lastValue name pairs = none ↔ ¬Named name pairs := by
  rw [lastValue, List.getLast?_eq_none_iff, List.map_eq_nil_iff, List.filter_eq_nil_iff]
  simp only [Named, decide_eq_true_eq, not_exists, not_and]

theorem mem_of_lastValue {raw : List UInt8} (h : lastValue name pairs = some raw) : (name, raw) ∈ pairs := by
  obtain ⟨pair, hmem, rfl⟩ := List.mem_map.mp (List.mem_of_getLast? h)
  rw [List.mem_filter, decide_eq_true_eq] at hmem
  rw [← hmem.2]
  exact hmem.1

end Last

/-- The names the loop tells apart. -/
theorem names_distinct : [ascii "info_hash", ascii "port", ascii "left", ascii "event", ascii "compact",
    ascii "numwant"].Pairwise fun a b => a ≠ b ∧ b ≠ a := by decide

/-- One turn of the loop reads one more pair, unless it is bad. -/
theorem read_paramsOf (pairs : List Pair) (pair : Pair) :
    (BadPair pair → (paramsOf pairs).read pair = .error .badRequest) ∧
      (¬BadPair pair → (paramsOf pairs).read pair = .ok (paramsOf (pairs ++ [pair]))) := by
  obtain ⟨key, raw⟩ := pair
  have hbad : BadPair (key, raw) ↔ (key = ascii "info_hash" ∧ decodeHash raw = none) ∨
      (key = ascii "port" ∧ parseUnsigned (2 ^ 16) raw = none) ∨ (key = ascii "compact" ∧ raw = ascii "0") := by
    rw [BadPair, ← decodeHash_eq_none_iff]
  have hnames := names_distinct
  simp only [List.pairwise_cons, List.mem_cons, List.not_mem_nil, or_false, forall_eq_or_imp, forall_eq] at hnames
  rw [hbad]
  simp only [paramsOf, lastValue_append_singleton, lastNumwant_append_singleton, Params.read]
  by_cases hhash : key = ascii "info_hash"
  · subst hhash
    cases hdecode : decodeHash raw <;> simp [hnames, hdecode]
  by_cases hport : key = ascii "port"
  · subst hport
    rcases Option.eq_none_or_eq_some (parseUnsigned (2 ^ 16) raw) with hparse | ⟨port, hparse⟩ <;>
      simp [-Nat.reducePow, hnames, hparse]
  by_cases hleft : key = ascii "left"
  · subst hleft
    simp [hnames]
  by_cases hevent : key = ascii "event"
  · subst hevent
    simp [hnames]
  by_cases hcompact : key = ascii "compact"
  · subst hcompact
    by_cases hzero : raw = ascii "0" <;> simp [hnames, hzero]
  by_cases hnumwant : key = ascii "numwant"
  · subst hnumwant
    rcases Option.eq_none_or_eq_some (parseUnsigned (2 ^ 64) raw) with hparse | ⟨n, hparse⟩ <;>
      simp [-Nat.reducePow, hnames, hparse]
  · simp [hhash, hport, hleft, hevent, hcompact, hnumwant]

/-- **What the announce loop reads**: nothing if a pair is bad, wherever it is, and else the last of each. -/
theorem foldlM_read (pairs : List Pair) :
    ((∃ pair ∈ pairs, BadPair pair) → pairs.foldlM Params.read Params.default = .error .badRequest) ∧
      ((¬∃ pair ∈ pairs, BadPair pair) → pairs.foldlM Params.read Params.default = .ok (paramsOf pairs)) := by
  induction pairs using List.reverseRecOn with
  | nil => exact ⟨fun ⟨_, hmem, _⟩ => absurd hmem List.not_mem_nil, fun _ => rfl⟩
  | append_singleton pairs pair ih =>
      have hsplit : (∃ pair' ∈ pairs ++ [pair], BadPair pair') ↔ (∃ pair' ∈ pairs, BadPair pair') ∨ BadPair pair := by
        simp only [List.mem_append, List.mem_singleton, or_and_right, exists_or, exists_eq_left]
      rw [hsplit, List.foldlM_append]
      by_cases hpre : ∃ pair' ∈ pairs, BadPair pair'
      · rw [ih.1 hpre]
        exact ⟨fun _ => rfl, fun hgood => absurd (.inl hpre) hgood⟩
      · rw [ih.2 hpre]
        obtain ⟨hbad, hgood⟩ := read_paramsOf pairs pair
        constructor
        · rintro (h | h)
          · exact absurd h hpre
          · exact congrArg (fun r => r.bind pure) (hbad h)
        · exact fun h => congrArg (fun r => r.bind pure) (hgood (not_or.mp h).2)

/-- Without a bad pair, an info-hash and a port that are named are read. -/
theorem paramsOf_complete_iff {pairs : List Pair} (hgood : ¬∃ pair ∈ pairs, BadPair pair) :
    (∃ hash port, (paramsOf pairs).infoHash = some hash ∧ (paramsOf pairs).port = some port) ↔
      Named (ascii "info_hash") pairs ∧ Named (ascii "port") pairs := by
  have hhash : (∃ hash, (paramsOf pairs).infoHash = some hash) ↔ Named (ascii "info_hash") pairs := by
    rw [paramsOf]
    cases hlast : lastValue (ascii "info_hash") pairs with
    | none => exact iff_of_false (by rintro ⟨_, h⟩; cases h) (lastValue_eq_none_iff.mp hlast)
    | some raw =>
        have hmem := mem_of_lastValue hlast
        refine iff_of_true ?_ ⟨_, hmem, rfl⟩
        rw [Option.bind_some, ← Option.isSome_iff_exists, Option.isSome_iff_ne_none]
        exact fun hnone => hgood ⟨_, hmem, .inl ⟨rfl, (decodeHash_eq_none_iff raw).mp hnone⟩⟩
  have hport : (∃ port, (paramsOf pairs).port = some port) ↔ Named (ascii "port") pairs := by
    rw [paramsOf]
    cases hlast : lastValue (ascii "port") pairs with
    | none => exact iff_of_false (by rintro ⟨_, h⟩; cases h) (lastValue_eq_none_iff.mp hlast)
    | some raw =>
        have hmem := mem_of_lastValue hlast
        refine iff_of_true ?_ ⟨_, hmem, rfl⟩
        rw [Option.bind_some, ← Option.isSome_iff_exists, Option.isSome_iff_ne_none, Ne, Option.map_eq_none_iff]
        exact fun hnone => hgood ⟨_, hmem, .inr (.inl ⟨rfl, hnone⟩)⟩
  rw [← hhash, ← hport]
  exact ⟨fun ⟨hash, port, hh, hp⟩ => ⟨⟨hash, hh⟩, port, hp⟩, fun ⟨⟨hash, hh⟩, port, hp⟩ => ⟨hash, port, hh, hp⟩⟩

end Http

namespace HttpHandler

open Http

/-- The body for a client that forgot something. -/
def forgotBody (itoa : Itoa) : List UInt8 :=
  Bencode.failure itoa [] (ascii "Your client forgot to send your torrent's info_hash.")

/-- What becomes of an announce, by the pairs of its query. -/
structure AnnounceOutcome (itoa : Itoa) (order : HashOrder) (h : HttpHandler) (pairs : List Pair) (srcIp : Bytes 16)
    (isV4 : Bool) (now interval : UInt32) (result : HttpHandler × Response) : Prop where
  badRequest : result.2 = .badRequest ↔ ∃ pair ∈ pairs, BadPair pair
  forgot : (¬∃ pair ∈ pairs, BadPair pair) → (result.2 = .body (forgotBody itoa) ↔
    ¬Named (ascii "info_hash") pairs ∨ ¬Named (ascii "port") pairs)
  /-- One operation of the store, on the parameters read last. The body has the counts after it, and the peers that it
  returns in the list of the source's family. -/
  accepted : (¬∃ pair ∈ pairs, BadPair pair) → Named (ascii "info_hash") pairs → Named (ascii "port") pairs →
    ∃ hash port, (paramsOf pairs).infoHash = some hash ∧ (paramsOf pairs).port = some port ∧
      let op := announceOp (announcedPeer hash port srcIp isV4) (paramsOf pairs).left
        (eventOf (paramsOf pairs).event) (paramsOf pairs).numwant now []
      let peers := (h.store.exec order op).2.peersOut
      result = (⟨(h.store.exec order op).1⟩, .body (Bencode.announceResponse itoa []
        ((h.store.exec order op).1.scrape hash) interval (if isV4 then peers else []) (if isV4 then [] else peers)))
  unchanged : (∃ pair ∈ pairs, BadPair pair) ∨ ¬Named (ascii "info_hash") pairs ∨ ¬Named (ascii "port") pairs →
    result.1 = h

variable {itoa : Itoa} (order : HashOrder)

/-- The body of an announce that was accepted is not that of one that forgot something. -/
theorem forgotBody_ne_announceResponse (hitoa : itoa.Formats) (counts : Counts) (interval : UInt32)
    {peers4 peers6 : List UInt8} (h4 : peers4.length < 2 ^ 64) (h6 : peers6.length < 2 ^ 64) :
    Bencode.announceResponse itoa [] counts interval peers4 peers6 ≠ forgotBody itoa := by
  intro h
  obtain ⟨entries, hentries⟩ := Bencode.decode_announceResponse hitoa counts interval h4 h6
  rw [h, forgotBody, Bencode.failure_eq hitoa [] (by decide), List.nil_append, decode_encode] at hentries
  injection hentries with hdict
  injection hdict with hlist
  injection hlist with hfirst
  exact absurd (congrArg Prod.fst hfirst) (show ascii "failure reason" ≠ ascii "complete" by decide)

/-- The three ways of an announce. -/
theorem announce_cases (h : HttpHandler) (query : List UInt8) (srcIp : Bytes 16) (isV4 : Bool)
    (now interval : UInt32) :
    ((∃ pair ∈ queryPairs query, BadPair pair) ∧
      h.announce itoa order query srcIp isV4 now interval = (h, .badRequest)) ∨
    ((¬∃ pair ∈ queryPairs query, BadPair pair) ∧
      ¬(Named (ascii "info_hash") (queryPairs query) ∧ Named (ascii "port") (queryPairs query)) ∧
      h.announce itoa order query srcIp isV4 now interval = (h, .body (forgotBody itoa))) ∨
    ((¬∃ pair ∈ queryPairs query, BadPair pair) ∧
      (Named (ascii "info_hash") (queryPairs query) ∧ Named (ascii "port") (queryPairs query)) ∧
      ∃ hash port, (paramsOf (queryPairs query)).infoHash = some hash ∧
        (paramsOf (queryPairs query)).port = some port ∧
        let op := announceOp (announcedPeer hash port srcIp isV4) (paramsOf (queryPairs query)).left
          (eventOf (paramsOf (queryPairs query)).event) (paramsOf (queryPairs query)).numwant now []
        let peers := (h.store.exec order op).2.peersOut
        (if isV4 then peers else []).length < 2 ^ 64 ∧ (if isV4 then [] else peers).length < 2 ^ 64 ∧
          h.announce itoa order query srcIp isV4 now interval = (⟨(h.store.exec order op).1⟩,
            .body (Bencode.announceResponse itoa [] ((h.store.exec order op).1.scrape hash) interval
              (if isV4 then peers else []) (if isV4 then [] else peers)))) := by
  obtain ⟨hbad, hgood⟩ := foldlM_read (queryPairs query)
  by_cases hany : ∃ pair ∈ queryPairs query, BadPair pair
  · exact .inl ⟨hany, by rw [announce, hbad hany]⟩
  · by_cases hall : ∃ hash port, (paramsOf (queryPairs query)).infoHash = some hash ∧
        (paramsOf (queryPairs query)).port = some port
    · have hnamed := (paramsOf_complete_iff hany).mp hall
      obtain ⟨hash, port, hhash, hport⟩ := hall
      obtain ⟨h4, h6⟩ := length_lists_le
        (length_peersOut_le order h.store hash port srcIp isV4 now (paramsOf (queryPairs query))) isV4
      exact .inr (.inr ⟨hany, hnamed, hash, port, hhash, hport, Nat.lt_of_le_of_lt h4 (by decide),
        Nat.lt_of_le_of_lt h6 (by decide), announce_eq itoa order h srcIp isV4 now interval (hgood hany) hhash hport⟩)
    · exact .inr (.inl ⟨hany, mt (paramsOf_complete_iff hany).mpr hall,
        announce_forgot itoa order h srcIp isV4 now interval (hgood hany) hall⟩)

theorem announce_badRequest_iff (h : HttpHandler) (query : List UInt8) (srcIp : Bytes 16) (isV4 : Bool)
    (now interval : UInt32) : (h.announce itoa order query srcIp isV4 now interval).2 = .badRequest ↔
      ∃ pair ∈ queryPairs query, BadPair pair := by
  rcases @announce_cases itoa order h query srcIp isV4 now interval with
    ⟨hany, hannounce⟩ | ⟨hany, -, hannounce⟩ | ⟨hany, -, hash, port, -, -, -, -, hannounce⟩
  · rw [hannounce]
    exact iff_of_true rfl hany
  · rw [hannounce]
    exact iff_of_false (by rintro ⟨⟩) hany
  · rw [hannounce]
    exact iff_of_false (by rintro ⟨⟩) hany

theorem announce_outcome (hitoa : itoa.Formats) (h : HttpHandler) (query : List UInt8) (srcIp : Bytes 16)
    (isV4 : Bool) (now interval : UInt32) : AnnounceOutcome itoa order h (queryPairs query) srcIp isV4 now interval
      (h.announce itoa order query srcIp isV4 now interval) := by
  have hrefused := @announce_badRequest_iff itoa order h query srcIp isV4 now interval
  rcases @announce_cases itoa order h query srcIp isV4 now interval with
    ⟨hany, hannounce⟩ | ⟨hany, hlacks, hannounce⟩ |
      ⟨hany, hnamed, hash, port, hhash, hport, h4, h6, hannounce⟩
  · rw [hannounce] at hrefused ⊢
    exact ⟨hrefused, fun hnone => absurd hany hnone, fun hnone => absurd hany hnone, fun _ => rfl⟩
  · rw [hannounce] at hrefused ⊢
    exact ⟨hrefused, fun _ => iff_of_true rfl (not_and_or.mp hlacks), fun _ hh hp => absurd ⟨hh, hp⟩ hlacks,
      fun _ => rfl⟩
  · have hcomplete := not_not_intro hnamed
    rw [not_and_or] at hcomplete
    rw [hannounce] at hrefused ⊢
    exact ⟨hrefused, fun _ => iff_of_false (fun hbody => forgotBody_ne_announceResponse hitoa _ interval h4 h6
        (Response.body.inj hbody)) hcomplete,
      fun _ _ _ => ⟨hash, port, hhash, hport, rfl⟩,
      fun hlacks => absurd (hlacks.resolve_left hany) hcomplete⟩

/-- **Which announces are accepted, and that nothing else touches the store.** -/
theorem announce_acceptance (hitoa : itoa.Formats) (h : HttpHandler) (target : List UInt8) (srcIp : Bytes 16)
    (isV4 : Bool) (now interval : UInt32) :
    ((splitTarget target).1 = ascii "/announce" →
      AnnounceOutcome itoa order h (queryPairs (splitTarget target).2) srcIp isV4 now interval
        (h.handle itoa order target srcIp isV4 now interval)) ∧
    ((splitTarget target).1 ≠ ascii "/announce" →
      (h.handle itoa order target srcIp isV4 now interval).1 = h) := by
  rw [handle_eq]
  constructor
  · intro hpath
    rw [hpath, if_neg (by decide), if_pos rfl]
    exact announce_outcome order hitoa h _ srcIp isV4 now interval
  · intro hpath
    rw [if_neg hpath]
    split_ifs <;> rfl

/-- An announce with several peer counts, the last of which does not parse. -/
def countedTarget : List UInt8 :=
  ascii "/announce?numwant=7&info_hash=AAAAAAAAAAAAAAAAAAAA&numwant=9999&port=6881&numwant=many"

def countedOp : Op := announceOp (announcedPeer (.replicate _ 65) 6881 (.replicate _ 1) true) 1 (eventOf []) 200 16 []

/-- An announce with several peer counts, and one with a bad pair behind all that it needs. -/
theorem announce_acceptance_late :
    handle (fun n => decimal n.toNat) HashOrder.arbitrary ⟨.new⟩ countedTarget (.replicate _ 1) true 16 1800 =
        (⟨(Store.new.exec HashOrder.arbitrary countedOp).1⟩, .body (Bencode.announceResponse (fun n => decimal n.toNat)
          [] ((Store.new.exec HashOrder.arbitrary countedOp).1.scrape (.replicate _ 65)) 1800
          (Store.new.exec HashOrder.arbitrary countedOp).2.peersOut [])) ∧
      (handle (fun n => decimal n.toNat) HashOrder.arbitrary ⟨.new⟩
        (ascii "/announce?info_hash=AAAAAAAAAAAAAAAAAAAA&port=6881&compact=0") (.replicate _ 1) false 16 1800).2 =
        .badRequest ∧
      (handle (fun n => decimal n.toNat) HashOrder.arbitrary ⟨.new⟩
        (ascii "/announce?info_hash=AAAAAAAAAAAAAAAAAAAA&port=6881&compact=0") (.replicate _ 1) false 16 1800).1 =
        ⟨.new⟩ := by
  have hcounted := (@announce_acceptance (fun n => decimal n.toNat) HashOrder.arbitrary (fun _ => rfl) ⟨.new⟩
    countedTarget (.replicate _ 1) true 16 1800).1 (by decide)
  have houtcome := (@announce_acceptance (fun n => decimal n.toNat) HashOrder.arbitrary (fun _ => rfl) ⟨.new⟩
    (ascii "/announce?info_hash=AAAAAAAAAAAAAAAAAAAA&port=6881&compact=0") (.replicate _ 1) false 16 1800).1 (by decide)
  have hbad : ∃ pair ∈ queryPairs
      (splitTarget (ascii "/announce?info_hash=AAAAAAAAAAAAAAAAAAAA&port=6881&compact=0")).2, BadPair pair :=
    ⟨(ascii "compact", ascii "0"), by decide, .inr (.inr ⟨rfl, rfl⟩)⟩
  refine ⟨?_, houtcome.badRequest.mpr hbad, houtcome.unchanged (.inl hbad)⟩
  obtain ⟨hash, port, hhash, hport, hresult⟩ := hcounted.accepted (by decide +kernel) (by decide) (by decide)
  have hparams : paramsOf (queryPairs (splitTarget countedTarget).2) =
      ⟨some (.replicate _ 65), some 6881, 1, [], 200, by decide⟩ := by
    rw [Params.mk.injEq]
    decide +kernel
  rw [hparams] at hhash hport hresult
  cases hhash
  cases hport
  exact hresult

end HttpHandler
end Bluefrog
