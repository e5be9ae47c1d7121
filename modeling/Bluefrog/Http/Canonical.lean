import Bluefrog.Http.Acceptance

/-!
The bodies of the HTTP handler as bencode. A body is one value with nothing left over, whatever the
request. The keys of its dictionaries are in order but for the files of a scrape, which come in the order
the client asks for them, with its repeats.
-/

open Rust BencodeFormat

namespace Bluefrog
namespace Http

/-- The info-hashes a scrape reports on: those of its first `info_hash` parameters, in request order. -/
def scrapedHashes (query : List UInt8) : List InfoHash :=
  (((queryPairs query).filter fun pair => pair.1 = ascii "info_hash").take maxScrapeHashes).filterMap
    fun pair => decodeHash pair.2

/-- The loop of a scrape, when it does not refuse the request. -/
theorem scrapeFiles_ok (store : Store) {pairs : List (List UInt8 × List UInt8)} {files out : List (InfoHash × Counts)}
    (h : scrapeFiles store pairs files = .ok out) :
    out = files ++ (((pairs.filter fun pair => pair.1 = ascii "info_hash").take
      (maxScrapeHashes - files.length)).filterMap fun pair => decodeHash pair.2).map
        fun hash => (hash, store.scrape hash) := by
  induction pairs generalizing files with
  | nil =>
      cases h
      simp
  | cons pair pairs ih =>
      obtain ⟨key, raw⟩ := pair
      unfold scrapeFiles at h
      split_ifs at h with hkey hfull
      · cases h
        rw [Nat.sub_eq_zero_of_le hfull, List.take_zero, List.filterMap_nil, List.map_nil, List.append_nil]
      · cases hhash : decodeHash raw with
        | none =>
            rw [hhash] at h
            cases h
        | some hash =>
            rw [hhash] at h
            have hfirst : ∀ rest : List (List UInt8 × List UInt8), ((key, raw) :: rest).filterMap (fun pair =>
                decodeHash pair.2) = hash :: rest.filterMap fun pair => decodeHash pair.2 :=
              fun rest => List.filterMap_cons_some hhash
            have hroom : maxScrapeHashes - files.length =
                (maxScrapeHashes - (files ++ [(hash, store.scrape hash)]).length) + 1 := by
              rw [List.length_append, List.length_singleton]
              omega
            rw [ih h, hroom, List.filter_cons_of_pos (by simpa using hkey), List.take_succ_cons,
              hfirst, List.map_cons, List.append_assoc, List.singleton_append]
      · rw [ih h, List.filter_cons_of_neg (by simpa using hkey)]

theorem scrapeFiles_error (store : Store) {pairs : List (List UInt8 × List UInt8)} {files : List (InfoHash × Counts)}
    {response : Response} (h : scrapeFiles store pairs files = .error response) : response = .badRequest := by
  induction pairs generalizing files with
  | nil => cases h
  | cons pair pairs ih =>
      obtain ⟨key, raw⟩ := pair
      unfold scrapeFiles at h
      split_ifs at h
      · cases hhash : decodeHash raw with
        | none =>
            rw [hhash] at h
            cases h
            rfl
        | some hash =>
            rw [hhash] at h
            exact ih h
      · exact ih h

end Http

namespace Bencode

theorem canonical_announce (counts : Counts) (interval : UInt32) (peers4 peers6 : List UInt8) :
    (Value.dict (countsEntries counts ++
      [(ascii "interval", .int interval.toNat), (ascii "min interval", .int (interval / 2).toNat),
        (ascii "peers", .bytes peers4), (ascii "peers6", .bytes peers6)])).Canonical := by
  have hcounts := ((Value.canonical_dict_iff _).mp (canonical_counts counts)).2
  refine .dict ?_ fun e he => ?_
  · rw [List.map_append]
    exact (by decide : ([ascii "complete", ascii "downloaded", ascii "incomplete"] ++
      [ascii "interval", ascii "min interval", ascii "peers", ascii "peers6"]).Pairwise (· < ·))
  · rcases List.mem_append.mp he with he | he
    · exact hcounts e he
    · simp only [List.mem_cons, List.not_mem_nil, or_false] at he
      rcases he with rfl | rfl | rfl | rfl
      · exact .int _
      · exact .int _
      · exact .bytes _
      · exact .bytes _

theorem canonical_failure (reason : List UInt8) :
    (Value.dict [(ascii "failure reason", .bytes reason)]).Canonical := by
  refine .dict (List.pairwise_singleton _ _) fun e he => ?_
  rw [List.mem_singleton] at he
  rw [he]
  exact .bytes reason

end Bencode

namespace HttpHandler

open Http

variable {itoa : Itoa} {order : HashOrder}

/-- The body of an announce: the counters, the intervals and the peers, or the failure. -/
theorem announce_body (hitoa : itoa.Formats) {h : HttpHandler} {query : List UInt8} {srcIp : Bytes 16} {isV4 : Bool}
    {now interval : UInt32} {b : List UInt8}
    (hbody : (h.announce itoa order query srcIp isV4 now interval).2 = .body b) :
    ∃ v, b = encode v ∧ v.Canonical := by
  rcases @announce_cases itoa order h query srcIp isV4 now interval with
    ⟨-, hannounce⟩ | ⟨-, -, hannounce⟩ | ⟨-, -, hash, port, -, -, h4, h6, hannounce⟩
  · rw [hannounce] at hbody
    cases hbody
  · rw [hannounce] at hbody
    rw [← Response.body.inj hbody]
    exact ⟨_, Bencode.failure_eq hitoa [] (by decide), Bencode.canonical_failure _⟩
  · rw [hannounce] at hbody
    rw [← Response.body.inj hbody]
    exact ⟨_, Bencode.announceResponse_eq hitoa [] _ _ h4 h6, Bencode.canonical_announce _ _ _ _⟩

/-- The body of a scrape: the counters of each info-hash, in request order. -/
theorem scrape_body (hitoa : itoa.Formats) {h : HttpHandler} {query : List UInt8} {b : List UInt8}
    (hbody : h.scrape itoa query = .body b) :
    b = encode (.dict [(ascii "files", .dict ((scrapedHashes query).map fun hash =>
      (hash.toList, .dict (Bencode.countsEntries (h.store.scrape hash)))))]) := by
  unfold scrape at hbody
  cases hfiles : scrapeFiles h.store (queryPairs query) [] with
  | error response =>
      rw [hfiles, scrapeFiles_error h.store hfiles] at hbody
      cases hbody
  | ok files =>
      rw [hfiles] at hbody
      rw [← Response.body.inj hbody, Bencode.scrapeResponse_eq hitoa, scrapeFiles_ok h.store hfiles, List.nil_append,
        List.length_nil, Nat.sub_zero, List.map_map]
      rfl

/-- The files of a scrape are in order if and only if the info-hashes asked for are. -/
theorem canonical_files_iff (hashes : List InfoHash) (value : InfoHash → Value) (h : ∀ hash, (value hash).Canonical) :
    (Value.dict [(ascii "files", .dict (hashes.map fun hash => (hash.toList, value hash)))]).Canonical ↔
      (hashes.map List.Vector.toList).Pairwise (· < ·) := by
  have hkeys : ((hashes.map fun hash => (hash.toList, value hash)).map Prod.fst) = hashes.map List.Vector.toList := by
    rw [List.map_map]
    rfl
  have hvalues : ∀ file ∈ hashes.map fun hash => (hash.toList, value hash), file.2.Canonical := by
    intro file hfile
    obtain ⟨hash, -, rfl⟩ := List.mem_map.mp hfile
    exact h hash
  calc (Value.dict [(ascii "files", .dict (hashes.map fun hash => (hash.toList, value hash)))]).Canonical
      ↔ (Value.dict (hashes.map fun hash => (hash.toList, value hash))).Canonical := by
        rw [Value.canonical_dict_iff]
        exact ⟨fun hall => hall.2 _ List.mem_cons_self, fun hfiles => ⟨List.pairwise_singleton _ _, fun e he => by
          rw [List.mem_singleton.mp he]
          exact hfiles⟩⟩
    _ ↔ (hashes.map List.Vector.toList).Pairwise (· < ·) := by
        rw [Value.canonical_dict_iff, hkeys]
        exact ⟨fun hfiles => hfiles.1, fun hsorted => ⟨hsorted, hvalues⟩⟩

/-- **What a body is.** Every body is one bencoded value with nothing left over. It is canonical, except that
the files of a scrape have the info-hashes of the request as keys, in request order: the body of a scrape is
canonical exactly when these strictly increase. -/
theorem body_canonical (hitoa : itoa.Formats) (h : HttpHandler) (target : List UInt8) (srcIp : Bytes 16) (isV4 : Bool)
    (now interval : UInt32) (b : List UInt8)
    (hbody : (h.handle itoa order target srcIp isV4 now interval).2 = .body b) :
    ∃ v, b = encode v ∧ decode b = some v ∧
      ((splitTarget target).1 ≠ ascii "/scrape" → v.Canonical) ∧
      ((splitTarget target).1 = ascii "/scrape" → ∃ files, v = .dict [(ascii "files", .dict files)] ∧
        files.map Prod.fst = (scrapedHashes (splitTarget target).2).map List.Vector.toList ∧
        (∀ file ∈ files, file.2.Canonical) ∧
        (v.Canonical ↔ ((scrapedHashes (splitTarget target).2).map List.Vector.toList).Pairwise (· < ·))) := by
  rw [handle_eq] at hbody
  split_ifs at hbody with hroot hannounce hscrape
  · obtain ⟨v, hv, hcanonical⟩ := announce_body hitoa hbody
    refine ⟨v, hv, hv ▸ decode_encode v, fun _ => hcanonical, fun hpath => ?_⟩
    rw [hannounce] at hpath
    exact absurd hpath (by decide)
  · have hv := scrape_body hitoa hbody
    have hcanonical := canonical_files_iff (scrapedHashes (splitTarget target).2)
      (fun hash => .dict (Bencode.countsEntries (h.store.scrape hash))) fun _ => Bencode.canonical_counts _
    refine ⟨_, hv, hv ▸ decode_encode _, fun hpath => absurd hscrape hpath, fun _ => ⟨_, rfl, ?_, ?_, hcanonical⟩⟩
    · rw [List.map_map]
      rfl
    · intro file hfile
      obtain ⟨hash, -, rfl⟩ := List.mem_map.mp hfile
      exact Bencode.canonical_counts _

/-- The body of a scrape in ascending order is canonical. -/
theorem body_canonical_ascending : ∃ b v,
    (handle (fun n => decimal n.toNat) HashOrder.arbitrary ⟨.new⟩
      (ascii "/scrape?info_hash=AAAAAAAAAAAAAAAAAAAA&info_hash=BBBBBBBBBBBBBBBBBBBB") (.replicate _ 1) false 16
      1800).2 = .body b ∧ decode b = some v ∧ v.Canonical := by
  obtain ⟨v, -, hdecode, -, hscrape⟩ := body_canonical (fun _ => rfl) ⟨.new⟩
    (ascii "/scrape?info_hash=AAAAAAAAAAAAAAAAAAAA&info_hash=BBBBBBBBBBBBBBBBBBBB") (.replicate _ 1) false 16 1800 _
    (rfl : (handle (fun n => decimal n.toNat) HashOrder.arbitrary ⟨.new⟩ _ _ _ _ _).2 = _)
  obtain ⟨files, -, -, -, hiff⟩ := hscrape (by decide)
  exact ⟨_, v, rfl, hdecode, hiff.mpr (by decide)⟩

/-- A scrape for two info-hashes in descending order, the first of which it repeats. -/
def unsortedScrape : List UInt8 :=
  ascii "/scrape?info_hash=BBBBBBBBBBBBBBBBBBBB&info_hash=AAAAAAAAAAAAAAAAAAAA&info_hash=BBBBBBBBBBBBBBBBBBBB"

/-- The body of that scrape has the keys of its files in the order of the request. -/
theorem body_unsorted : ∃ b v,
    (handle (fun n => decimal n.toNat) HashOrder.arbitrary ⟨.new⟩ unsortedScrape (.replicate _ 1) false 16 1800).2 =
      .body b ∧ decode b = some v ∧ ¬v.Canonical := by
  have hfiles : ∃ files, scrapeFiles .new (queryPairs (splitTarget unsortedScrape).2) [] = .ok files := ⟨_, rfl⟩
  obtain ⟨files, hfiles⟩ := hfiles
  have hbody : (⟨.new⟩ : HttpHandler).scrape (fun n => decimal n.toNat) (splitTarget unsortedScrape).2 =
      .body (Bencode.scrapeResponse (fun n => decimal n.toNat) [] files) := by rw [scrape, hfiles]
  have hvalue := scrape_body (fun _ => rfl) hbody
  refine ⟨_, _, ?_, hvalue ▸ decode_encode _, ?_⟩
  · rw [handle_eq, if_neg (by decide), if_neg (by decide), if_pos (by decide)]
    exact hbody
  · rw [canonical_files_iff _ (fun hash => .dict (Bencode.countsEntries (Store.new.scrape hash)))
      fun _ => Bencode.canonical_counts _]
    decide

end HttpHandler
end Bluefrog
