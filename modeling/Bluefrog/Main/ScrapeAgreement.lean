import Bluefrog.Http.Query

/-!
The two front ends agree on scrapes. Whatever list of info-hashes a datagram and a query string
carry, both answer about the same first ones, in request order, and leave the store alone.
-/

open Rust BencodeFormat

namespace Bluefrog

open Udp Http

/-- The segments of a query carry the info-hashes in order, between parameters of other names. -/
inductive CarriesHashes : List InfoHash → List (List UInt8) → Prop
  | nil : CarriesHashes [] []
  | hash {hash : InfoHash} {raw : List UInt8} {hashes : List InfoHash} {segments : List (List UInt8)}
      (hraw : PercentEncoding raw hash.toList) (h : CarriesHashes hashes segments) :
      CarriesHashes (hash :: hashes) (segmentOf (ascii "info_hash") raw :: segments)
  | other {s : List UInt8} {hashes : List InfoHash} {segments : List (List UInt8)} (hamp : 38 ∉ s)
      (hname : s.takeWhile (· != 61) ≠ ascii "info_hash") (h : CarriesHashes hashes segments) :
      CarriesHashes hashes (s :: segments)

theorem CarriesHashes.amp_notMem {hashes : List InfoHash} {segments : List (List UInt8)}
    (h : CarriesHashes hashes segments) : ∀ s ∈ segments, 38 ∉ s := by
  induction h with
  | nil => exact fun s hs => absurd hs List.not_mem_nil
  | hash hraw _ ih =>
      intro s hs
      rcases List.mem_cons.mp hs with rfl | hs
      · rw [segmentOf, List.mem_append, List.mem_cons]
        rintro (hmem | hmem | hmem)
        · exact absurd hmem (by decide)
        · exact absurd hmem (by decide)
        · exact hraw.amp_notMem hmem
      · exact ih s hs
  | other hamp _ _ ih =>
      intro s hs
      rcases List.mem_cons.mp hs with rfl | hs
      · exact hamp
      · exact ih s hs

/-- The loop takes the info-hashes in order until the cap, and skips every other parameter. -/
theorem scrapeFiles_carries (store : Store) {hashes : List InfoHash} {segments : List (List UInt8)}
    (h : CarriesHashes hashes segments) (files : List (InfoHash × Counts)) :
    scrapeFiles store ((segments.filter fun s => s ≠ []).map splitSegment) files =
      .ok (files ++ (hashes.take (Http.maxScrapeHashes - files.length)).map fun hash => (hash, store.scrape hash)) := by
  induction h generalizing files with
  | nil => simp [scrapeFiles]
  | @hash hash raw hashes segments hraw _ ih =>
      rw [List.filter_cons_of_pos (by simp [segmentOf_ne_nil]), List.map_cons,
        splitSegment_segmentOf (by decide), scrapeFiles, if_pos rfl]
      by_cases hfull : Http.maxScrapeHashes ≤ files.length
      · rw [if_pos hfull, Nat.sub_eq_zero_of_le hfull, List.take_zero, List.map_nil, List.append_nil]
      · rw [if_neg hfull, decodeHash_of_encoding hraw]
        simp only
        obtain ⟨k, hk⟩ : ∃ k, Http.maxScrapeHashes - files.length = k + 1 :=
          ⟨Http.maxScrapeHashes - files.length - 1, by omega⟩
        have hrest : Http.maxScrapeHashes - (files ++ [(hash, store.scrape hash)]).length = k := by
          rw [List.length_append, List.length_singleton]
          omega
        rw [ih, hrest, hk, List.append_assoc, List.take_succ_cons, List.map_cons, List.singleton_append]
  | @other s hashes segments _ hname _ ih =>
      by_cases hempty : s = []
      · rw [List.filter_cons_of_neg (by simp [hempty]), ih]
      · rw [List.filter_cons_of_pos (by simp [hempty]), List.map_cons]
        have hsplit : splitSegment s = (s.takeWhile (· != 61), (splitSegment s).2) :=
          Prod.ext (splitSegment_fst s) rfl
        rw [hsplit, scrapeFiles, if_neg hname, ih]

/-- The reply to a UDP scrape: the header and one entry an info-hash. -/
def scrapeReply (transactionId : UInt32) (store : Store) (hashes : List InfoHash) : List UInt8 :=
  toBe32 2 ++ toBe32 transactionId ++ hashes.flatMap fun hash => scrapeEntry (store.scrape hash)

theorem length_scrapeReply (transactionId : UInt32) (store : Store) (hashes : List InfoHash) :
    (scrapeReply transactionId store hashes).length = 8 + hashes.length * 12 := by
  rw [scrapeReply, List.length_append, length_flatMap_const fun _ => length_scrapeEntry _]
  simp only [List.length_append, length_toBe32]

/-- The three counters of an entry, at their places. -/
theorem slice_scrapeReply (transactionId : UInt32) (store : Store) {hashes : List InfoHash} {i : Nat}
    {hash : InfoHash} (h : hashes[i]? = some hash) :
    (slice (scrapeReply transactionId store hashes) (8 + i * 12) (8 + i * 12 + 4)).bind beU32 =
        some (store.scrape hash).complete ∧
      (slice (scrapeReply transactionId store hashes) (8 + i * 12 + 4) (8 + i * 12 + 8)).bind beU32 =
        some (store.scrape hash).downloaded ∧
      (slice (scrapeReply transactionId store hashes) (8 + i * 12 + 8) (8 + i * 12 + 12)).bind beU32 =
        some (store.scrape hash).incomplete := by
  have hentry : ∀ lo hi, lo ≤ hi → hi ≤ 12 →
      slice (scrapeReply transactionId store hashes) (8 + i * 12 + lo) (8 + i * 12 + hi) =
        slice (scrapeEntry (store.scrape hash)) lo hi := by
    intro lo hi hlh hhi
    have hpre : (toBe32 2 ++ toBe32 transactionId).length = 8 := rfl
    rw [scrapeReply, slice_skip (by omega) (by omega), hpre, show 8 + i * 12 + lo - 8 = i * 12 + lo by omega,
      show 8 + i * 12 + hi - 8 = i * 12 + hi by omega]
    exact slice_flatMap_const (fun _ => length_scrapeEntry _) h hlh hhi
  have hfields : ∀ c : Counts,
      scrapeEntry c = toBe32 c.complete ++ (toBe32 c.downloaded ++ (toBe32 c.incomplete ++ [])) := by
    intro c
    rw [scrapeEntry, entryBytes, List.append_nil, List.append_assoc]
  have h0 := hentry 0 4 (by omega) (by omega)
  rw [Nat.add_zero] at h0
  rw [h0, hentry 4 8 (by omega) (by omega), hentry 8 12 (by omega) (by omega), hfields]
  simp (disch := grind) only [slice_skip, slice_head, length_toBe32, Nat.reduceSub, Option.bind_some, beU32_toBe32,
    and_self]

/-- **The two front ends agree on scrapes.** -/
theorem scrape_agreement (blake3 : Blake3) (itoa : Itoa) (order order' : HashOrder) (hitoa : itoa.Formats)
    (store : Store) (connid : ConnId) (connectionId : UInt64) (transactionId : UInt32) (hashes : List InfoHash)
    (rest : List UInt8) (segments : List (List UInt8)) (srcIp : Bytes 16) (isV4 : Bool) (nowSecs : UInt64)
    (nowMin interval interval' : UInt32) (out : List UInt8) (hrest : rest.length < hashLen)
    (hcarries : CarriesHashes hashes segments)
    (hid : connid.validate blake3 connectionId srcIp.toList nowSecs = true) :
    ∃ (reply body : List UInt8) (files : List (List UInt8 × Value)),
      Handler.handle blake3 order ⟨store, connid⟩ (scrapeDatagram connectionId transactionId hashes rest) srcIp isV4
        nowSecs interval out = some (.reply reply.length, ⟨store, connid⟩, reply) ∧
      HttpHandler.handle itoa order' ⟨store⟩ (ascii "/scrape" ++ ascii "?" ++ joinSegments segments) srcIp isV4
        nowMin interval' = (⟨store⟩, .body body) ∧
      reply.length = 8 + 12 * min hashes.length 75 ∧
      decode body = some (.dict [(ascii "files", .dict files)]) ∧ files.length = min hashes.length 75 ∧
      ∀ (i : Nat) (hash : InfoHash), i < 75 → hashes[i]? = some hash →
        (slice reply (8 + i * 12) (8 + i * 12 + 4)).bind beU32 = some (store.scrape hash).complete ∧
        (slice reply (8 + i * 12 + 4) (8 + i * 12 + 8)).bind beU32 = some (store.scrape hash).downloaded ∧
        (slice reply (8 + i * 12 + 8) (8 + i * 12 + 12)).bind beU32 = some (store.scrape hash).incomplete ∧
        files[i]? = some (hash.toList, .dict (Bencode.countsEntries (store.scrape hash))) := by
  have hudp := Handler.handle_scrape blake3 order ⟨store, connid⟩ srcIp isV4 nowSecs interval out
    (parse_scrapeDatagram connectionId transactionId hashes hrest)
    (iterHashes_flatMap connectionId transactionId (hashes.take Udp.maxScrapeHashes)) hid
  have hfiles := scrapeFiles_carries store hcarries []
  rw [← queryPairs_joinSegments hcarries.amp_notMem, List.nil_append, List.length_nil, Nat.sub_zero] at hfiles
  have hlen := length_scrapeReply transactionId store (hashes.take 75)
  have hbody := Bencode.scrapeResponse_eq hitoa ((hashes.take 75).map fun hash => (hash, store.scrape hash))
  refine ⟨scrapeReply transactionId store (hashes.take 75), _, _, ?_, ?_, ?_,
    (congrArg decode hbody).trans (decode_encode _), ?_, ?_⟩
  · rw [hudp, hlen]
    rfl
  · rw [HttpHandler.handle, splitOnce_target (by decide)]
    simp only [Option.getD_some, if_true]
    rw [if_neg (by decide), if_neg (by decide), HttpHandler.scrape, hfiles]
    rfl
  · rw [hlen, List.length_take, Nat.min_comm, Nat.mul_comm]
  · rw [List.length_map, List.length_map, List.length_take, Nat.min_comm]
  · intro i hash hi hhash
    have htake : (hashes.take 75)[i]? = some hash := by rw [List.getElem?_take_of_lt hi, hhash]
    obtain ⟨hcomplete, hdownloaded, hincomplete⟩ := slice_scrapeReply transactionId store htake
    refine ⟨hcomplete, hdownloaded, hincomplete, ?_⟩
    rw [List.map_map, List.getElem?_map, htake]
    rfl

/-- A store that has a seeder of one torrent, and the connection-id scheme of the tracker. -/
noncomputable def seededStore : Store :=
  .run HashOrder.arbitrary [.announce ⟨.replicate _ 65, .v4, .replicate _ 2⟩ 0x80 50 10 []]

def seededConnid : ConnId := .new (.replicate _ 7) 120

/-- A scrape of that torrent, of another one, and of the first again. -/
def repeatedHashes : List InfoHash := [.replicate _ 65, .replicate _ 66, .replicate _ 65]

def repeatedSegments : List (List UInt8) :=
  [ascii "info_hash=AAAAAAAAAAAAAAAAAAAA", ascii "passkey=1", ascii "info_hash=%42BBBBBBBBBBBBBBBBBBB",
    ascii "info_hash=AAAAAAAAAAAAAAAAAAAA"]

theorem carries_repeated : CarriesHashes repeatedHashes repeatedSegments := by
  have hescaped : PercentEncoding (ascii "%42BBBBBBBBBBBBBBBBBBB") (List.replicate 20 66) :=
    .escape (.decimal (d := 4) (by decide)) (.decimal (d := 2) (by decide)) (.self (by decide))
  exact .hash (.self (by decide)) (.other (by decide) (by decide) (.hash hescaped (.hash (.self (by decide)) .nil)))

theorem scrape_agreement_single : ∃ (reply body : List UInt8) (files : List (List UInt8 × Value)),
    Handler.handle cutHash HashOrder.arbitrary ⟨seededStore, seededConnid⟩
      (scrapeDatagram (seededConnid.generate cutHash (List.replicate 16 1) 1000) 1 repeatedHashes [1, 2, 3])
      (.replicate _ 1) false 1000 1800 [] = some (.reply 44, ⟨seededStore, seededConnid⟩, reply) ∧
    HttpHandler.handle (fun v => decimal v.toNat) HashOrder.arbitrary ⟨seededStore⟩
      (ascii "/scrape" ++ ascii "?" ++ joinSegments repeatedSegments) (.replicate _ 1) false 16 1800 =
        (⟨seededStore⟩, .body body) ∧
    decode body = some (.dict [(ascii "files", .dict files)]) ∧ files.length = 3 ∧
    (slice reply 8 12).bind beU32 = some 1 ∧ (slice reply 20 24).bind beU32 = some 0 ∧
    (slice reply 32 36).bind beU32 = some 1 ∧
    files[0]? = some (List.replicate 20 65, .dict (Bencode.countsEntries ⟨1, 0, 0⟩)) ∧
    files[1]? = some (List.replicate 20 66, .dict (Bencode.countsEntries ⟨0, 0, 0⟩)) ∧
    files[2]? = some (List.replicate 20 65, .dict (Bencode.countsEntries ⟨1, 0, 0⟩)) := by
  obtain ⟨reply, body, files, hudp, hhttp, hlen, hdecode, hfiles, hentries⟩ := scrape_agreement cutHash
    (fun v => decimal v.toNat) HashOrder.arbitrary HashOrder.arbitrary (fun _ => rfl) seededStore seededConnid
    (seededConnid.generate cutHash (List.replicate 16 1) 1000) 1 repeatedHashes [1, 2, 3] repeatedSegments
    (.replicate _ 1) false 1000 16 1800 1800 [] (by decide) carries_repeated (ConnId.validate_generate cutHash _ _ _)
  have hseeded : seededStore.scrape (.replicate _ 65) = ⟨1, 0, 0⟩ := by decide +kernel
  have hother : seededStore.scrape (.replicate _ 66) = ⟨0, 0, 0⟩ := by decide +kernel
  obtain ⟨hcomplete0, -, -, hfile0⟩ := hentries 0 (.replicate _ 65) (by decide) rfl
  obtain ⟨hcomplete1, -, -, hfile1⟩ := hentries 1 (.replicate _ 66) (by decide) rfl
  obtain ⟨hcomplete2, -, -, hfile2⟩ := hentries 2 (.replicate _ 65) (by decide) rfl
  rw [hseeded] at hcomplete0 hfile0 hcomplete2 hfile2
  rw [hother] at hcomplete1 hfile1
  rw [hlen] at hudp
  exact ⟨reply, body, files, hudp, hhttp, hdecode, hfiles, hcomplete0, hcomplete1, hcomplete2, hfile0, hfile1, hfile2⟩

end Bluefrog
