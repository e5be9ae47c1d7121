import Bluefrog.Proto.Udp

/-!
The BEP-15 request format. The parser accepts exactly the datagrams of the format, and inverts it: the
action at offset 8 decides, an announce is the encoding of its fields, and a scrape is its whole blocks.
-/

open Rust

namespace Bluefrog.Udp

/-- The big-endian field of four bytes at an offset. -/
def fieldAt (b : List UInt8) (offset : Nat) : UInt32 := UInt32.ofNat (beNat ((b.drop offset).take 4))

/-- The result of parsing a datagram, by its length and its action. -/
structure Parses (b : List UInt8) : Prop where
  /-- No slice and no conversion panics. -/
  total : ∃ r, parse b = some r
  tooShort : parse b = some (.error .tooShort) ↔ b.length < minPacket
  connect : minPacket ≤ b.length → fieldAt b 8 = 0 →
    parse b = some (if b.take 8 = toBe64 protocolId then .ok (.connect (fieldAt b 12)) else .error .badProtocolId)
  announceTooShort : minPacket ≤ b.length → fieldAt b 8 = 1 → b.length < announceMin →
    parse b = some (.error .announceTooShort)
  announce : minPacket ≤ b.length → fieldAt b 8 = 1 → announceMin ≤ b.length →
    ∃ a code rest, b = announceDatagram a code rest ∧
      parse b = some (.ok (.announce { a with event := Event.fromUdp code }))
  scrape : minPacket ≤ b.length → fieldAt b 8 = 2 →
    ∃ s hashes, parse b = some (.ok (.scrape s)) ∧ toBe64 s.connectionId = b.take 8 ∧
      s.transactionId = fieldAt b 12 ∧ s.iterHashes = some hashes ∧
      hashes.length = min maxScrapeHashes ((b.length - minPacket) / hashLen) ∧
      ∀ i (hash : InfoHash), hashes[i]? = some hash →
        slice b (minPacket + i * hashLen) (minPacket + (i + 1) * hashLen) = some hash.toList
  unknownAction : minPacket ≤ b.length → fieldAt b 8 ≠ 0 → fieldAt b 8 ≠ 1 → fieldAt b 8 ≠ 2 →
    parse b = some (.error (.unknownAction (fieldAt b 8)))

section Header

variable (connectionId : UInt64) (action transactionId : UInt32) (body : List UInt8)

theorem fieldAt_skip {a rest : List UInt8} {offset : Nat} (h : a.length ≤ offset) :
    fieldAt (a ++ rest) offset = fieldAt rest (offset - a.length) := by
  rw [fieldAt, fieldAt, List.drop_append, List.drop_eq_nil_of_le h, List.nil_append]

theorem fieldAt_toBe32 (x : UInt32) (rest : List UInt8) : fieldAt (toBe32 x ++ rest) 0 = x := by
  rw [fieldAt, List.drop_zero, List.take_left' (length_toBe32 x), ofNat_beNat_toBe32]

theorem fieldAt_header_action : fieldAt (header connectionId action transactionId body) 8 = action := by
  rw [header, fieldAt_skip (by rw [length_toBe64]), length_toBe64, fieldAt_toBe32]

theorem fieldAt_header_transactionId :
    fieldAt (header connectionId action transactionId body) 12 = transactionId := by
  rw [header, fieldAt_skip (by rw [length_toBe64]; omega), length_toBe64, fieldAt_skip (by rw [length_toBe32]),
    length_toBe32, fieldAt_toBe32]

theorem take_header : (header connectionId action transactionId body).take 8 = toBe64 connectionId :=
  List.take_left' (length_toBe64 connectionId)

end Header

theorem toBe64_inj {x y : UInt64} (h : toBe64 x = toBe64 y) : x = y := by
  have hread := congrArg (fun b => UInt64.ofNat (beNat b)) h
  rwa [ofNat_beNat_toBe64, ofNat_beNat_toBe64] at hread

/-- A body of the length of an announce is the encoding of its fields. -/
theorem exists_announceBody (connectionId : UInt64) (transactionId : UInt32) {body : List UInt8}
    (h : announceMin ≤ minPacket + body.length) :
    ∃ a code rest, a.connectionId = connectionId ∧ a.transactionId = transactionId ∧
      body = announceBody a code rest := by
  have hlen : 82 ≤ body.length := by
    simp only [announceMin, minPacket] at h
    omega
  obtain ⟨infoHash, rest, rfl⟩ := exists_array_append (show hashLen ≤ body.length by simp only [hashLen]; omega)
  rw [List.length_append, infoHash.toList_length, hashLen] at hlen
  obtain ⟨peerId, rest, rfl⟩ := exists_array_append (show hashLen ≤ rest.length by simp only [hashLen]; omega)
  rw [List.length_append, peerId.toList_length, hashLen] at hlen
  obtain ⟨downloaded, rest, rfl⟩ := exists_toBe64_append (show 8 ≤ rest.length by omega)
  rw [List.length_append, length_toBe64] at hlen
  obtain ⟨left, rest, rfl⟩ := exists_toBe64_append (show 8 ≤ rest.length by omega)
  rw [List.length_append, length_toBe64] at hlen
  obtain ⟨uploaded, rest, rfl⟩ := exists_toBe64_append (show 8 ≤ rest.length by omega)
  rw [List.length_append, length_toBe64] at hlen
  obtain ⟨code, rest, rfl⟩ := exists_toBe32_append (show 4 ≤ rest.length by omega)
  rw [List.length_append, length_toBe32] at hlen
  obtain ⟨declaredIp, rest, rfl⟩ := exists_toBe32_append (show 4 ≤ rest.length by omega)
  rw [List.length_append, length_toBe32] at hlen
  obtain ⟨key, rest, rfl⟩ := exists_toBe32_append (show 4 ≤ rest.length by omega)
  rw [List.length_append, length_toBe32] at hlen
  obtain ⟨numWant, rest, rfl⟩ := exists_toBe32_append (show 4 ≤ rest.length by omega)
  rw [List.length_append, length_toBe32] at hlen
  obtain ⟨port, rest, rfl⟩ := exists_toBe16_append (show 2 ≤ rest.length by omega)
  exact ⟨⟨connectionId, transactionId, infoHash, peerId, downloaded, left, uploaded, .none, declaredIp, key,
    numWant.toInt32, port⟩, code, rest, rfl, rfl, rfl⟩

/-- Encoding an announce and parsing it gives back all fields, and the event of its code. -/
theorem parse_announceDatagram_fields (a : Announce) (code : UInt32) (rest : List UInt8) :
    parse (announceDatagram a code rest) = some (.ok (.announce { a with event := Event.fromUdp code })) :=
  @parse_announceDatagram { a with event := Event.fromUdp code } code rfl rest

/-- The blocks of a scrape. -/
theorem slice_scrapeDatagram (connectionId : UInt64) (transactionId : UInt32) {hashes : List InfoHash}
    (rest : List UInt8) {i : Nat} {hash : InfoHash} (h : hashes[i]? = some hash) :
    slice (scrapeDatagram connectionId transactionId hashes rest) (minPacket + i * hashLen)
      (minPacket + (i + 1) * hashLen) = some hash.toList := by
  obtain ⟨hlt, -⟩ := List.getElem?_eq_some_iff.mp h
  have hblock : (hashes.flatMap List.Vector.toList).length = hashes.length * hashLen :=
    length_flatMap_const List.Vector.toList_length hashes
  have hmul : (i + 1) * hashLen ≤ hashes.length * hashLen := Nat.mul_le_mul_right hashLen hlt
  have hsucc : (i + 1) * hashLen = i * hashLen + hashLen := Nat.succ_mul i hashLen
  have hpacket : minPacket = 16 := rfl
  calc slice (scrapeDatagram connectionId transactionId hashes rest) (minPacket + i * hashLen)
        (minPacket + (i + 1) * hashLen)
      = slice (hashes.flatMap List.Vector.toList ++ rest) (i * hashLen) (i * hashLen + hashLen) := by
        rw [scrapeDatagram, slice_header _ _ _ _ (by omega) (by omega), hsucc, hpacket, Nat.add_sub_cancel_left,
          Nat.add_sub_cancel_left]
    _ = slice (hashes.flatMap List.Vector.toList) (i * hashLen + 0) (i * hashLen + hashLen) := by
        rw [slice_left (Nat.le_add_right _ _) (by omega), Nat.add_zero]
    _ = slice hash.toList 0 hashLen := slice_flatMap_const List.Vector.toList_length h (Nat.zero_le _) (Nat.le_refl _)
    _ = some hash.toList := by
        rw [slice_of_le (Nat.zero_le _) (Nat.le_of_eq hash.toList_length.symm), List.drop_zero, Nat.sub_zero,
          List.take_of_length_le (Nat.le_of_eq hash.toList_length)]

section Cases

variable (connectionId : UInt64) (transactionId : UInt32) (body : List UInt8)

theorem parse_connect : parse (header connectionId 0 transactionId body) =
    some (if toBe64 connectionId = toBe64 protocolId then .ok (.connect transactionId)
      else .error .badProtocolId) := by
  rw [parse_header, if_pos rfl]
  by_cases hcid : connectionId = protocolId
  · rw [if_neg (not_not_intro hcid), if_pos (congrArg toBe64 hcid)]
  · rw [if_pos hcid, if_neg fun h => hcid (toBe64_inj h)]

theorem parse_announce_short (h : minPacket + body.length < announceMin) :
    parse (header connectionId 1 transactionId body) = some (.error .announceTooShort) := by
  rw [parse_header, if_neg (by decide), if_pos rfl, parseAnnounce, if_pos (by rwa [length_header])]

theorem parse_announce_long (h : announceMin ≤ minPacket + body.length) :
    ∃ a code rest, header connectionId 1 transactionId body = announceDatagram a code rest ∧
      parse (header connectionId 1 transactionId body) =
        some (.ok (.announce { a with event := Event.fromUdp code })) := by
  obtain ⟨a, code, rest, rfl, rfl, rfl⟩ := exists_announceBody connectionId transactionId h
  exact ⟨a, code, rest, rfl, parse_announceDatagram_fields a code rest⟩

theorem parse_scrape : ∃ s hashes, parse (header connectionId 2 transactionId body) = some (.ok (.scrape s)) ∧
    s.connectionId = connectionId ∧ s.transactionId = transactionId ∧ s.iterHashes = some hashes ∧
    hashes.length = min maxScrapeHashes (body.length / hashLen) ∧
    ∀ i (hash : InfoHash), hashes[i]? = some hash →
      slice (header connectionId 2 transactionId body) (minPacket + i * hashLen) (minPacket + (i + 1) * hashLen) =
        some hash.toList := by
  obtain ⟨hashes, rest, rfl, hrest⟩ := exists_arrays_append (show 0 < hashLen by decide) body
  refine ⟨_, _, parse_scrapeDatagram connectionId transactionId hashes hrest, rfl, rfl, iterHashes_flatMap _ _ _, ?_,
    ?_⟩
  · rw [List.length_take, List.length_append, length_flatMap_const List.Vector.toList_length, Nat.add_comm,
      Nat.add_mul_div_right _ _ (by decide), Nat.div_eq_of_lt hrest, Nat.zero_add]
  · intro i hash hhash
    rw [List.getElem?_take] at hhash
    split_ifs at hhash
    exact slice_scrapeDatagram connectionId transactionId rest hhash

theorem parse_unknown {action : UInt32} (h0 : action ≠ 0) (h1 : action ≠ 1) (h2 : action ≠ 2) :
    parse (header connectionId action transactionId body) = some (.error (.unknownAction action)) := by
  rw [parse_header, if_neg h0, if_neg h1, if_neg h2]

/-- A datagram with a header is not too short. -/
theorem parse_ne_tooShort (action : UInt32) :
    parse (header connectionId action transactionId body) ≠ some (.error .tooShort) := by
  intro h
  by_cases h0 : action = 0
  · subst h0
    rw [parse_connect] at h
    split_ifs at h <;> cases h
  by_cases h1 : action = 1
  · subst h1
    by_cases hlen : minPacket + body.length < announceMin
    · rw [parse_announce_short _ _ _ hlen] at h
      cases h
    · obtain ⟨a, code, rest, -, hparse⟩ := parse_announce_long connectionId transactionId body (Nat.not_lt.mp hlen)
      rw [hparse] at h
      cases h
  by_cases h2 : action = 2
  · subst h2
    obtain ⟨s, hashes, hparse, -⟩ := parse_scrape connectionId transactionId body
    rw [hparse] at h
    cases h
  · rw [parse_unknown _ _ _ h0 h1 h2] at h
    cases h

end Cases

/-- A datagram with a header parses by its action. -/
theorem parses_header (connectionId : UInt64) (action transactionId : UInt32) (body : List UInt8) :
    Parses (header connectionId action transactionId body) := by
  have hlen := length_header connectionId action transactionId body
  have hbody : (header connectionId action transactionId body).length - minPacket = body.length := by
    rw [hlen, Nat.add_sub_cancel_left]
  obtain ⟨r, hr, -⟩ := parse_total (header connectionId action transactionId body)
  refine ⟨⟨r, hr⟩, iff_of_false (parse_ne_tooShort _ _ _ _) (by omega), ?_, ?_, ?_, ?_, ?_⟩
  all_goals rw [fieldAt_header_action]
  · rintro - rfl
    rw [take_header, fieldAt_header_transactionId]
    exact parse_connect _ _ _
  · rintro - rfl hshort
    exact parse_announce_short _ _ _ (by rwa [hlen] at hshort)
  · rintro - rfl hlong
    exact parse_announce_long _ _ _ (by rwa [hlen] at hlong)
  · rintro - rfl
    obtain ⟨s, hashes, hparse, hcid, htid, hiter, hcount, hblocks⟩ := parse_scrape connectionId transactionId body
    rw [take_header, fieldAt_header_transactionId, hbody]
    exact ⟨s, hashes, hparse, congrArg toBe64 hcid, htid, hiter, hcount, hblocks⟩
  · rintro - h0 h1 h2
    exact parse_unknown _ _ _ h0 h1 h2

/-- The two's complement of a signed number. -/
theorem toNat_toUInt32 (x : Int32) : (x.toUInt32.toNat : Int) = x.toInt % 2 ^ 32 := by
  have hlt := x.toUInt32.toBitVec.isLt
  change (x.toUInt32.toBitVec.toNat : Int) = x.toUInt32.toBitVec.toInt % 2 ^ 32
  rw [BitVec.toInt_eq_toNat_cond]
  split_ifs <;> omega

/-- **Parsing accepts exactly the format, and inverts it.** -/
theorem parse_format :
    (∀ b, Parses b) ∧
    (∀ (a : Announce) (code : UInt32) (rest : List UInt8),
      parse (announceDatagram a code rest) = some (.ok (.announce { a with event := Event.fromUdp code })) ∧
        (a.numWant.toUInt32.toNat : Int) = a.numWant.toInt % 2 ^ 32) ∧
    Event.fromUdp 1 = .completed ∧ Event.fromUdp 3 = .stopped ∧
    ∀ code, code ≠ 1 → code ≠ 3 → Event.fromUdp code = .none := by
  refine ⟨fun b => ?_, fun a code rest => ⟨parse_announceDatagram_fields a code rest, toNat_toUInt32 _⟩, rfl, rfl, ?_⟩
  · by_cases hmin : b.length < minPacket
    · have hshort : ∀ {p : Prop}, minPacket ≤ b.length → p := fun h => absurd hmin (Nat.not_lt.mpr h)
      have hparse : parse b = some (.error .tooShort) := if_pos hmin
      exact ⟨⟨_, hparse⟩, iff_of_true hparse hmin, fun h => hshort h, fun h => hshort h, fun h => hshort h,
        fun h => hshort h, fun h => hshort h⟩
    · obtain ⟨connectionId, action, transactionId, body, rfl⟩ := exists_header (Nat.not_lt.mp hmin)
      exact parses_header connectionId action transactionId body
  · intro code h1 h3
    rw [Event.fromUdp, if_neg h1, if_neg h3]

end Bluefrog.Udp
