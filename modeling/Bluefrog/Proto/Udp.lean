import Bluefrog.Core.Types

/-!
The BEP-15 UDP protocol: parsing of request datagrams and serialization of responses. Every slice and
every array conversion is checked, `none` being a panic of the source; `parse_total` and the
lemmas about the writers show that none occurs.
-/

open Rust

namespace Bluefrog.Udp

/-- The magic protocol id of every connect request. -/
def protocolId : UInt64 := 0x41727101980

/-- The minimum size of a request datagram. -/
def minPacket : Nat := 16

/-- The minimum size of an announce request. -/
def announceMin : Nat := 98

/-- The maximum number of info-hashes honoured in one scrape. -/
def maxScrapeHashes : Nat := 75

structure Announce where
  connectionId : UInt64
  transactionId : UInt32
  infoHash : InfoHash
  peerId : PeerId
  downloaded : UInt64
  left : UInt64
  uploaded : UInt64
  event : Event
  declaredIp : UInt32
  key : UInt32
  numWant : Int32
  port : UInt16
  deriving DecidableEq

structure Scrape where
  connectionId : UInt64
  transactionId : UInt32
  /-- The concatenated info-hashes. -/
  hashes : List UInt8
  deriving DecidableEq

inductive Request where
  | connect (transactionId : UInt32)
  | announce (a : Announce)
  | scrape (s : Scrape)
  deriving DecidableEq

inductive ParseError where
  | tooShort
  | badProtocolId
  | announceTooShort
  | unknownAction (action : UInt32)
  deriving DecidableEq

def beU16 (b : List UInt8) : Option UInt16 := (toArray 2 b).map fun a => UInt16.ofNat (beNat a.toList)
def beU32 (b : List UInt8) : Option UInt32 := (toArray 4 b).map fun a => UInt32.ofNat (beNat a.toList)
def beU64 (b : List UInt8) : Option UInt64 := (toArray 8 b).map fun a => UInt64.ofNat (beNat a.toList)

def hashRef (b : List UInt8) : Option InfoHash := toArray hashLen b

/-- The requested info-hashes. -/
def Scrape.iterHashes (s : Scrape) : Option (List InfoHash) := (chunksExact hashLen s.hashes).mapM hashRef

/-- The announce arm of `parse`. -/
def parseAnnounce (buf : List UInt8) (connectionId : UInt64) (transactionId : UInt32) :
    Option (Except ParseError Request) :=
  if buf.length < announceMin then some (.error .announceTooShort)
  else do
    let infoHash ← (slice buf 16 36).bind hashRef
    let peerId ← (slice buf 36 56).bind hashRef
    let downloaded ← (slice buf 56 64).bind beU64
    let left ← (slice buf 64 72).bind beU64
    let uploaded ← (slice buf 72 80).bind beU64
    let event ← (slice buf 80 84).bind beU32
    let declaredIp ← (slice buf 84 88).bind beU32
    let key ← (slice buf 88 92).bind beU32
    let numWant ← (slice buf 92 96).bind beU32
    let port ← (slice buf 96 98).bind beU16
    some (.ok (.announce {
      connectionId, transactionId, infoHash, peerId, downloaded, left, uploaded
      event := Event.fromUdp event
      declaredIp, key
      numWant := numWant.toInt32
      port }))

/-- The scrape arm of `parse`: whole hashes only, and no more than the cap. -/
def parseScrape (buf : List UInt8) (connectionId : UInt64) (transactionId : UInt32) :
    Option (Except ParseError Request) := do
  let full := min ((buf.length - minPacket) / hashLen) maxScrapeHashes
  let hashes ← slice buf minPacket (minPacket + full * hashLen)
  some (.ok (.scrape { connectionId, transactionId, hashes }))

/-- Parses a datagram into a request. -/
def parse (buf : List UInt8) : Option (Except ParseError Request) :=
  if buf.length < minPacket then some (.error .tooShort)
  else do
    let connectionId ← (slice buf 0 8).bind beU64
    let action ← (slice buf 8 12).bind beU32
    let transactionId ← (slice buf 12 16).bind beU32
    if action = 0 then
      if connectionId ≠ protocolId then some (.error .badProtocolId)
      else some (.ok (.connect transactionId))
    else if action = 1 then parseAnnounce buf connectionId transactionId
    else if action = 2 then parseScrape buf connectionId transactionId
    else some (.error (.unknownAction action))

/-- Writes a connect response into the first 16 bytes of `out`. -/
def writeConnect (out : List UInt8) (transactionId : UInt32) (connectionId : UInt64) : Option (List UInt8) := do
  let out ← copyFromSlice out 0 4 (toBe32 0)
  let out ← copyFromSlice out 4 8 (toBe32 transactionId)
  copyFromSlice out 8 16 (toBe64 connectionId)

/-- Writes an announce response, a header of 20 bytes and the compact peers, into `out`. -/
def writeAnnounce (out : List UInt8) (transactionId interval leechers seeders : UInt32) (peers : List UInt8) :
    Option (List UInt8 × Nat) := do
  let out ← copyFromSlice out 0 4 (toBe32 1)
  let out ← copyFromSlice out 4 8 (toBe32 transactionId)
  let out ← copyFromSlice out 8 12 (toBe32 interval)
  let out ← copyFromSlice out 12 16 (toBe32 leechers)
  let out ← copyFromSlice out 16 20 (toBe32 seeders)
  let out ← copyFromSlice out 20 (20 + peers.length) peers
  some (out, 20 + peers.length)

/-- The loop of `writeScrape`: twelve bytes an entry at a hand-advanced offset. -/
def writeEntries : List (UInt32 × UInt32 × UInt32) → List UInt8 × Nat → Option (List UInt8 × Nat)
  | [], acc => some acc
  | (seeders, downloaded, leechers) :: entries, (out, off) => do
      let out ← copyFromSlice out off (off + 4) (toBe32 seeders)
      let out ← copyFromSlice out (off + 4) (off + 8) (toBe32 downloaded)
      let out ← copyFromSlice out (off + 8) (off + 12) (toBe32 leechers)
      writeEntries entries (out, off + 12)

/-- Writes a scrape response into `out`. -/
def writeScrape (out : List UInt8) (transactionId : UInt32) (entries : List (UInt32 × UInt32 × UInt32)) :
    Option (List UInt8 × Nat) := do
  let out ← copyFromSlice out 0 4 (toBe32 2)
  let out ← copyFromSlice out 4 8 (toBe32 transactionId)
  writeEntries entries (out, 8)

section Reading

@[simp] theorem beU16_toBe16 (x : UInt16) : beU16 (toBe16 x) = some x := by
  rw [beU16, toArray, dif_pos (length_toBe16 x)]
  exact congrArg some (ofNat_beNat_toBe16 x)

@[simp] theorem beU32_toBe32 (x : UInt32) : beU32 (toBe32 x) = some x := by
  rw [beU32, toArray, dif_pos (length_toBe32 x)]
  exact congrArg some (ofNat_beNat_toBe32 x)

@[simp] theorem beU64_toBe64 (x : UInt64) : beU64 (toBe64 x) = some x := by
  rw [beU64, toArray, dif_pos (length_toBe64 x)]
  exact congrArg some (ofNat_beNat_toBe64 x)

@[simp] theorem hashRef_toList (hash : InfoHash) : hashRef hash.toList = some hash := toArray_toList hash

/-- A field within the datagram is read without a panic. -/
theorem exists_slice_bind_toArray {α : Type} {buf : List UInt8} {lo hi n : Nat} (f : Bytes n → α)
    (hlo : lo + n = hi) (hhi : hi ≤ buf.length) :
    ∃ x, (slice buf lo hi).bind (fun b => (toArray n b).map f) = some x := by
  have hslice := slice_of_le (show lo ≤ hi by omega) hhi
  have hlen := length_of_slice hslice
  rw [hslice, Option.bind_some, toArray, dif_pos (by omega)]
  exact ⟨_, rfl⟩

theorem exists_beU16 {buf : List UInt8} {lo hi : Nat} (hlo : lo + 2 = hi) (hhi : hi ≤ buf.length) :
    ∃ x, (slice buf lo hi).bind beU16 = some x := exists_slice_bind_toArray _ hlo hhi

theorem exists_beU32 {buf : List UInt8} {lo hi : Nat} (hlo : lo + 4 = hi) (hhi : hi ≤ buf.length) :
    ∃ x, (slice buf lo hi).bind beU32 = some x := exists_slice_bind_toArray _ hlo hhi

theorem exists_beU64 {buf : List UInt8} {lo hi : Nat} (hlo : lo + 8 = hi) (hhi : hi ≤ buf.length) :
    ∃ x, (slice buf lo hi).bind beU64 = some x := exists_slice_bind_toArray _ hlo hhi

theorem exists_hashRef {buf : List UInt8} {lo hi : Nat} (hlo : lo + 20 = hi) (hhi : hi ≤ buf.length) :
    ∃ x, (slice buf lo hi).bind hashRef = some x := by
  obtain ⟨x, hx⟩ := exists_slice_bind_toArray (id : Bytes 20 → Bytes 20) hlo hhi
  simp only [Option.map_id_fun, id_eq] at hx
  exact ⟨x, hx⟩

end Reading

section Header

/-- A datagram: the header, then the body. -/
def header (connectionId : UInt64) (action transactionId : UInt32) (body : List UInt8) : List UInt8 :=
  toBe64 connectionId ++ (toBe32 action ++ (toBe32 transactionId ++ body))

theorem length_header (connectionId : UInt64) (action transactionId : UInt32) (body : List UInt8) :
    (header connectionId action transactionId body).length = minPacket + body.length := by
  simp only [header, List.length_append, length_toBe32, length_toBe64, minPacket]
  omega

/-- A datagram of at least the length of a header has one. -/
theorem exists_header {buf : List UInt8} (h : minPacket ≤ buf.length) :
    ∃ connectionId action transactionId body, buf = header connectionId action transactionId body := by
  have hlen : 16 ≤ buf.length := h
  obtain ⟨connectionId, rest, rfl⟩ := exists_toBe64_append (show 8 ≤ buf.length by omega)
  rw [List.length_append, length_toBe64] at hlen
  obtain ⟨action, rest, rfl⟩ := exists_toBe32_append (show 4 ≤ rest.length by omega)
  rw [List.length_append, length_toBe32] at hlen
  obtain ⟨transactionId, body, rfl⟩ := exists_toBe32_append (show 4 ≤ rest.length by omega)
  exact ⟨connectionId, action, transactionId, body, rfl⟩

variable (connectionId : UInt64) (action transactionId : UInt32) (body : List UInt8)

theorem slice_header_action : slice (header connectionId action transactionId body) 8 12 = some (toBe32 action) := by
  rw [header, slice_skip (by rw [length_toBe64]) (by omega), length_toBe64, slice_head (length_toBe32 _)]

theorem slice_header_transactionId :
    slice (header connectionId action transactionId body) 12 16 = some (toBe32 transactionId) := by
  rw [header, slice_skip (by rw [length_toBe64]; omega) (by omega), length_toBe64,
    slice_skip (by rw [length_toBe32]) (by omega), length_toBe32, slice_head (length_toBe32 _)]

/-- The action of the header decides. -/
theorem parse_header : parse (header connectionId action transactionId body) =
    if action = 0 then
      if connectionId ≠ protocolId then some (.error .badProtocolId)
      else some (.ok (.connect transactionId))
    else if action = 1 then parseAnnounce (header connectionId action transactionId body) connectionId transactionId
    else if action = 2 then parseScrape (header connectionId action transactionId body) connectionId transactionId
    else some (.error (.unknownAction action)) := by
  have hcid : (slice (header connectionId action transactionId body) 0 8).bind beU64 = some connectionId := by
    rw [header, slice_head (length_toBe64 _), Option.bind_some, beU64_toBe64]
  rw [parse, if_neg (by rw [length_header]; omega), hcid, slice_header_action, slice_header_transactionId]
  simp only [Option.bind_eq_bind, Option.bind_some, beU32_toBe32]

end Header

/-- The action of a request. -/
def Request.action : Request → UInt32
  | .connect _ => 0
  | .announce _ => 1
  | .scrape _ => 2

def Request.transactionId : Request → UInt32
  | .connect transactionId => transactionId
  | .announce a => a.transactionId
  | .scrape s => s.transactionId

theorem parseAnnounce_total (buf : List UInt8) (connectionId : UInt64) (transactionId : UInt32) :
    ∃ r, parseAnnounce buf connectionId transactionId = some r ∧
      ∀ req, r = .ok req → req.action = 1 ∧ req.transactionId = transactionId := by
  by_cases hann : buf.length < announceMin
  · exact ⟨_, if_pos hann, fun req hreq => by cases hreq⟩
  have hlen : 98 ≤ buf.length := Nat.not_lt.mp hann
  obtain ⟨infoHash, hhash⟩ := @exists_hashRef buf 16 36 rfl (by omega)
  obtain ⟨peerId, hpeer⟩ := @exists_hashRef buf 36 56 rfl (by omega)
  obtain ⟨downloaded, hdown⟩ := @exists_beU64 buf 56 64 rfl (by omega)
  obtain ⟨left, hleft⟩ := @exists_beU64 buf 64 72 rfl (by omega)
  obtain ⟨uploaded, hup⟩ := @exists_beU64 buf 72 80 rfl (by omega)
  obtain ⟨event, hevent⟩ := @exists_beU32 buf 80 84 rfl (by omega)
  obtain ⟨declaredIp, hip⟩ := @exists_beU32 buf 84 88 rfl (by omega)
  obtain ⟨key, hkey⟩ := @exists_beU32 buf 88 92 rfl (by omega)
  obtain ⟨numWant, hwant⟩ := @exists_beU32 buf 92 96 rfl (by omega)
  obtain ⟨port, hport⟩ := @exists_beU16 buf 96 98 rfl (by omega)
  rw [parseAnnounce, if_neg hann, hhash, hpeer, hdown, hleft, hup, hevent, hip, hkey, hwant, hport]
  refine ⟨_, rfl, fun req hreq => ?_⟩
  cases hreq
  exact ⟨rfl, rfl⟩

theorem parseScrape_total {buf : List UInt8} (h : minPacket ≤ buf.length) (connectionId : UInt64)
    (transactionId : UInt32) : ∃ s, parseScrape buf connectionId transactionId = some (.ok (.scrape s)) ∧
      s.transactionId = transactionId ∧ s.hashes.length ≤ maxScrapeHashes * hashLen := by
  have hcap := Nat.mul_le_mul_right hashLen (Nat.min_le_right ((buf.length - minPacket) / hashLen) maxScrapeHashes)
  have hfit : minPacket + min ((buf.length - minPacket) / hashLen) maxScrapeHashes * hashLen ≤ buf.length := by
    have hdiv := Nat.div_mul_le_self (buf.length - minPacket) hashLen
    have hmul := Nat.mul_le_mul_right hashLen
      (Nat.min_le_left ((buf.length - minPacket) / hashLen) maxScrapeHashes)
    omega
  have hslice := slice_of_le (Nat.le_add_right minPacket _) hfit
  rw [parseScrape, hslice]
  refine ⟨_, rfl, rfl, ?_⟩
  have hlen := length_of_slice hslice
  exact (Nat.le_of_eq hlen).trans (by rwa [Nat.add_sub_cancel_left])

/-- A datagram of at least the length of a header: its action decides. -/
theorem parse_of_length {buf : List UInt8} (h : minPacket ≤ buf.length) :
    ∃ connectionId action transactionId, slice buf 8 12 = some (toBe32 action) ∧
      slice buf 12 16 = some (toBe32 transactionId) ∧
      parse buf =
        if action = 0 then
          if connectionId ≠ protocolId then some (.error .badProtocolId)
          else some (.ok (.connect transactionId))
        else if action = 1 then parseAnnounce buf connectionId transactionId
        else if action = 2 then parseScrape buf connectionId transactionId
        else some (.error (.unknownAction action)) := by
  obtain ⟨connectionId, action, transactionId, body, rfl⟩ := exists_header h
  exact ⟨connectionId, action, transactionId, slice_header_action _ _ _ _, slice_header_transactionId _ _ _ _,
    parse_header _ _ _ _⟩

/-- Parsing never panics, and a request is of the action and transaction of its header. -/
theorem parse_total (buf : List UInt8) :
    ∃ r, parse buf = some r ∧ ∀ req, r = .ok req → minPacket ≤ buf.length ∧
      slice buf 8 12 = some (toBe32 req.action) ∧ slice buf 12 16 = some (toBe32 req.transactionId) := by
  by_cases hmin : buf.length < minPacket
  · refine ⟨.error .tooShort, if_pos hmin, ?_⟩
    intro req hreq
    cases hreq
  have hlen := Nat.not_lt.mp hmin
  obtain ⟨connectionId, action, transactionId, haction, htid, hparse⟩ := parse_of_length hlen
  rw [hparse, haction, htid]
  by_cases h0 : action = 0
  · rw [if_pos h0]
    by_cases hproto : connectionId ≠ protocolId
    · exact ⟨_, if_pos hproto, fun req hreq => by cases hreq⟩
    · refine ⟨_, if_neg hproto, fun req hreq => ?_⟩
      cases hreq
      exact ⟨hlen, by rw [h0]; rfl, rfl⟩
  by_cases h1 : action = 1
  · rw [if_neg h0, if_pos h1]
    obtain ⟨r, hr, hfields⟩ := parseAnnounce_total buf connectionId transactionId
    refine ⟨r, hr, fun req hreq => ?_⟩
    rw [(hfields req hreq).1, (hfields req hreq).2, h1]
    exact ⟨hlen, rfl, rfl⟩
  by_cases h2 : action = 2
  · rw [if_neg h0, if_neg h1, if_pos h2]
    obtain ⟨s, hs, hid, -⟩ := parseScrape_total hlen connectionId transactionId
    refine ⟨_, hs, fun req hreq => ?_⟩
    cases hreq
    rw [Request.transactionId, hid, h2]
    exact ⟨hlen, rfl, rfl⟩
  · rw [if_neg h0, if_neg h1, if_neg h2]
    exact ⟨_, rfl, fun req hreq => by cases hreq⟩

/-- A parsed scrape has no more info-hashes than the cap. -/
theorem length_hashes_le {buf : List UInt8} {s : Scrape} (hparse : parse buf = some (.ok (.scrape s))) :
    s.hashes.length ≤ maxScrapeHashes * hashLen := by
  by_cases hmin : buf.length < minPacket
  · rw [parse, if_pos hmin] at hparse
    cases hparse
  have hlen := Nat.not_lt.mp hmin
  obtain ⟨connectionId, action, transactionId, -, -, heq⟩ := parse_of_length hlen
  rw [heq] at hparse
  split_ifs at hparse
  · cases hparse
  · cases hparse
  · obtain ⟨r, hr, hfields⟩ := parseAnnounce_total buf connectionId transactionId
    rw [hr] at hparse
    have haction : (2 : UInt32) = 1 := (hfields _ (Option.some_inj.mp hparse)).1
    exact absurd haction (by decide)
  · obtain ⟨s', hs, -, hle⟩ := parseScrape_total hlen connectionId transactionId
    rw [hs] at hparse
    cases hparse
    exact hle
  · cases hparse

/-- The chunks of a scrape have the length of an info-hash, so none is rejected. -/
theorem iterHashes_total (s : Scrape) : ∃ hashes, s.iterHashes = some hashes := by
  have hchunk : ∀ b ∈ chunksExact hashLen s.hashes, ∃ hash, hashRef b = some hash := fun b hb =>
    ⟨_, dif_pos (length_of_mem_chunksExact hb)⟩
  unfold Scrape.iterHashes
  generalize chunksExact hashLen s.hashes = chunks at hchunk
  induction chunks with
  | nil => exact ⟨[], rfl⟩
  | cons b chunks ih =>
      obtain ⟨hash, hhash⟩ := hchunk b List.mem_cons_self
      obtain ⟨hashes, hhashes⟩ := ih fun b' hb' => hchunk b' (List.mem_cons_of_mem _ hb')
      exact ⟨hash :: hashes, by rw [List.mapM_cons, hhash, hhashes]; rfl⟩

theorem iterHashes_length_le {s : Scrape} {hashes : List InfoHash} (h : s.iterHashes = some hashes)
    (hle : s.hashes.length ≤ maxScrapeHashes * hashLen) : hashes.length ≤ maxScrapeHashes := by
  have hlen : hashes.length = (chunksExact hashLen s.hashes).length := by
    unfold Scrape.iterHashes at h
    generalize chunksExact hashLen s.hashes = chunks at h
    induction chunks generalizing hashes with
    | nil =>
        cases h
        rfl
    | cons b chunks ih =>
        rw [List.mapM_cons] at h
        obtain ⟨hash, -, hcons⟩ := Option.bind_eq_some_iff.mp h
        obtain ⟨rest, hrest, heq⟩ := Option.bind_eq_some_iff.mp hcons
        cases heq
        rw [List.length_cons, List.length_cons, ih hrest]
  rw [hlen, chunksExact, List.length_map, List.length_range]
  exact Nat.div_le_of_le_mul (by rwa [Nat.mul_comm])

/-- Every datagram is rejected by the parser or is one of the three requests. -/
theorem parse_cases (buf : List UInt8) :
    (∃ e, parse buf = some (.error e)) ∨ (∃ transactionId, parse buf = some (.ok (.connect transactionId))) ∨
      (∃ a, parse buf = some (.ok (.announce a))) ∨
        ∃ s hashes, parse buf = some (.ok (.scrape s)) ∧ s.iterHashes = some hashes := by
  obtain ⟨r, hr, -⟩ := parse_total buf
  cases r with
  | error e => exact .inl ⟨e, hr⟩
  | ok req =>
      cases req with
      | connect transactionId => exact .inr (.inl ⟨transactionId, hr⟩)
      | announce a => exact .inr (.inr (.inl ⟨a, hr⟩))
      | scrape s =>
          obtain ⟨hashes, hhashes⟩ := iterHashes_total s
          exact .inr (.inr (.inr ⟨s, hashes, hr, hhashes⟩))

section Datagrams

theorem slice_header (connectionId : UInt64) (action transactionId : UInt32) (body : List UInt8) {lo hi : Nat}
    (h : 16 ≤ lo) (hlh : lo ≤ hi) :
    slice (header connectionId action transactionId body) lo hi = slice body (lo - 16) (hi - 16) := by
  simp (disch := first | omega | grind) only
    [header, slice_skip, length_toBe32, length_toBe64, Nat.sub_sub, Nat.reduceAdd]

/-- The body of an announce datagram: the fields of the request in order, then anything. -/
def announceBody (a : Announce) (eventCode : UInt32) (rest : List UInt8) : List UInt8 :=
  a.infoHash.toList ++ (a.peerId.toList ++ (toBe64 a.downloaded ++ (toBe64 a.left ++ (toBe64 a.uploaded ++
    (toBe32 eventCode ++ (toBe32 a.declaredIp ++ (toBe32 a.key ++ (toBe32 a.numWant.toUInt32 ++
      (toBe16 a.port ++ rest)))))))))

def announceDatagram (a : Announce) (eventCode : UInt32) (rest : List UInt8) : List UInt8 :=
  header a.connectionId 1 a.transactionId (announceBody a eventCode rest)

theorem parse_announceDatagram {a : Announce} {eventCode : UInt32} (h : Event.fromUdp eventCode = a.event)
    (rest : List UInt8) : parse (announceDatagram a eventCode rest) = some (.ok (.announce a)) := by
  have hhash : a.infoHash.toList.length = 20 := a.infoHash.toList_length
  have hpeer : a.peerId.toList.length = 20 := a.peerId.toList_length
  have hlen : ¬(announceDatagram a eventCode rest).length < announceMin := by
    simp only [announceDatagram, length_header, announceBody, List.length_append, length_toBe16, length_toBe32,
      length_toBe64, hhash, hpeer, minPacket, announceMin]
    omega
  rw [announceDatagram] at hlen ⊢
  rw [parse_header, if_neg (by decide), if_pos rfl, parseAnnounce, if_neg hlen]
  simp (disch := first | omega | grind) only
    [slice_header, announceBody, slice_skip, slice_head, length_toBe32, length_toBe64, hhash, hpeer,
      Nat.reduceSub, Option.bind_eq_bind, Option.bind_some, beU16_toBe16, beU32_toBe32, beU64_toBe64,
      hashRef_toList, h, Int32.toInt32_toUInt32]

/-- A scrape datagram: the header, the info-hashes, then anything. -/
def scrapeDatagram (connectionId : UInt64) (transactionId : UInt32) (hashes : List InfoHash)
    (rest : List UInt8) : List UInt8 :=
  header connectionId 2 transactionId (hashes.flatMap List.Vector.toList ++ rest)

theorem parse_scrapeDatagram (connectionId : UInt64) (transactionId : UInt32) (hashes : List InfoHash)
    {rest : List UInt8} (h : rest.length < hashLen) :
    parse (scrapeDatagram connectionId transactionId hashes rest) =
      some (.ok (.scrape ⟨connectionId, transactionId,
        (hashes.take maxScrapeHashes).flatMap List.Vector.toList⟩)) := by
  have hlen : (hashes.flatMap List.Vector.toList ++ rest).length = hashes.length * hashLen + rest.length := by
    rw [List.length_append, length_flatMap_const List.Vector.toList_length]
  have hfull : (minPacket + (hashes.length * hashLen + rest.length) - minPacket) / hashLen = hashes.length := by
    rw [Nat.add_sub_cancel_left, Nat.add_comm, Nat.add_mul_div_right _ _ (by decide), Nat.div_eq_of_lt h,
      Nat.zero_add]
  have hle := Nat.mul_le_mul_right hashLen (Nat.min_le_left hashes.length maxScrapeHashes)
  have hslice : slice (scrapeDatagram connectionId transactionId hashes rest) minPacket
      (minPacket + min hashes.length maxScrapeHashes * hashLen) =
        some ((hashes.take maxScrapeHashes).flatMap List.Vector.toList) := by
    calc slice (scrapeDatagram connectionId transactionId hashes rest) minPacket
          (minPacket + min hashes.length maxScrapeHashes * hashLen)
        = slice (hashes.flatMap List.Vector.toList ++ rest) 0 (min hashes.length maxScrapeHashes * hashLen) := by
          rw [scrapeDatagram, minPacket, slice_header _ _ _ _ (Nat.le_refl 16) (Nat.le_add_right _ _), Nat.sub_self,
            Nat.add_sub_cancel_left]
      _ = some ((hashes.flatMap List.Vector.toList ++ rest).take (min hashes.length maxScrapeHashes * hashLen)) := by
          rw [slice_of_le (Nat.zero_le _) (by omega), List.drop_zero, Nat.sub_zero]
      _ = some ((hashes.flatMap List.Vector.toList).take (min hashes.length maxScrapeHashes * hashLen)) := by
          rw [List.take_append_of_le_length (by rw [length_flatMap_const List.Vector.toList_length]; exact hle)]
      _ = some ((hashes.take maxScrapeHashes).flatMap List.Vector.toList) := by
          rw [take_flatMap_const List.Vector.toList_length, Nat.min_comm, ← List.take_eq_take_min]
  rw [scrapeDatagram, parse_header, if_neg (by decide), if_neg (by decide), if_pos rfl, parseScrape, length_header,
    hlen, hfull, ← scrapeDatagram, hslice]
  rfl

/-- The info-hashes of a parsed scrape are whole, so none is rejected. -/
theorem iterHashes_flatMap (connectionId : UInt64) (transactionId : UInt32) (hashes : List InfoHash) :
    Scrape.iterHashes ⟨connectionId, transactionId, hashes.flatMap List.Vector.toList⟩ = some hashes := by
  rw [Scrape.iterHashes, chunksExact_flatMap (by decide) List.Vector.toList_length]
  induction hashes with
  | nil => rfl
  | cons hash hashes ih =>
      rw [List.map_cons, List.mapM_cons, hashRef_toList, ih]
      rfl

end Datagrams

section Writing

theorem writeConnect_eq {out : List UInt8} (h : out.length = 16) (transactionId : UInt32) (connectionId : UInt64) :
    writeConnect out transactionId connectionId =
      some (toBe32 0 ++ toBe32 transactionId ++ toBe64 connectionId) := by
  have hrest : out.drop 16 = [] := List.drop_eq_nil_of_le (Nat.le_of_eq h)
  simp (disch := first | omega | grind) only
    [writeConnect, copyFromSlice_start, copyFromSlice_front, length_toBe32, length_toBe64, Option.bind_eq_bind,
      Option.bind_some, List.drop_drop, Nat.reduceAdd, hrest, List.append_nil]

theorem writeAnnounce_eq {out : List UInt8} (h : 20 ≤ out.length)
    (transactionId interval leechers seeders : UInt32) :
    writeAnnounce out transactionId interval leechers seeders [] =
      some (toBe32 1 ++ toBe32 transactionId ++ toBe32 interval ++ toBe32 leechers ++ toBe32 seeders ++
        out.drop 20, 20) := by
  simp (disch := first | omega | grind) only
    [writeAnnounce, copyFromSlice_start, copyFromSlice_front, length_toBe32, List.length_nil, Option.bind_eq_bind,
      Option.bind_some, List.drop_drop, Nat.reduceAdd, List.append_nil, Nat.add_zero]

/-- One entry of a scrape response. -/
def entryBytes (e : UInt32 × UInt32 × UInt32) : List UInt8 := toBe32 e.1 ++ toBe32 e.2.1 ++ toBe32 e.2.2

@[simp] theorem length_entryBytes (e : UInt32 × UInt32 × UInt32) : (entryBytes e).length = 12 := by
  simp only [entryBytes, List.length_append, length_toBe32]

theorem writeEntries_eq (entries : List (UInt32 × UInt32 × UInt32)) {pre old : List UInt8}
    (h : old.length = entries.length * 12) :
    writeEntries entries (pre ++ old, pre.length) =
      some (pre ++ entries.flatMap entryBytes, pre.length + entries.length * 12) := by
  induction entries generalizing pre old with
  | nil =>
      rw [List.length_nil, Nat.zero_mul] at h
      rw [List.eq_nil_of_length_eq_zero h]
      rfl
  | cons e entries ih =>
      rw [List.length_cons] at h
      have hstep : writeEntries (e :: entries) (pre ++ old, pre.length) =
          writeEntries entries (pre ++ entryBytes e ++ old.drop 12, (pre ++ entryBytes e).length) := by
        simp (disch := first | omega | grind) only
          [writeEntries, copyFromSlice_front, length_toBe32, Option.bind_eq_bind, Option.bind_some, List.drop_drop,
            Nat.reduceAdd, List.length_append, length_entryBytes]
        simp only [entryBytes, List.append_assoc]
      rw [hstep, ih (by rw [List.length_drop]; omega), List.flatMap_cons, List.append_assoc, List.length_append,
        length_entryBytes, List.length_cons]
      congr 2
      omega

theorem writeScrape_eq (entries : List (UInt32 × UInt32 × UInt32)) {out : List UInt8}
    (h : out.length = 8 + entries.length * 12) (transactionId : UInt32) :
    writeScrape out transactionId entries =
      some (toBe32 2 ++ toBe32 transactionId ++ entries.flatMap entryBytes, 8 + entries.length * 12) := by
  have hpre : (toBe32 2 ++ toBe32 transactionId).length = 8 := by
    rw [List.length_append, length_toBe32, length_toBe32]
  have hentries := @writeEntries_eq entries (toBe32 2 ++ toBe32 transactionId) (out.drop 8)
    (by rw [List.length_drop]; omega)
  rw [hpre] at hentries
  simp (disch := first | omega | grind) only
    [writeScrape, copyFromSlice_start, copyFromSlice_front, length_toBe32, Option.bind_eq_bind, Option.bind_some,
      List.drop_drop, Nat.reduceAdd, hentries]

end Writing

end Bluefrog.Udp
