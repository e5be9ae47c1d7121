import Bluefrog.Proto.Bencode
import Bluefrog.Udp.Handler

/-!
The HTTP request handler: a request target and the source address in, a response out. A target is
the byte string of the source's text; all of its separators, names and numbers are ASCII, so splitting
and comparing bytes is splitting and comparing text.
-/

open Rust

namespace Bluefrog

inductive Response where
  | body (b : List UInt8)
  | redirect
  | badRequest
  | notFound
  deriving DecidableEq

namespace Http

def numwantMax : Nat := 200

/-- The peer count to return when the client omits it. -/
def numwantDefault : Nat := 50

/-- The maximum number of info-hashes honoured in one scrape. -/
def maxScrapeHashes : Nat := 75

def hexVal (c : UInt8) : Option UInt8 :=
  if 48 ≤ c ∧ c ≤ 57 then some (c - 48)
  else if 97 ≤ c ∧ c ≤ 102 then some (c - 97 + 10)
  else if 65 ≤ c ∧ c ≤ 70 then some (c - 65 + 10)
  else none

/-- Percent-decodes a string, a plus sign standing for a space. `none` is a malformed escape. -/
def percentDecode : List UInt8 → Option (List UInt8)
  | [] => some []
  | c :: rest =>
      if c = 37 then
        match rest with
        | h :: l :: rest => do
            let h ← hexVal h
            let l ← hexVal l
            let out ← percentDecode rest
            some ((h <<< 4 ||| l) :: out)
        | _ => none
      else if c = 43 then (percentDecode rest).map fun out => 32 :: out
      else (percentDecode rest).map fun out => c :: out

/-- The pairs of a query, in order, with values not yet decoded. -/
def queryPairs (query : List UInt8) : List (List UInt8 × List UInt8) :=
  ((query.splitOn 38).filter fun p => p ≠ []).map fun p => (splitOnce 61 p).getD (p, [])

/-- The info-hash a raw value stands for. -/
def decodeHash (raw : List UInt8) : Option InfoHash := (percentDecode raw).bind (toArray hashLen)

/-- What the announce loop has read of the parameters so far. -/
structure Params where
  infoHash : Option InfoHash
  port : Option UInt16
  left : UInt64
  event : List UInt8
  numwant : Nat
  numwant_le : numwant ≤ numwantMax

def Params.default : Params := ⟨none, none, 1, [], numwantDefault, by decide⟩

/-- One turn of the announce loop. -/
def Params.read (p : Params) (pair : List UInt8 × List UInt8) : Except Response Params :=
  let (key, raw) := pair
  if key = ascii "info_hash" then
    match decodeHash raw with
    | some hash => .ok { p with infoHash := some hash }
    | none => .error .badRequest
  else if key = ascii "port" then
    match parseUnsigned (2 ^ 16) raw with
    | some port => .ok { p with port := some (UInt16.ofNat port) }
    | none => .error .badRequest
  else if key = ascii "left" then
    .ok { p with left := UInt64.ofNat ((parseUnsigned (2 ^ 64) raw).getD 1) }
  else if key = ascii "event" then .ok { p with event := raw }
  else if key = ascii "compact" then
    if raw = ascii "0" then .error .badRequest else .ok p
  else if key = ascii "numwant" then
    match parseUnsigned (2 ^ 64) raw with
    | some n => .ok { p with numwant := min n numwantMax, numwant_le := Nat.min_le_right n numwantMax }
    | none => .ok p
  else .ok p

def v4Key (srcIp : Bytes 16) (port : UInt16) : Bytes 6 :=
  ⟨srcIp.toList.drop 12 ++ toBe16 port, length_v4Key srcIp port⟩

def v6Key (srcIp : Bytes 16) (port : UInt16) : Bytes 18 :=
  ⟨srcIp.toList ++ toBe16 port, length_v6Key srcIp port⟩

/-- The scrape loop: the counts of the first info-hashes, in request order. -/
def scrapeFiles (store : Store) :
    List (List UInt8 × List UInt8) → List (InfoHash × Counts) → Except Response (List (InfoHash × Counts))
  | [], files => .ok files
  | (key, raw) :: pairs, files =>
      if key = ascii "info_hash" then
        if maxScrapeHashes ≤ files.length then .ok files
        else
          match decodeHash raw with
          | some hash => scrapeFiles store pairs (files ++ [(hash, store.scrape hash)])
          | none => .error .badRequest
      else scrapeFiles store pairs files

end Http

/-- The HTTP handler over a store. -/
structure HttpHandler where
  store : Store

namespace HttpHandler

open Http

variable (itoa : Itoa) (order : HashOrder)

def announce (h : HttpHandler) (query : List UInt8) (srcIp : Bytes 16) (isV4 : Bool) (now interval : UInt32) :
    HttpHandler × Response :=
  match (queryPairs query).foldlM Params.read Params.default with
  | .error response => (h, response)
  | .ok p =>
      match p.infoHash, p.port with
      | some hash, some port =>
          let flags : UInt8 := 0
          let flags := if p.left = 0 then flags ||| Flag.seeding else flags
          let flags := if p.event = ascii "completed" then flags ||| Flag.completed else flags
          let (store, counts, peers4, peers6) :=
            if p.event = ascii "stopped" then
              if isV4 then
                let (store, counts) := h.store.removeV4 hash (Http.v4Key srcIp port) now
                (store, counts, [], [])
              else
                let (store, counts) := h.store.removeV6 hash (Http.v6Key srcIp port) now
                (store, counts, [], [])
            else if isV4 then
              let (store, counts, peers4) :=
                h.store.announceV4 order hash (Http.v4Key srcIp port) flags p.numwant now []
              (store, counts, peers4, [])
            else
              let (store, counts, peers6) :=
                h.store.announceV6 order hash (Http.v6Key srcIp port) flags p.numwant now []
              (store, counts, [], peers6)
          (⟨store⟩, .body (Bencode.announceResponse itoa [] counts interval peers4 peers6))
      | _, _ =>
          (h, .body (Bencode.failure itoa [] (ascii "Your client forgot to send your torrent's info_hash.")))

def scrape (h : HttpHandler) (query : List UInt8) : Response :=
  match scrapeFiles h.store (queryPairs query) [] with
  | .error response => response
  | .ok files => .body (Bencode.scrapeResponse itoa [] files)

/-- Handles a request for a target. Returns the handler after it and the response. -/
def handle (h : HttpHandler) (target : List UInt8) (srcIp : Bytes 16) (isV4 : Bool) (now interval : UInt32) :
    HttpHandler × Response :=
  let (path, query) := (splitOnce 63 target).getD (target, [])
  if path = ascii "/" then (h, .redirect)
  else if path = ascii "/announce" then h.announce itoa order query srcIp isV4 now interval
  else if path = ascii "/scrape" then (h, h.scrape itoa query)
  else (h, .notFound)

end HttpHandler

/-- The path and the query of a target. -/
def Http.splitTarget (target : List UInt8) : List UInt8 × List UInt8 := (splitOnce 63 target).getD (target, [])

/-- The event a raw parameter stands for. -/
def Http.eventOf (raw : List UInt8) : Event :=
  if raw = ascii "stopped" then .stopped else if raw = ascii "completed" then .completed else .none

theorem Http.eventOf_eq_stopped (raw : List UInt8) : eventOf raw = .stopped ↔ raw = ascii "stopped" := by
  unfold eventOf
  split_ifs with hs hc
  · exact ⟨fun _ => hs, fun _ => rfl⟩
  · exact ⟨fun h => (by cases h), fun h => absurd h hs⟩
  · exact ⟨fun h => (by cases h), fun h => absurd h hs⟩

theorem Http.eventOf_eq_completed {raw : List UInt8} (hs : raw ≠ ascii "stopped") :
    eventOf raw = .completed ↔ raw = ascii "completed" := by
  rw [eventOf, if_neg hs]
  split_ifs with hc
  · exact ⟨fun _ => hc, fun _ => rfl⟩
  · exact ⟨fun h => (by cases h), fun h => absurd h hc⟩

namespace HttpHandler

open Http

variable (itoa : Itoa) (order : HashOrder)

/-- An announce that names an info-hash and a port is one call of the store. Its body reports the counts after
it, and the peers that the call returns, in the list of the source's family. -/
theorem announce_eq (h : HttpHandler) {query : List UInt8} (srcIp : Bytes 16) (isV4 : Bool) (now interval : UInt32)
    {p : Params} {hash : InfoHash} {port : UInt16}
    (hp : (queryPairs query).foldlM Params.read Params.default = .ok p) (hhash : p.infoHash = some hash)
    (hport : p.port = some port) :
    let op := announceOp (announcedPeer hash port srcIp isV4) p.left (eventOf p.event) p.numwant now []
    h.announce itoa order query srcIp isV4 now interval =
      (⟨h.store.step order op⟩, .body (Bencode.announceResponse itoa [] ((h.store.step order op).scrape hash) interval
        (if isV4 then (h.store.exec order op).2.peersOut else [])
        (if isV4 then [] else (h.store.exec order op).2.peersOut))) := by
  intro op
  have hcounts := announceOp_counts order h.store (announcedPeer hash port srcIp isV4) p.left (eventOf p.event)
    p.numwant now []
  change (h.store.exec order op).2.counts = some ((h.store.step order op).scrape hash) at hcounts
  have heq : h.announce itoa order query srcIp isV4 now interval =
      (⟨(h.store.exec order op).1⟩, .body (Bencode.announceResponse itoa []
        (((h.store.exec order op).2.counts).getD Counts.default) interval
        (if isV4 then (h.store.exec order op).2.peersOut else [])
        (if isV4 then [] else (h.store.exec order op).2.peersOut))) := by
    by_cases hstop : p.event = ascii "stopped"
    · have hop : op = .remove (announcedPeer hash port srcIp isV4) now := if_pos ((eventOf_eq_stopped _).mpr hstop)
      rw [hop, announce, hp]
      simp only [hhash, hport, if_pos hstop]
      cases isV4 <;> rfl
    · have hop : op = .announce (announcedPeer hash port srcIp isV4) (announceFlags p.left (eventOf p.event)) p.numwant
          now [] := if_neg (mt (eventOf_eq_stopped _).mp hstop)
      have hflags : announceFlags p.left (eventOf p.event) =
          (let flags : UInt8 := if p.left = 0 then 0 ||| Flag.seeding else 0
            if p.event = ascii "completed" then flags ||| Flag.completed else flags) := by
        simp only [announceFlags, eventOf_eq_completed hstop]
      rw [hop, announce, hp, hflags]
      simp only [hhash, hport, if_neg hstop]
      cases isV4 <;> rfl
  rw [heq, hcounts]
  rfl

/-- An announce's call returns no more peers than fit the cap. -/
theorem length_peersOut_le (store : Store) (hash : InfoHash) (port : UInt16) (srcIp : Bytes 16) (isV4 : Bool)
    (now : UInt32) (p : Params) :
    (store.exec order (announceOp (announcedPeer hash port srcIp isV4) p.left (eventOf p.event) p.numwant now
      [])).2.peersOut.length ≤ 3600 := by
  by_cases hstop : eventOf p.event = .stopped
  · rw [show announceOp (announcedPeer hash port srcIp isV4) p.left (eventOf p.event) p.numwant now [] =
      .remove (announcedPeer hash port srcIp isV4) now from if_pos hstop]
    exact Nat.zero_le _
  · rw [show announceOp (announcedPeer hash port srcIp isV4) p.left (eventOf p.event) p.numwant now [] =
      .announce (announcedPeer hash port srcIp isV4) (announceFlags p.left (eventOf p.event)) p.numwant now []
        from if_neg hstop]
    obtain ⟨peers, hpeers, hlen⟩ := PeerList.writeCompact_spec
      ((((store.get hash).getD Torrent.new).withAnnounce (Family.ofIsV4 isV4) (compactPeer isV4 srcIp port)
        (announceFlags p.left (eventOf p.event)) now).list (Family.ofIsV4 isV4)) order p.numwant []
    have hkey : (Family.ofIsV4 isV4).keyLen ≤ 18 := by cases isV4 <;> decide
    exact (congrArg List.length hpeers).trans_le (Nat.le_trans hlen (Nat.mul_le_mul p.numwant_le hkey))

theorem length_lists_le {peers : List UInt8} {bound : Nat} (h : peers.length ≤ bound) (isV4 : Bool) :
    (if isV4 then peers else []).length ≤ bound ∧ (if isV4 then [] else peers).length ≤ bound := by
  cases isV4 with
  | true => exact ⟨h, Nat.zero_le _⟩
  | false => exact ⟨Nat.zero_le _, h⟩

/-- An announce that names an info-hash and a port is one call of the store, and its body reports the
counts after it. -/
theorem announce_spec (h : HttpHandler) {query : List UInt8} (srcIp : Bytes 16) (isV4 : Bool)
    (now interval : UInt32) {p : Params} {hash : InfoHash} {port : UInt16}
    (hp : (queryPairs query).foldlM Params.read Params.default = .ok p) (hhash : p.infoHash = some hash)
    (hport : p.port = some port) :
    let op := announceOp (announcedPeer hash port srcIp isV4) p.left (eventOf p.event) p.numwant now []
    ∃ peers4 peers6, h.announce itoa order query srcIp isV4 now interval =
        (⟨h.store.step order op⟩, .body (Bencode.announceResponse itoa []
          ((h.store.step order op).scrape hash) interval peers4 peers6)) ∧
      peers4.length ≤ 3600 ∧ peers6.length ≤ 3600 := by
  intro op
  exact ⟨_, _, announce_eq itoa order h srcIp isV4 now interval hp hhash hport,
    length_lists_le (length_peersOut_le order h.store hash port srcIp isV4 now p) isV4⟩

/-- An announce that lacks an info-hash or a port is told so, and leaves the store. -/
theorem announce_forgot (h : HttpHandler) {query : List UInt8} (srcIp : Bytes 16) (isV4 : Bool)
    (now interval : UInt32) {p : Params} (hp : (queryPairs query).foldlM Params.read Params.default = .ok p)
    (hlacks : ¬∃ hash port, p.infoHash = some hash ∧ p.port = some port) :
    h.announce itoa order query srcIp isV4 now interval =
      (h, .body (Bencode.failure itoa [] (ascii "Your client forgot to send your torrent's info_hash."))) := by
  rw [announce, hp]
  cases hhash : p.infoHash with
  | none => simp only [hhash]
  | some hash =>
      cases hport : p.port with
      | none => simp only [hhash, hport]
      | some port => exact absurd ⟨hash, port, hhash, hport⟩ hlacks

theorem handle_eq (h : HttpHandler) (target : List UInt8) (srcIp : Bytes 16) (isV4 : Bool) (now interval : UInt32) :
    h.handle itoa order target srcIp isV4 now interval =
      if (splitTarget target).1 = ascii "/" then (h, .redirect)
      else if (splitTarget target).1 = ascii "/announce" then
        h.announce itoa order (splitTarget target).2 srcIp isV4 now interval
      else if (splitTarget target).1 = ascii "/scrape" then (h, h.scrape itoa (splitTarget target).2)
      else (h, .notFound) := rfl

end HttpHandler
end Bluefrog
