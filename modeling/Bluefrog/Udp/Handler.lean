import Bluefrog.Core.ConnId
import Bluefrog.Core.StoreRuns
import Bluefrog.Proto.Udp

/-!
The UDP request handler: a datagram and its source address in, an action and the reply buffer out.
An announce is one call of the store, and what it reports is what a scrape would report next.
-/

open Rust

namespace Bluefrog

open Udp

def numwantMaxV4 : Nat := 200
def numwantMaxV6 : Nat := 66

/-- What to do with a datagram: reply with the first bytes of the buffer, or drop it. -/
inductive Action where
  | reply (len : Nat)
  | drop
  | connidMismatch
  deriving DecidableEq

/-- The peer count to return; a negative request means the cap. -/
def numwant (requested : Int32) (isV4 : Bool) : Nat :=
  let max := if isV4 then numwantMaxV4 else numwantMaxV6
  if requested < 0 then max else min requested.toInt.toNat max

theorem length_v4Key (srcIp : Bytes 16) (port : UInt16) : (srcIp.toList.drop 12 ++ toBe16 port).length = 6 := by
  rw [List.length_append, List.length_drop, srcIp.toList_length, length_toBe16]

theorem length_v6Key (srcIp : Bytes 16) (port : UInt16) : (srcIp.toList ++ toBe16 port).length = 18 := by
  rw [List.length_append, srcIp.toList_length, length_toBe16]

/-- The compact peer of an IPv4 source: the last four bytes of the mapped address and the port. -/
def v4Key (srcIp : Bytes 16) (port : UInt16) : Bytes 6 := ⟨srcIp.toList.drop 12 ++ toBe16 port, length_v4Key srcIp port⟩

/-- The compact peer of an IPv6 source. -/
def v6Key (srcIp : Bytes 16) (port : UInt16) : Bytes 18 := ⟨srcIp.toList ++ toBe16 port, length_v6Key srcIp port⟩

/-- The family of a source. -/
def Family.ofIsV4 (isV4 : Bool) : Family := if isV4 then .v4 else .v6

/-- The compact peer of a source, in its family. -/
def compactPeer (isV4 : Bool) (srcIp : Bytes 16) (port : UInt16) : Bytes (Family.ofIsV4 isV4).keyLen :=
  match isV4 with
  | true => v4Key srcIp port
  | false => v6Key srcIp port

/-- Ties a store and a connection-id scheme together. -/
structure Handler where
  store : Store
  connid : ConnId

namespace Handler

variable (blake3 : Blake3) (order : HashOrder)

/-- Applies an announce to the store. The compact peers go behind what is in `out`. -/
def applyAnnounce (store : Store) (a : Announce) (srcIp : Bytes 16) (isV4 : Bool) (nowSecs : UInt64)
    (out : List UInt8) : Store × Counts × List UInt8 :=
  let nowMin := (nowSecs / 60).toUInt32
  let flags : UInt8 := 0
  let flags := if a.left = 0 then flags ||| Flag.seeding else flags
  let flags := if a.event = .completed then flags ||| Flag.completed else flags
  let stopped := a.event == .stopped
  if isV4 then
    let key := v4Key srcIp a.port
    if stopped then
      let (store, counts) := store.removeV4 a.infoHash key nowMin
      (store, counts, out)
    else store.announceV4 order a.infoHash key flags (numwant a.numWant true) nowMin out
  else
    let key := v6Key srcIp a.port
    if stopped then
      let (store, counts) := store.removeV6 a.infoHash key nowMin
      (store, counts, out)
    else store.announceV6 order a.infoHash key flags (numwant a.numWant false) nowMin out

/-- Handles one datagram. Returns the action, the handler and the reply buffer after it. -/
def handle (h : Handler) (buf : List UInt8) (srcIp : Bytes 16) (isV4 : Bool) (nowSecs : UInt64)
    (interval : UInt32) (out : List UInt8) : Option (Action × Handler × List UInt8) := do
  match ← parse buf with
  | .error _ => some (.drop, h, out)
  | .ok (.connect transactionId) =>
      let cid := h.connid.generate blake3 srcIp.toList nowSecs
      let out ← writeConnect (List.replicate 16 0) transactionId cid
      some (.reply 16, h, out)
  | .ok (.announce a) =>
      if !h.connid.validate blake3 a.connectionId srcIp.toList nowSecs then some (.connidMismatch, h, out)
      else
        let (store, counts, out) := applyAnnounce order h.store a srcIp isV4 nowSecs (List.replicate 20 0)
        let (out, _) ← writeAnnounce out a.transactionId interval counts.incomplete counts.complete []
        some (.reply out.length, { h with store }, out)
  | .ok (.scrape s) =>
      if !h.connid.validate blake3 s.connectionId srcIp.toList nowSecs then some (.connidMismatch, h, out)
      else
        let hashes ← s.iterHashes
        let entries := hashes.map fun hash =>
          let c := h.store.scrape hash
          (c.complete, c.downloaded, c.incomplete)
        let (out, n) ← writeScrape (List.replicate (8 + entries.length * 12) 0) s.transactionId entries
        some (.reply n, h, out)

end Handler

/-- The flags of an announce. -/
def announceFlags (left : UInt64) (event : Event) : UInt8 :=
  let flags : UInt8 := if left = 0 then 0 ||| Flag.seeding else 0
  if event = .completed then flags ||| Flag.completed else flags

/-- The one call of the store that an announce makes. -/
def announceOp (r : PeerRef) (left : UInt64) (event : Event) (numwant : Nat) (nowMin : UInt32)
    (out : List UInt8) : Op :=
  if event = .stopped then .remove r nowMin else .announce r (announceFlags left event) numwant nowMin out

/-- The peer an announce is about. -/
def announcedPeer (hash : InfoHash) (port : UInt16) (srcIp : Bytes 16) (isV4 : Bool) : PeerRef :=
  ⟨hash, Family.ofIsV4 isV4, compactPeer isV4 srcIp port⟩

theorem numwant_le (requested : Int32) (isV4 : Bool) :
    numwant requested isV4 * (Family.ofIsV4 isV4).keyLen ≤ 1200 := by
  have hle : numwant requested isV4 ≤ if isV4 then numwantMaxV4 else numwantMaxV6 := by
    unfold numwant
    split_ifs <;> simp
  cases isV4 with
  | true =>
      change numwant requested true * 6 ≤ 1200
      change _ ≤ 200 at hle
      omega
  | false =>
      change numwant requested false * 18 ≤ 1200
      change _ ≤ 66 at hle
      omega

/-- The counts of an announce's call are those a scrape reports next. -/
theorem announceOp_counts (order : HashOrder) (store : Store) (r : PeerRef) (left : UInt64) (event : Event)
    (numwant : Nat) (nowMin : UInt32) (out : List UInt8) :
    (store.exec order (announceOp r left event numwant nowMin out)).2.counts =
      some ((store.step order (announceOp r left event numwant nowMin out)).scrape r.hash) := by
  refine Store.exec_counts order store _ r ?_
  unfold announceOp
  split_ifs
  · exact .inr ⟨_, rfl⟩
  · exact .inl ⟨_, _, _, _, rfl⟩

/-- The header of an announce reply. -/
def announceHeader (transactionId interval : UInt32) (counts : Counts) : List UInt8 :=
  toBe32 1 ++ toBe32 transactionId ++ toBe32 interval ++ toBe32 counts.incomplete ++ toBe32 counts.complete

/-- The entry of a scrape reply about one info-hash. -/
def scrapeEntry (counts : Counts) : List UInt8 :=
  entryBytes (counts.complete, counts.downloaded, counts.incomplete)

theorem length_scrapeEntry (counts : Counts) : (scrapeEntry counts).length = 12 := length_entryBytes _

namespace Handler

variable (blake3 : Blake3) (order : HashOrder)

/-- The peers that an announce hands out: none if it stops, or the first of its family, as many as it gets. -/
def announcedKeys (store : Store) (a : Announce) (srcIp : Bytes 16) (isV4 : Bool) (nowSecs : UInt64) :
    List (Bytes (Family.ofIsV4 isV4).keyLen) :=
  if a.event = .stopped then []
  else
    let t := ((store.get a.infoHash).getD Torrent.new).withAnnounce (Family.ofIsV4 isV4)
      (compactPeer isV4 srcIp a.port) (announceFlags a.left a.event) (nowSecs / 60).toUInt32
    ((t.list (Family.ofIsV4 isV4)).compactKeys order).take (numwant a.numWant isV4)

theorem length_announcedKeys_le (store : Store) (a : Announce) (srcIp : Bytes 16) (isV4 : Bool) (nowSecs : UInt64) :
    (announcedKeys order store a srcIp isV4 nowSecs).length ≤ numwant a.numWant isV4 := by
  unfold announcedKeys
  split_ifs
  · exact Nat.zero_le _
  · exact List.length_take_le _ _

theorem length_announced_le (store : Store) (a : Announce) (srcIp : Bytes 16) (isV4 : Bool) (nowSecs : UInt64) :
    ((announcedKeys order store a srcIp isV4 nowSecs).flatMap List.Vector.toList).length ≤ 1200 := by
  rw [length_flatMap_const List.Vector.toList_length]
  exact (Nat.mul_le_mul_right _ (length_announcedKeys_le order store a srcIp isV4 nowSecs)).trans
    (numwant_le a.numWant isV4)

/-- The call of the store appends these peers, whatever is in the buffer. -/
theorem peersOut_announceOp (store : Store) (a : Announce) (srcIp : Bytes 16) (isV4 : Bool) (nowSecs : UInt64)
    (out : List UInt8) (hstop : a.event ≠ .stopped) :
    (store.exec order (announceOp (announcedPeer a.infoHash a.port srcIp isV4) a.left a.event
      (numwant a.numWant isV4) (nowSecs / 60).toUInt32 out)).2.peersOut =
        out ++ (announcedKeys order store a srcIp isV4 nowSecs).flatMap List.Vector.toList := by
  rw [announceOp, if_neg hstop, announcedKeys, if_neg hstop]
  exact PeerList.writeCompact_eq _ order _ out

/-- What an announce does: its call of the store, with the counts a scrape would report next. -/
theorem applyAnnounce_eq (store : Store) (a : Announce) (srcIp : Bytes 16) (isV4 : Bool)
    (nowSecs : UInt64) (out : List UInt8) :
    let op := announceOp (announcedPeer a.infoHash a.port srcIp isV4) a.left a.event (numwant a.numWant isV4)
      (nowSecs / 60).toUInt32 out
    applyAnnounce order store a srcIp isV4 nowSecs out =
      (store.step order op, (store.step order op).scrape a.infoHash,
        out ++ (announcedKeys order store a srcIp isV4 nowSecs).flatMap List.Vector.toList) := by
  intro op
  have hcounts := announceOp_counts order store (announcedPeer a.infoHash a.port srcIp isV4) a.left a.event
    (numwant a.numWant isV4) (nowSecs / 60).toUInt32 out
  change (store.exec order op).2.counts = some ((store.step order op).scrape a.infoHash) at hcounts
  by_cases hstop : a.event = .stopped
  · have hop : op = .remove (announcedPeer a.infoHash a.port srcIp isV4) (nowSecs / 60).toUInt32 := if_pos hstop
    have heq : applyAnnounce order store a srcIp isV4 nowSecs out =
        ((store.exec order op).1, ((store.exec order op).2.counts).getD Counts.default, out) := by
      rw [hop]
      cases isV4 <;> simp only [applyAnnounce, hstop] <;> rfl
    rw [heq, hcounts, announcedKeys, if_pos hstop, List.flatMap_nil, List.append_nil]
    rfl
  · have hop : op = .announce (announcedPeer a.infoHash a.port srcIp isV4) (announceFlags a.left a.event)
        (numwant a.numWant isV4) (nowSecs / 60).toUInt32 out := if_neg hstop
    have heq : applyAnnounce order store a srcIp isV4 nowSecs out =
        ((store.exec order op).1, ((store.exec order op).2.counts).getD Counts.default,
          (store.exec order op).2.peersOut) := by
      rw [hop]
      cases isV4 <;> simp only [applyAnnounce, beq_eq_false_iff_ne.mpr hstop] <;> rfl
    rw [heq, hcounts, peersOut_announceOp order store a srcIp isV4 nowSecs out hstop]
    rfl

variable (h : Handler) {buf : List UInt8} (srcIp : Bytes 16) (isV4 : Bool) (nowSecs : UInt64) (interval : UInt32)
  (out : List UInt8)

/-- A datagram that does not parse is dropped. -/
theorem handle_error {e : ParseError} (hparse : parse buf = some (.error e)) :
    h.handle blake3 order buf srcIp isV4 nowSecs interval out = some (.drop, h, out) := by
  rw [handle, hparse]
  rfl

theorem handle_connect {transactionId : UInt32} (hparse : parse buf = some (.ok (.connect transactionId))) :
    h.handle blake3 order buf srcIp isV4 nowSecs interval out = some (.reply 16, h,
      toBe32 0 ++ toBe32 transactionId ++ toBe64 (h.connid.generate blake3 srcIp.toList nowSecs)) := by
  rw [handle, hparse]
  simp only [Option.bind_eq_bind, Option.bind_some, writeConnect_eq List.length_replicate]

theorem handle_announce_mismatch {a : Announce} (hparse : parse buf = some (.ok (.announce a)))
    (hid : h.connid.validate blake3 a.connectionId srcIp.toList nowSecs = false) :
    h.handle blake3 order buf srcIp isV4 nowSecs interval out = some (.connidMismatch, h, out) := by
  rw [handle, hparse]
  simp only [Option.bind_eq_bind, Option.bind_some, hid, Bool.not_false, if_true]

theorem handle_scrape_mismatch {s : Scrape} (hparse : parse buf = some (.ok (.scrape s)))
    (hid : h.connid.validate blake3 s.connectionId srcIp.toList nowSecs = false) :
    h.handle blake3 order buf srcIp isV4 nowSecs interval out = some (.connidMismatch, h, out) := by
  rw [handle, hparse]
  simp only [Option.bind_eq_bind, Option.bind_some, hid, Bool.not_false, if_true]

/-- An accepted announce is one call of the store, and its reply reports the counts after it. -/
theorem handle_announce_eq {a : Announce} (hparse : parse buf = some (.ok (.announce a)))
    (hid : h.connid.validate blake3 a.connectionId srcIp.toList nowSecs = true) :
    let op := announceOp (announcedPeer a.infoHash a.port srcIp isV4) a.left a.event (numwant a.numWant isV4)
      (nowSecs / 60).toUInt32 (List.replicate 20 0)
    let peers := (announcedKeys order h.store a srcIp isV4 nowSecs).flatMap List.Vector.toList
    h.handle blake3 order buf srcIp isV4 nowSecs interval out =
      some (.reply (20 + peers.length), { h with store := h.store.step order op },
        announceHeader a.transactionId interval ((h.store.step order op).scrape a.infoHash) ++ peers) := by
  intro op peers
  have happly := applyAnnounce_eq order h.store a srcIp isV4 nowSecs (List.replicate 20 0)
  rw [handle, hparse]
  simp only [Option.bind_eq_bind, Option.bind_some, hid, Bool.not_true, Bool.false_eq_true, if_false, happly]
  rw [writeAnnounce_eq (by rw [List.length_append, List.length_replicate]; omega),
    List.drop_left' List.length_replicate]
  simp only [Option.bind_some, announceHeader, List.length_append, length_toBe32]
  rfl

theorem handle_announce {a : Announce} (hparse : parse buf = some (.ok (.announce a)))
    (hid : h.connid.validate blake3 a.connectionId srcIp.toList nowSecs = true) :
    let op := announceOp (announcedPeer a.infoHash a.port srcIp isV4) a.left a.event (numwant a.numWant isV4)
      (nowSecs / 60).toUInt32 (List.replicate 20 0)
    ∃ peers, h.handle blake3 order buf srcIp isV4 nowSecs interval out =
        some (.reply (20 + peers.length), { h with store := h.store.step order op },
          announceHeader a.transactionId interval ((h.store.step order op).scrape a.infoHash) ++ peers) ∧
      peers.length ≤ 1200 :=
  ⟨_, handle_announce_eq blake3 order h srcIp isV4 nowSecs interval out hparse hid,
    length_announced_le order h.store a srcIp isV4 nowSecs⟩

/-- An accepted scrape changes nothing, and its reply has one entry a parsed info-hash. -/
theorem handle_scrape {s : Scrape} (hparse : parse buf = some (.ok (.scrape s))) {hashes : List InfoHash}
    (hhashes : s.iterHashes = some hashes)
    (hid : h.connid.validate blake3 s.connectionId srcIp.toList nowSecs = true) :
    h.handle blake3 order buf srcIp isV4 nowSecs interval out = some (.reply (8 + hashes.length * 12), h,
      toBe32 2 ++ toBe32 s.transactionId ++ hashes.flatMap fun hash => scrapeEntry (h.store.scrape hash)) := by
  rw [handle, hparse]
  simp only [Option.bind_eq_bind, Option.bind_some, hid, Bool.not_true, Bool.false_eq_true, if_false, hhashes]
  rw [writeScrape_eq _ List.length_replicate]
  simp only [Option.bind_some, List.length_map, List.flatMap_map]
  rfl

end Handler
end Bluefrog
