import Bluefrog.Core.Counters
import Bluefrog.Udp.Handler

/-!
The replies of the UDP handler. The buffer of a reply is filled in two phases: the store appends peers
behind a placeholder, and the header is written over the placeholder. Whatever the datagram, the store and
the buffer before it, all of the offsets fit, and the reply holds what the request asked for and no more.
-/

open Rust

namespace Bluefrog

open Udp

/-- A reply to a datagram: the whole buffer, no longer than a peer list allows, under the action and the
transaction of the request. -/
structure RepliesTo (buf reply : List UInt8) (n : Nat) : Prop where
  length : n = reply.length
  le : n ≤ 1220
  action : slice buf 8 12 = some (reply.take 4)
  transactionId : slice buf 12 16 = some ((reply.drop 4).take 4)

/-- The peers of a reply to an announce are those that its call of the store appends. -/
structure PeersOf (order : HashOrder) (h h' : Handler) (a : Announce) (srcIp : Bytes 16) (isV4 : Bool)
    (nowSecs : UInt64) (keys : List (Bytes (Family.ofIsV4 isV4).keyLen)) : Prop where
  appended : a.event ≠ .stopped → ∀ out, (h.store.exec order (announceOp (announcedPeer a.infoHash a.port srcIp isV4)
    a.left a.event (numwant a.numWant isV4) (nowSecs / 60).toUInt32 out)).2.peersOut =
      out ++ keys.flatMap List.Vector.toList
  stopped : a.event = .stopped → keys = []
  le : keys.length ≤
    if a.numWant < 0 then (if isV4 then 200 else 66) else min a.numWant.toInt.toNat (if isV4 then 200 else 66)
  nodup : keys.Nodup
  stored : ∀ key ∈ keys, h'.store.peer ⟨a.infoHash, Family.ofIsV4 isV4, key⟩ ≠ none

/-- A reply to an announce reports the counts after it. -/
structure AnnounceReply (order : HashOrder) (h h' : Handler) (a : Announce) (srcIp : Bytes 16) (isV4 : Bool)
    (nowSecs : UInt64) (interval : UInt32) (reply : List UInt8) : Prop where
  applied : h'.store = h.store.step order (announceOp (announcedPeer a.infoHash a.port srcIp isV4) a.left a.event
    (numwant a.numWant isV4) (nowSecs / 60).toUInt32 [])
  interval : (slice reply 8 12).bind beU32 = some interval
  leechers : (slice reply 12 16).bind beU32 = some (h'.store.scrape a.infoHash).incomplete
  seeders : (slice reply 16 20).bind beU32 = some (h'.store.scrape a.infoHash).complete
  recount : ∀ order' ops, h.store = Store.run order' ops →
    (h'.store.scrape a.infoHash).incomplete = UInt32.ofNat (h'.store.recount a.infoHash).2 ∧
      (h'.store.scrape a.infoHash).complete = UInt32.ofNat (h'.store.recount a.infoHash).1
  peers : ∃ keys, PeersOf order h h' a srcIp isV4 nowSecs keys ∧ reply.drop 20 = keys.flatMap List.Vector.toList

theorem numwant_eq (requested : Int32) (isV4 : Bool) : numwant requested isV4 =
    if requested < 0 then (if isV4 then 200 else 66) else min requested.toInt.toNat (if isV4 then 200 else 66) := rfl

section Header

variable (transactionId interval : UInt32) (counts : Counts) (peers : List UInt8)

theorem length_announceHeader : (announceHeader transactionId interval counts).length = 20 := by
  simp only [announceHeader, List.length_append, length_toBe32]

/-- The fields of an announce reply, in order. -/
theorem slices_announceHeader :
    (slice (announceHeader transactionId interval counts ++ peers) 8 12).bind beU32 = some interval ∧
      (slice (announceHeader transactionId interval counts ++ peers) 12 16).bind beU32 = some counts.incomplete ∧
      (slice (announceHeader transactionId interval counts ++ peers) 16 20).bind beU32 = some counts.complete := by
  simp only [announceHeader, List.append_assoc]
  refine ⟨?_, ?_, ?_⟩ <;>
    simp (disch := grind) only [slice_skip, slice_head, length_toBe32, Nat.reduceSub, Option.bind_some, beU32_toBe32]

end Header

/-- A reply that starts with the action and the transaction of a request. -/
theorem repliesTo_of_header {buf : List UInt8} {req : Request} (hparse : parse buf = some (.ok req))
    {rest : List UInt8} (hlen : rest.length ≤ 1212) {n : Nat} (hn : n = 8 + rest.length) :
    RepliesTo buf (toBe32 req.action ++ (toBe32 req.transactionId ++ rest)) n := by
  obtain ⟨r, hr, hfields⟩ := parse_total buf
  rw [hparse] at hr
  cases hr
  obtain ⟨-, haction, htid⟩ := hfields req rfl
  refine ⟨?_, by omega, ?_, ?_⟩
  · rw [hn, List.length_append, List.length_append, length_toBe32, length_toBe32]
    omega
  · rw [List.take_left' (length_toBe32 _), haction]
  · rw [List.drop_left' (length_toBe32 _), List.take_left' (length_toBe32 _), htid]

namespace Handler

variable (blake3 : Blake3) (order : HashOrder) (h : Handler) {buf : List UInt8} (srcIp : Bytes 16) (isV4 : Bool)
  (nowSecs : UInt64) (interval : UInt32) (out : List UInt8)

theorem peersOf_announcedKeys (a : Announce) : PeersOf order h
    { h with store := h.store.step order (announceOp (announcedPeer a.infoHash a.port srcIp isV4) a.left a.event
      (numwant a.numWant isV4) (nowSecs / 60).toUInt32 []) } a srcIp isV4 nowSecs
    (announcedKeys order h.store a srcIp isV4 nowSecs) := by
  refine ⟨fun hstop out => peersOut_announceOp order h.store a srcIp isV4 nowSecs out hstop, fun hstop => if_pos hstop,
    ?_, ?_, ?_⟩
  · rw [← numwant_eq]
    exact length_announcedKeys_le order h.store a srcIp isV4 nowSecs
  · unfold announcedKeys
    split_ifs
    · exact List.nodup_nil
    · exact (PeerList.nodup_compactKeys _ order).sublist (List.take_sublist _ _)
  · intro key hkey
    unfold announcedKeys at hkey
    split_ifs at hkey with hstop
    · cases hkey
    · have hmem := (PeerList.mem_compactKeys _ order key).mp (List.mem_of_mem_take hkey)
      rw [announceOp, if_neg hstop, Store.peer]
      change ((h.store.put a.infoHash _).get a.infoHash).bind _ ≠ none
      rw [Store.get_put, if_pos rfl]
      exact fun hnone => Finmap.lookup_eq_none.mp hnone hmem

/-- The store after an announce does not depend on the buffer. -/
theorem step_announceOp (store : Store) (r : PeerRef) (left : UInt64) (event : Event) (want : Nat) (now : UInt32)
    (out out' : List UInt8) : store.step order (announceOp r left event want now out) =
      store.step order (announceOp r left event want now out') := by
  rw [announceOp, announceOp]
  split_ifs <;> rfl

/-- The header of a reply reports the store after the announce, and the peers come behind it. -/
theorem announceReply (a : Announce) :
    let op := announceOp (announcedPeer a.infoHash a.port srcIp isV4) a.left a.event (numwant a.numWant isV4)
      (nowSecs / 60).toUInt32 (List.replicate 20 0)
    AnnounceReply order h { h with store := h.store.step order op } a srcIp isV4 nowSecs interval
      (announceHeader a.transactionId interval ((h.store.step order op).scrape a.infoHash) ++
        (announcedKeys order h.store a srcIp isV4 nowSecs).flatMap List.Vector.toList) := by
  intro op
  obtain ⟨hinterval, hleechers, hseeders⟩ := slices_announceHeader a.transactionId interval
    ((h.store.step order op).scrape a.infoHash)
    ((announcedKeys order h.store a srcIp isV4 nowSecs).flatMap List.Vector.toList)
  refine ⟨step_announceOp order h.store _ _ _ _ _ _ _, hinterval, hleechers, hseeders, ?_,
    ⟨_, ?_, List.drop_left' (length_announceHeader _ _ _)⟩⟩
  · intro order' ops hstore
    have hcounted := Store.counted_step order' order ops
    rw [← hstore] at hcounted
    obtain ⟨hcomplete, hincomplete⟩ := Store.scrape_eq_recount (hcounted _) a.infoHash
    exact ⟨hincomplete, hcomplete⟩
  · rw [step_announceOp order h.store _ _ _ _ _ _ []]
    exact peersOf_announcedKeys order h srcIp isV4 nowSecs a

/-- **The handler is total and its replies are well formed.** -/
theorem replies_wellFormed (buf : List UInt8) :
    ∃ action h' reply, h.handle blake3 order buf srcIp isV4 nowSecs interval out = some (action, h', reply) ∧
      ∀ n, action = .reply n →
        RepliesTo buf reply n ∧
        (∀ a, parse buf = some (.ok (.announce a)) →
          AnnounceReply order h h' a srcIp isV4 nowSecs interval reply) ∧
        ∀ stale, h.handle blake3 order buf srcIp isV4 nowSecs interval stale = some (action, h', reply) := by
  rcases parse_cases buf with
    ⟨e, hparse⟩ | ⟨transactionId, hparse⟩ | ⟨a, hparse⟩ | ⟨s, hashes, hparse, hhashes⟩
  · refine ⟨_, _, _, handle_error blake3 order h srcIp isV4 nowSecs interval out hparse, ?_⟩
    intro n hn
    cases hn
  · refine ⟨_, _, _, handle_connect blake3 order h srcIp isV4 nowSecs interval out hparse, fun n hn => ⟨?_, ?_, ?_⟩⟩
    · cases hn
      rw [List.append_assoc]
      exact repliesTo_of_header hparse (by rw [length_toBe64]; omega) (by rw [length_toBe64])
    · intro a hannounce
      rw [hparse] at hannounce
      cases hannounce
    · exact fun stale => handle_connect blake3 order h srcIp isV4 nowSecs interval stale hparse
  · cases hid : h.connid.validate blake3 a.connectionId srcIp.toList nowSecs with
    | false =>
        refine ⟨_, _, _, handle_announce_mismatch blake3 order h srcIp isV4 nowSecs interval out hparse hid, ?_⟩
        intro n hn
        cases hn
    | true =>
        have hle := length_announced_le order h.store a srcIp isV4 nowSecs
        refine ⟨_, _, _, handle_announce_eq blake3 order h srcIp isV4 nowSecs interval out hparse hid,
          fun n hn => ⟨?_, fun a' hannounce => ?_, ?_⟩⟩
        · cases hn
          simp only [announceHeader, List.append_assoc]
          refine repliesTo_of_header hparse ?_ ?_ <;> simp only [List.length_append, length_toBe32] <;> omega
        · rw [hparse] at hannounce
          cases hannounce
          exact announceReply order h srcIp isV4 nowSecs interval a
        · exact fun stale => handle_announce_eq blake3 order h srcIp isV4 nowSecs interval stale hparse hid
  · cases hid : h.connid.validate blake3 s.connectionId srcIp.toList nowSecs with
    | false =>
        refine ⟨_, _, _, handle_scrape_mismatch blake3 order h srcIp isV4 nowSecs interval out hparse hid, ?_⟩
        intro n hn
        cases hn
    | true =>
        have hcap : hashes.length ≤ 75 := iterHashes_length_le hhashes (length_hashes_le hparse)
        have hlen : (hashes.flatMap fun hash => scrapeEntry (h.store.scrape hash)).length = hashes.length * 12 :=
          length_flatMap_const (fun hash => length_scrapeEntry _) hashes
        refine ⟨_, _, _, handle_scrape blake3 order h srcIp isV4 nowSecs interval out hparse hhashes hid,
          fun n hn => ⟨?_, fun a hannounce => ?_, ?_⟩⟩
        · cases hn
          rw [List.append_assoc]
          exact repliesTo_of_header hparse (by omega) (by omega)
        · rw [hparse] at hannounce
          cases hannounce
        · exact fun stale => handle_scrape blake3 order h srcIp isV4 nowSecs interval stale hparse hhashes hid

end Handler
end Bluefrog
