import Bluefrog.L7.Runs
import Bluefrog.Main.Address

/-!
The datagram worker of the daemon. A datagram is parsed and handled, and what it asked and what became
of it are fed to the detector.
-/

open Rust

namespace Bluefrog

open Udp

/-- `u32::try_from(x).unwrap_or(u32::MAX)`. -/
def clampU32 (x : UInt64) : UInt32 := UInt32.ofNatClamp x.toNat

/-- A big-endian counter of the reply buffer. -/
def replyCounter (out : List UInt8) (lo : Nat) : UInt32 := UInt32.ofNat (beNat ((out.drop lo).take 4))

/-- What the detector is told of an announce. The reply carries the swarm counts, leechers at 12 and
seeders at 16. -/
def announceInfo (a : Announce) (ip : IpAddr) (out : List UInt8) : AnnounceInfo where
  infoHash := a.infoHash
  peerId := a.peerId
  key := a.key
  declaredIp := a.declaredIp
  port := a.port
  left := a.left
  downloaded := a.downloaded
  uploaded := a.uploaded
  numWant := a.numWant
  sourceIsPublic := isPublic ip
  swarmPeers := if 20 ≤ out.length then saturatingAdd (replyCounter out 12) (replyCounter out 16) else 0

/-- Feeds the detector from the parsed request and the handler's action. -/
def feedL7 (order : HashOrder) (d : Detector) (parsed : Except ParseError Request) (ip : IpAddr) (ip16 : Bytes 16)
    (action : Action) (out : List UInt8) (nowSecs : UInt32) : Option (Detector × Verdict) :=
  if action = .connidMismatch then some (d.onConnidMismatch order ip16 nowSecs)
  else
    match parsed with
    | .ok (.announce a) => some (d.onAnnounce order ip16 (announceInfo a ip out) nowSecs)
    | .ok (.scrape s) => s.iterHashes.map fun hashes => d.onScrape order ip16 hashes.length nowSecs
    | .ok (.connect _) => some (d.onConnect order ip16 nowSecs)
    | .error _ => some (d, .allow)

/-- What the worker keeps and decides over one datagram. -/
structure Served where
  action : Action
  handler : Handler
  out : List UInt8
  detector : Detector
  verdict : Verdict

/-- One turn of the worker, from a datagram and the address the socket delivered it from. -/
def udpWorker (blake3 : Blake3) (order : HashOrder) (l7Enable : Bool) (h : Handler) (d : Detector) (peer : IpAddr)
    (buf : List UInt8) (now : UInt64) (interval : UInt32) (out : List UInt8) : Option Served := do
  let ip := canonicalIp peer
  let ip16 := ipTo16 ip
  let parsed ← parse buf
  let (action, h, out) ← h.handle blake3 order buf ip16 ip.isIpv4 now interval out
  let (d, verdict) ←
    if l7Enable then feedL7 order d parsed ip ip16 action out (clampU32 now) else some (d, .allow)
  some ⟨action, h, out, d, verdict⟩

/-- The entry that an announce from a socket address is about. -/
def announcer (a : Announce) (peer : IpAddr) : PeerRef := peerOf a.infoHash (canonicalIp peer) a.port

theorem replyCounter_of_append {front back : List UInt8} {lo : Nat} (x : UInt32) (h : front.length = lo) :
    replyCounter (front ++ (toBe32 x ++ back)) lo = x := by
  rw [replyCounter, List.drop_left' h, List.take_left' (length_toBe32 x), ofNat_beNat_toBe32]

/-- The detector is told the counts that the reply reports. -/
theorem swarmPeers_announceHeader (a : Announce) (ip : IpAddr) (transactionId interval : UInt32) (counts : Counts)
    (peers : List UInt8) :
    (announceInfo a ip (announceHeader transactionId interval counts ++ peers)).swarmPeers =
      saturatingAdd counts.incomplete counts.complete := by
  have hlen : 20 ≤ (announceHeader transactionId interval counts ++ peers).length := by
    simp only [announceHeader, List.length_append, length_toBe32]
    omega
  have hincomplete : replyCounter (announceHeader transactionId interval counts ++ peers) 12 = counts.incomplete := by
    rw [announceHeader, List.append_assoc, List.append_assoc]
    exact replyCounter_of_append _ (by simp only [List.length_append, length_toBe32])
  have hcomplete : replyCounter (announceHeader transactionId interval counts ++ peers) 16 = counts.complete := by
    rw [announceHeader, List.append_assoc]
    exact replyCounter_of_append _ (by simp only [List.length_append, length_toBe32])
  rw [announceInfo, if_pos hlen, hincomplete, hcomplete]

/-- An accepted announce is one call of the store, and the detector hears of it with the counts after it. -/
theorem udpWorker_announce (blake3 : Blake3) (order : HashOrder) (h : Handler) (d : Detector) (peer : IpAddr)
    {buf : List UInt8} (now : UInt64) (interval : UInt32) (out : List UInt8) {a : Announce}
    (hparse : parse buf = some (.ok (.announce a)))
    (hid : h.connid.validate blake3 a.connectionId (ipTo16 (canonicalIp peer)).toList now = true) :
    let ip := canonicalIp peer
    let store := h.store.step order (announceOp (announcer a peer) a.left a.event (numwant a.numWant ip.isIpv4)
      (now / 60).toUInt32 (List.replicate 20 0))
    ∃ reply, udpWorker blake3 order true h d peer buf now interval out =
        some ⟨.reply reply.length, { h with store }, reply,
          (d.onAnnounce order (ipTo16 ip) (announceInfo a ip reply) (clampU32 now)).1,
          (d.onAnnounce order (ipTo16 ip) (announceInfo a ip reply) (clampU32 now)).2⟩ ∧
      (announceInfo a ip reply).swarmPeers =
        saturatingAdd (store.scrape a.infoHash).incomplete (store.scrape a.infoHash).complete := by
  intro ip store
  obtain ⟨peers, hhandle, -⟩ := Handler.handle_announce blake3 order h (ipTo16 ip) ip.isIpv4 now interval out hparse hid
  refine ⟨announceHeader a.transactionId interval (store.scrape a.infoHash) ++ peers, ?_,
    swarmPeers_announceHeader a ip a.transactionId interval (store.scrape a.infoHash) peers⟩
  simp only [udpWorker, hparse, Option.bind_eq_bind, Option.bind_some]
  rw [hhandle]
  simp only [Option.bind_some, announceHeader, List.length_append, length_toBe32]
  rfl

end Bluefrog
