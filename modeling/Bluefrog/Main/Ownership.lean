import Bluefrog.Http.Handler
import Bluefrog.Main.Address

/-!
Who may touch which stored peer. A request of either protocol changes at most the one entry whose
torrent and port it announces and whose address is the source's own.
-/

open Rust

namespace Bluefrog

open Udp

/-- An announce's call of the store changes no entry but the announced one. -/
theorem peer_announceOp_of_ne (order : HashOrder) (store : Store) {r r' : PeerRef} (h : r' ≠ r) (left : UInt64)
    (event : Event) (numwant : Nat) (nowMin : UInt32) (out : List UInt8) :
    (store.step order (announceOp r left event numwant nowMin out)).peer r' = store.peer r' := by
  unfold announceOp
  split_ifs
  · rw [Store.peer_remove, if_neg h]
  · rw [Store.peer_announce, if_neg h]

/-- The torrent and port a datagram announces. -/
def udpAnnounced (buf : List UInt8) : Option (InfoHash × UInt16) :=
  match parse buf with
  | some (.ok (.announce a)) => some (a.infoHash, a.port)
  | _ => none

/-- The torrent and port a target announces: of repeated parameters, the last. -/
def httpAnnounced (target : List UInt8) : Option (InfoHash × UInt16) :=
  let (path, query) := (splitOnce 63 target).getD (target, [])
  if path = ascii "/announce" then
    match (Http.queryPairs query).foldlM Http.Params.read Http.Params.default with
    | .ok ⟨some hash, some port, _, _, _, _⟩ => some (hash, port)
    | _ => none
  else none

/-- The entry belongs to the address, and to the torrent and port that were announced. -/
def PeerRef.OwnedBy (r : PeerRef) (ip : IpAddr) (announced : Option (InfoHash × UInt16)) : Prop :=
  r.address = ip ∧ r.family = Family.ofIsV4 ip.isIpv4 ∧ announced = some (r.hash, r.port)

theorem eq_peerOf_of_ownedBy {r : PeerRef} {ip : IpAddr} {hash : InfoHash} {port : UInt16} :
    r.OwnedBy ip (some (hash, port)) ↔ r = peerOf hash ip port := by
  rw [eq_peerOf_iff]
  constructor
  · rintro ⟨rfl, -, h⟩
    cases h
    exact ⟨rfl, rfl, rfl⟩
  · rintro ⟨rfl, rfl, rfl⟩
    refine ⟨rfl, ?_, rfl⟩
    obtain ⟨hash, f, key⟩ := r
    cases f <;> rfl

/-- A datagram changes only an entry that its source owns. -/
theorem Handler.handle_peer (blake3 : Blake3) (order : HashOrder) (h : Handler) (buf : List UInt8) (ip : IpAddr)
    (nowSecs : UInt64) (interval : UInt32) (out : List UInt8) :
    ∃ action h' out', h.handle blake3 order buf (ipTo16 ip) ip.isIpv4 nowSecs interval out = some (action, h', out') ∧
      ∀ r : PeerRef, ¬r.OwnedBy ip (udpAnnounced buf) → h'.store.peer r = h.store.peer r := by
  rcases parse_cases buf with ⟨e, hparse⟩ | ⟨transactionId, hparse⟩ | ⟨a, hparse⟩ | ⟨s, hashes, hparse, hhashes⟩
  · exact ⟨_, _, _, handle_error blake3 order h _ _ _ _ _ hparse, fun _ _ => rfl⟩
  · exact ⟨_, _, _, handle_connect blake3 order h _ _ _ _ _ hparse, fun _ _ => rfl⟩
  · cases hid : h.connid.validate blake3 a.connectionId (ipTo16 ip).toList nowSecs with
    | false => exact ⟨_, _, _, handle_announce_mismatch blake3 order h _ _ _ _ _ hparse hid, fun _ _ => rfl⟩
    | true =>
        obtain ⟨peers, hhandle, -⟩ := handle_announce blake3 order h (ipTo16 ip) ip.isIpv4 nowSecs interval out
          hparse hid
        refine ⟨_, _, _, hhandle, fun r hr => ?_⟩
        have hannounced : udpAnnounced buf = some (a.infoHash, a.port) := by rw [udpAnnounced, hparse]
        rw [hannounced, eq_peerOf_of_ownedBy] at hr
        exact peer_announceOp_of_ne order h.store hr _ _ _ _ _
  · cases hid : h.connid.validate blake3 s.connectionId (ipTo16 ip).toList nowSecs with
    | false => exact ⟨_, _, _, handle_scrape_mismatch blake3 order h _ _ _ _ _ hparse hid, fun _ _ => rfl⟩
    | true => exact ⟨_, _, _, handle_scrape blake3 order h _ _ _ _ _ hparse hhashes hid, fun _ _ => rfl⟩

/-- An HTTP announce is rejected and changes nothing, or is one call of the store for the announced peer. -/
theorem HttpHandler.announce_store (itoa : Itoa) (order : HashOrder) (h : HttpHandler) (query : List UInt8)
    (ip : IpAddr) (now interval : UInt32) :
    (h.announce itoa order query (ipTo16 ip) ip.isIpv4 now interval).1 = h ∨
      ∃ p hash port op, (Http.queryPairs query).foldlM Http.Params.read Http.Params.default = .ok p ∧
        p.infoHash = some hash ∧ p.port = some port ∧
        op = announceOp (peerOf hash ip port) p.left (Http.eventOf p.event) p.numwant now [] ∧
        (h.announce itoa order query (ipTo16 ip) ip.isIpv4 now interval).1 = ⟨h.store.step order op⟩ := by
  cases hp : (Http.queryPairs query).foldlM Http.Params.read Http.Params.default with
  | error response =>
      left
      rw [announce, hp]
  | ok p =>
      by_cases hall : ∃ hash port, p.infoHash = some hash ∧ p.port = some port
      · right
        obtain ⟨hash, port, hhash, hport⟩ := hall
        obtain ⟨peers4, peers6, heq, -⟩ := announce_spec itoa order h (ipTo16 ip) ip.isIpv4 now interval hp hhash hport
        exact ⟨p, hash, port, _, rfl, hhash, hport, rfl, by rw [heq]; rfl⟩
      · left
        rw [announce_forgot itoa order h (ipTo16 ip) ip.isIpv4 now interval hp hall]

/-- A request for a target changes only an entry that its source owns. -/
theorem HttpHandler.handle_peer (itoa : Itoa) (order : HashOrder) (h : HttpHandler) (target : List UInt8)
    (ip : IpAddr) (now interval : UInt32) (r : PeerRef) (hr : ¬r.OwnedBy ip (httpAnnounced target)) :
    (h.handle itoa order target (ipTo16 ip) ip.isIpv4 now interval).1.store.peer r = h.store.peer r := by
  simp only [handle, httpAnnounced] at hr ⊢
  generalize (splitOnce 63 target).getD (target, []) = split at hr ⊢
  obtain ⟨path, query⟩ := split
  simp only at hr ⊢
  split_ifs with hroot hann hscrape
  · rfl
  · rw [if_pos hann] at hr
    rcases announce_store itoa order h query ip now interval with heq | ⟨p, hash, port, op, hp, hhash, hport, rfl, heq⟩
    · rw [heq]
    · obtain ⟨_, _, left, event, numwant, hle⟩ := p
      cases hhash
      cases hport
      rw [hp] at hr
      rw [heq]
      exact peer_announceOp_of_ne order h.store (mt eq_peerOf_of_ownedBy.mpr hr) _ _ _ _ _
  · rfl
  · rfl

/-- The compact peer of a source, as the HTTP handler forms it. -/
def Http.compactPeer (isV4 : Bool) (srcIp : Bytes 16) (port : UInt16) : Bytes (Family.ofIsV4 isV4).keyLen :=
  match isV4 with
  | true => Http.v4Key srcIp port
  | false => Http.v6Key srcIp port

/-- Both handlers form the compact peers alike. -/
theorem Http.compactPeer_eq : Http.compactPeer = Bluefrog.compactPeer := by
  funext isV4 srcIp port
  cases isV4 <;> rfl

/-- In one family, a compact peer determines the address and the port. -/
theorem compactPeer_injective {ip ip' : IpAddr} {port port' : UInt16} (hfamily : ip.isIpv4 = ip'.isIpv4)
    (h : compactPeer ip.isIpv4 (ipTo16 ip) port = compactPeer ip.isIpv4 (ipTo16 ip') port') :
    ip = ip' ∧ port = port' := by
  have hpeer : ∀ hash, peerOf hash ip port = peerOf hash ip' port' := by
    intro hash
    rw [peerOf, announcedPeer, h, peerOf, announcedPeer, hfamily]
  have hash : InfoHash := List.Vector.replicate _ 0
  have haddress := address_peerOf hash ip port
  have hport := port_peerOf hash ip port
  rw [hpeer hash, address_peerOf] at haddress
  rw [hpeer hash, port_peerOf] at hport
  exact ⟨haddress.symm, hport.symm⟩

/-- **A request changes at most the entry of its own source.** -/
theorem peer_ownership (blake3 : Blake3) (itoa : Itoa) (order : HashOrder) (source : IpAddr) :
    let ip := canonicalIp source
    (∀ (h : Handler) (buf : List UInt8) (nowSecs : UInt64) (interval : UInt32) (out : List UInt8),
      ∃ action h' out', h.handle blake3 order buf (ipTo16 ip) ip.isIpv4 nowSecs interval out = some (action, h', out') ∧
        ∀ r : PeerRef, ¬r.OwnedBy ip (udpAnnounced buf) → h'.store.peer r = h.store.peer r) ∧
    (∀ (h : HttpHandler) (target : List UInt8) (now interval : UInt32) (r : PeerRef),
      ¬r.OwnedBy ip (httpAnnounced target) →
        (h.handle itoa order target (ipTo16 ip) ip.isIpv4 now interval).1.store.peer r = h.store.peer r) ∧
    ∀ (source' : IpAddr) (port port' : UInt16), ip.isIpv4 = (canonicalIp source').isIpv4 →
      compactPeer ip.isIpv4 (ipTo16 ip) port = compactPeer ip.isIpv4 (ipTo16 (canonicalIp source')) port' ∨
        Http.compactPeer ip.isIpv4 (ipTo16 ip) port =
          Http.compactPeer ip.isIpv4 (ipTo16 (canonicalIp source')) port' →
      ip = canonicalIp source' ∧ port = port' :=
  ⟨fun h buf nowSecs interval out => h.handle_peer blake3 order buf _ nowSecs interval out,
    fun h target now interval r hr => h.handle_peer itoa order target _ now interval r hr,
    fun _ _ _ hfamily h => compactPeer_injective hfamily (h.elim id fun h => by rwa [Http.compactPeer_eq] at h)⟩

end Bluefrog
