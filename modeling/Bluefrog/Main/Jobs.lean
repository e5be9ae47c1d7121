import Bluefrog.Core.Selection
import Bluefrog.Http.Acceptance
import Bluefrog.Main.Daemon

/-!
What each job of a task does. No job fails, and `Runs` says all that one can do: how it changes the shared
state, and which jobs follow. Facts about the daemon are read off its cases, not off the code.
-/

open Rust Tasks

namespace Bluefrog

open Udp

/-- The peers that a call of the store hands out. -/
def Op.handsOut (order : HashOrder) (s : Store) : Op → List PeerRef
  | .announce r flags numwant now _ =>
      let t := ((s.get r.hash).getD Torrent.new).withAnnounce r.family r.key flags now
      (((t.list r.family).compactKeys order).take numwant).map fun key => ⟨r.hash, r.family, key⟩
  | .remove _ _ => []
  | .gc _ => []

/-- The peers, in their compact form. -/
def compactBytes (rs : List PeerRef) : List UInt8 := rs.flatMap fun r => r.key.toList

theorem compactBytes_map (hash : InfoHash) (f : Family) (keys : List (Bytes f.keyLen)) :
    compactBytes (keys.map fun key => ⟨hash, f, key⟩) = keys.flatMap List.Vector.toList := by
  rw [compactBytes, List.flatMap_map]

/-- A peer that is handed out is of the announced torrent and family, and is stored. -/
theorem mem_handsOut {order : HashOrder} {s : Store} {op : Op} {r' : PeerRef} (h : r' ∈ op.handsOut order s) :
    ∃ r flags numwant now peersOut, op = .announce r flags numwant now peersOut ∧ r'.hash = r.hash ∧
      r'.family = r.family ∧ ((s.step order op).peer r').isSome := by
  cases op with
  | announce r flags numwant now peersOut =>
      refine ⟨r, flags, numwant, now, peersOut, rfl, ?_⟩
      obtain ⟨key, hkey, rfl⟩ := List.mem_map.mp h
      refine ⟨rfl, rfl, ?_⟩
      have hmem := (PeerList.mem_compactKeys _ order key).mp (List.mem_of_mem_take hkey)
      rw [Store.peer, Store.get_step, Op.effect, if_pos rfl, Option.bind_some]
      exact Finmap.lookup_isSome.mpr hmem
  | remove r now => exact absurd h List.not_mem_nil
  | gc now => exact absurd h List.not_mem_nil

/-- The peers of a UDP reply are those that its call of the store hands out. -/
theorem announcedKeys_eq (order : HashOrder) (store : Store) (a : Announce) (srcIp : Bytes 16) (isV4 : Bool)
    (nowSecs : UInt64) (out : List UInt8) :
    (Handler.announcedKeys order store a srcIp isV4 nowSecs).flatMap List.Vector.toList =
      compactBytes ((announceOp (announcedPeer a.infoHash a.port srcIp isV4) a.left a.event (numwant a.numWant isV4)
        (nowSecs / 60).toUInt32 out).handsOut order store) := by
  unfold Handler.announcedKeys announceOp
  split_ifs
  · rfl
  · exact (compactBytes_map _ _ _).symm

theorem announceOp_peersOut (order : HashOrder) (s : Store) (r : PeerRef) (left : UInt64) (event : Event)
    (numwant : Nat) (nowMin : UInt32) : (s.exec order (announceOp r left event numwant nowMin [])).2.peersOut =
      compactBytes ((announceOp r left event numwant nowMin []).handsOut order s) := by
  unfold announceOp
  split_ifs
  · rfl
  · rw [Op.handsOut, compactBytes_map]
    exact PeerList.writeCompact_eq _ order numwant []

namespace Daemon

section

variable (lib : Libraries) (sh : Shared)

/-- What the detector is fed about a datagram. -/
def feeds (d : Datagram) (signals : List Signal) : List Job :=
  if sh.config.l7Enable then signals.map fun signal => .feed d.ip ⟨ipTo16 d.ip, signal, clampU32 d.now⟩ else []

/-- The connection id of a datagram is one that was handed out to its source, as far as the hash can tell. -/
def Validates (d : Datagram) (id : UInt64) : Prop :=
  sh.connid.validate lib.blake3 id (ipTo16 d.ip).toList d.now = true

/-- The request that a datagram carries, but for a connect, with its connection id. -/
inductive Claims (d : Datagram) (id : UInt64) : Prop where
  | announce (a : Announce) (hparse : parse d.buf = some (.ok (.announce a))) (hid : a.connectionId = id)
  | scrape (s : Scrape) (hparse : parse d.buf = some (.ok (.scrape s))) (hid : s.connectionId = id)

def connectReply (d : Datagram) (transactionId : UInt32) : List UInt8 :=
  toBe32 0 ++ toBe32 transactionId ++ toBe64 (sh.connid.generate lib.blake3 (ipTo16 d.ip).toList d.now)

/-- The call of the store that an announce makes. -/
def udpOp (d : Datagram) (a : Announce) : Op :=
  announceOp (announcer a d.peer.ip) a.left a.event (numwant a.numWant d.ip.isIpv4) (d.now / 60).toUInt32
    (List.replicate 20 0)

def announceReply (order : HashOrder) (store : Store) (d : Datagram) (a : Announce) : List UInt8 :=
  announceHeader a.transactionId (intervalOf d.jitter) ((store.step order (udpOp d a)).scrape a.infoHash) ++
    compactBytes ((udpOp d a).handsOut order store)

def scrapeReplyOf (transactionId : UInt32) (entries : List (UInt32 × UInt32 × UInt32)) : List UInt8 :=
  toBe32 2 ++ toBe32 transactionId ++ entries.flatMap entryBytes

/-- The call of the store that an HTTP announce makes. -/
def httpOp (r : HttpRequest) (p : Http.Params) (hash : InfoHash) (port : UInt16) : Op :=
  announceOp (peerOf hash r.ip port) p.left (Http.eventOf p.event) p.numwant (clampU32 (r.now / 60)) []

def httpAnnounceBody (order : HashOrder) (store : Store) (r : HttpRequest) (op : Op) (hash : InfoHash) : List UInt8 :=
  let peers := compactBytes (op.handsOut order store)
  Bencode.announceResponse lib.itoa [] ((store.step order op).scrape hash) (intervalOf r.jitter)
    (if r.ip.isIpv4 then peers else []) (if r.ip.isIpv4 then [] else peers)

/-- The path of a request's target. -/
def HttpRequest.path (r : HttpRequest) : List UInt8 := (Http.splitTarget r.target).1

def HttpRequest.pairs (r : HttpRequest) : List (List UInt8 × List UInt8) :=
  Http.queryPairs (Http.splitTarget r.target).2

/-- What the announce loop reads of a request. -/
def HttpRequest.params (r : HttpRequest) : Except Response Http.Params := r.pairs.foldlM Http.Params.read .default

def redirectReply : HttpReply :=
  let url := (sh.config.redirectUrl.getD []).asBytes
  if lib.headerValue url then ⟨302, [(ascii "location", url)], []⟩ else ⟨200, [], []⟩

/-- An announce that names no info-hash or no port. -/
def Forgets (p : Http.Params) : Prop := ¬∃ hash port, p.infoHash = some hash ∧ p.port = some port

end

/-- What a job does to the shared state, and the jobs that follow from it. -/
inductive Runs (lib : Libraries) (sh : Shared) (order : HashOrder) (w : World) : Job → World → List Job → Prop where
  | dropped (d : Datagram) (e : ParseError) (hparse : parse d.buf = some (.error e)) :
      Runs lib sh order w (.handle d) w [.count .udpDropped]
  | connected (d : Datagram) (transactionId : UInt32) (hparse : parse d.buf = some (.ok (.connect transactionId))) :
      Runs lib sh order w (.handle d) w
        (.count .udpConnect :: feeds sh d [.connect] ++ [.send d.peer (connectReply lib sh d transactionId)])
  | refused (d : Datagram) (id : UInt64) (hclaims : Claims d id) (hid : ¬Validates lib sh d id) :
      Runs lib sh order w (.handle d) w (.count .udpConnidMismatch :: feeds sh d [.connidMismatch])
  | announced (d : Datagram) (a : Announce) (hparse : parse d.buf = some (.ok (.announce a)))
      (hid : Validates lib sh d a.connectionId) :
      Runs lib sh order w (.handle d)
        { w with store := w.store.step order (udpOp d a), log := w.log ++ [.stored (udpOp d a)] }
        (.count .udpAnnounce ::
          feeds sh d [.announce (announceInfo a d.ip (announceReply order w.store d a))] ++
          [.send d.peer (announceReply order w.store d a)])
  | scraping (d : Datagram) (s : Scrape) (hashes : List InfoHash) (hparse : parse d.buf = some (.ok (.scrape s)))
      (hhashes : s.iterHashes = some hashes) (hid : Validates lib sh d s.connectionId) :
      Runs lib sh order w (.handle d) w [.scrape d s hashes []]
  | read (d : Datagram) (s : Scrape) (hash : InfoHash) (todo : List InfoHash)
      (entries : List (UInt32 × UInt32 × UInt32)) :
      Runs lib sh order w (.scrape d s (hash :: todo) entries) w
        [.scrape d s todo (entries ++ [((w.store.scrape hash).complete, (w.store.scrape hash).downloaded,
          (w.store.scrape hash).incomplete)])]
  | scraped (d : Datagram) (s : Scrape) (hashes : List InfoHash) (entries : List (UInt32 × UInt32 × UInt32))
      (hhashes : s.iterHashes = some hashes) :
      Runs lib sh order w (.scrape d s [] entries) w
        (.count .udpScrape :: feeds sh d [.scrape hashes.length] ++
          [.send d.peer (scrapeReplyOf s.transactionId entries)])
  | counts (c : Counter) :
      Runs lib sh order w (.count c) { w with metrics := w.metrics.inc c, log := w.log ++ [.counted c] } []
  | scores (ip : IpAddr) (call : Call) (detector : Detector) (ban : Bool)
      (hscore : w.detector.underShard order call.ip call.now (call.signal.apply w.detector.config call.now) =
        (detector, ban)) :
      Runs lib sh order w (.feed ip call) { w with detector } (if ban then [.record ip ⟨call.ip, call.now⟩] else [])
  | records (ip : IpAddr) (crossing : Escalation.Crossing) (detector : Detector) (tier : UInt32)
      (hrecord : w.detector.recordOffence order crossing.ip crossing.now = (detector, tier)) :
      Runs lib sh order w (.record ip crossing) { w with detector, log := w.log ++ [.offended ip tier] }
        (bans sh ip tier detector.config.banDuration)
  | spawns (ip : IpAddr) (tier duration : UInt32) :
      Runs lib sh order w (.spawn ip tier duration) { w with pool := w.pool ++ [.ban ip tier duration] } []
  | sends (peer : SocketAddr) (bytes : List UInt8) :
      Runs lib sh order w (.send peer bytes) { w with log := w.log ++ [.sent peer bytes] } []
  | httpAnnounced (r : HttpRequest) (p : Http.Params) (hash : InfoHash) (port : UInt16)
      (hpath : r.path = ascii "/announce") (hp : r.params = .ok p) (hhash : p.infoHash = some hash)
      (hport : p.port = some port) :
      Runs lib sh order w (.answer r)
        { w with
          store := w.store.step order (httpOp r p hash port)
          log := w.log ++ [.stored (httpOp r p hash port)] }
        [.count .httpAnnounce,
          .respond r (httpReply 200 (httpAnnounceBody lib order w.store r (httpOp r p hash port) hash))]
  | httpForgot (r : HttpRequest) (p : Http.Params) (hpath : r.path = ascii "/announce") (hp : r.params = .ok p)
      (hforgets : Forgets p) :
      Runs lib sh order w (.answer r) w
        [.count .httpAnnounce, .respond r (httpReply 200 (Bencode.failure lib.itoa []
          (ascii "Your client forgot to send your torrent's info_hash.")))]
  | httpRefused (r : HttpRequest) (response : Response) (hpath : r.path = ascii "/announce")
      (hp : r.params = .error response) :
      Runs lib sh order w (.answer r) w [.count .error, .respond r (httpReply 400 (ascii "400"))]
  | httpScraping (r : HttpRequest) (hpath : r.path = ascii "/scrape") :
      Runs lib sh order w (.answer r) w [.scrapeFiles r r.pairs []]
  | httpRedirected (r : HttpRequest) (hpath : r.path = ascii "/") :
      Runs lib sh order w (.answer r) w [.respond r (redirectReply lib sh)]
  | httpMissed (r : HttpRequest) (hpath : r.path ≠ ascii "/announce" ∧ r.path ≠ ascii "/scrape" ∧ r.path ≠ ascii "/") :
      Runs lib sh order w (.answer r) w [.respond r (httpReply 404 (ascii "404"))]
  | httpSkipped (r : HttpRequest) (key raw : List UInt8) (pairs : List (List UInt8 × List UInt8))
      (files : List (InfoHash × Counts)) (hkey : key ≠ ascii "info_hash") :
      Runs lib sh order w (.scrapeFiles r ((key, raw) :: pairs) files) w [.scrapeFiles r pairs files]
  | httpRead (r : HttpRequest) (raw : List UInt8) (pairs : List (List UInt8 × List UInt8))
      (files : List (InfoHash × Counts)) (hash : InfoHash) (hroom : files.length < Http.maxScrapeHashes)
      (hdecode : Http.decodeHash raw = some hash) :
      Runs lib sh order w (.scrapeFiles r ((ascii "info_hash", raw) :: pairs) files) w
        [.scrapeFiles r pairs (files ++ [(hash, w.store.scrape hash)])]
  | httpBad (r : HttpRequest) (raw : List UInt8) (pairs : List (List UInt8 × List UInt8))
      (files : List (InfoHash × Counts)) (hroom : files.length < Http.maxScrapeHashes)
      (hdecode : Http.decodeHash raw = none) :
      Runs lib sh order w (.scrapeFiles r ((ascii "info_hash", raw) :: pairs) files) w (answered lib sh r .badRequest)
  | httpScraped (r : HttpRequest) (pairs : List (List UInt8 × List UInt8)) (files : List (InfoHash × Counts))
      (hend : pairs = [] ∨ ∃ raw rest, pairs = (ascii "info_hash", raw) :: rest ∧ Http.maxScrapeHashes ≤ files.length) :
      Runs lib sh order w (.scrapeFiles r pairs files) w
        (answered lib sh r (.body (Bencode.scrapeResponse lib.itoa [] files)))
  | responds (r : HttpRequest) (reply : HttpReply) :
      Runs lib sh order w (.respond r reply) { w with log := w.log ++ [.responded r reply] } []

/-- The event is something that comes in. -/
def Event.comesIn : Event → Bool
  | .received _ | .requested _ => true
  | _ => false

section

variable {lib : Libraries} {sh : Shared}

/-- A job logs nothing that comes in. -/
theorem runs_log {order : HashOrder} {w w' : World} {job : Job} {new : List Job}
    (hruns : Runs lib sh order w job w' new) :
    ∃ events, w'.log = w.log ++ events ∧ ∀ e ∈ events, e.comesIn = false := by
  cases hruns with
  | announced | httpAnnounced | counts | records | sends | responds =>
      exact ⟨[_], rfl, List.forall_mem_singleton.mpr rfl⟩
  | _ => exact ⟨[], (List.append_nil _).symm, fun e he => absurd he List.not_mem_nil⟩

theorem runs_pool {order : HashOrder} {w w' : World} {job : Job} {new : List Job}
    (hruns : Runs lib sh order w job w' new) :
    w'.pool = w.pool ∨ ∃ ip tier duration, w'.pool = w.pool ++ [.ban ip tier duration] := by
  cases hruns with
  | spawns ip tier duration => exact .inr ⟨ip, tier, duration, rfl⟩
  | _ => exact .inl rfl

theorem served_reply {d : Datagram} {parsed : Except ParseError Request} {out : List UInt8} {len : Nat}
    (hlen : out.length = len) {signals : List Signal} (h : l7Signals parsed d.ip (.reply len) out = some signals) :
    served sh d parsed (.reply len) out =
      some (.count (recordUdpMetric parsed (.reply len)) :: feeds sh d signals ++ [.send d.peer out]) := by
  have hslice : slice out 0 len = some out := by
    have hhead : slice (out ++ []) 0 len = some out := slice_head hlen
    rwa [List.append_nil] at hhead
  simp only [served, feeds, h, hslice, Option.map_some]
  cases sh.config.l7Enable <;> rfl

theorem served_mismatch (d : Datagram) (parsed : Except ParseError Request) (out : List UInt8) :
    served sh d parsed .connidMismatch out = some (.count .udpConnidMismatch :: feeds sh d [.connidMismatch]) := by
  simp only [served, feeds, l7Signals, if_true]
  cases sh.config.l7Enable <;> rfl

theorem served_drop (d : Datagram) (e : ParseError) (out : List UInt8) :
    served sh d (.error e) .drop out = some [.count .udpDropped] := by
  simp only [served, l7Signals]
  cases sh.config.l7Enable <;> rfl

theorem runs_handle (order : HashOrder) (w : World) (d : Datagram) :
    ∃ w' new, exec lib sh order w (.handle d) = some (w', new) ∧ Runs lib sh order w (.handle d) w' new := by
  rcases parse_cases d.buf with ⟨e, hparse⟩ | ⟨transactionId, hparse⟩ | ⟨a, hparse⟩ | ⟨s, hashes, hparse, hhashes⟩
  · have hhandle := Handler.handle_error lib.blake3 order ⟨w.store, sh.connid⟩ (ipTo16 d.ip) d.ip.isIpv4 d.now
      (intervalOf d.jitter) d.out hparse
    refine ⟨w, _, ?_, .dropped d e hparse⟩
    simp only [exec, hparse, Option.bind_eq_bind, Option.bind_some, hhandle, served_drop, udpOps, List.map_nil,
      List.append_nil]
  · have hhandle := Handler.handle_connect lib.blake3 order ⟨w.store, sh.connid⟩ (ipTo16 d.ip) d.ip.isIpv4 d.now
      (intervalOf d.jitter) d.out hparse
    refine ⟨w, _, ?_, .connected d transactionId hparse⟩
    simp only [exec, hparse, Option.bind_eq_bind, Option.bind_some, hhandle, udpOps, List.map_nil, List.append_nil]
    rw [served_reply (by simp only [List.length_append, length_toBe32, length_toBe64]) rfl]
    rfl
  · cases hid : sh.connid.validate lib.blake3 a.connectionId (ipTo16 d.ip).toList d.now with
    | false =>
        have hhandle := Handler.handle_announce_mismatch lib.blake3 order ⟨w.store, sh.connid⟩ (ipTo16 d.ip)
          d.ip.isIpv4 d.now (intervalOf d.jitter) d.out hparse hid
        refine ⟨w, _, ?_, .refused d a.connectionId (.announce a hparse rfl) (by rw [Validates, hid]; decide)⟩
        simp only [exec, hparse, Option.bind_eq_bind, Option.bind_some, hhandle, served_mismatch, udpOps, hid,
          Bool.false_eq_true, if_false, List.map_nil, List.append_nil]
    | true =>
        have hhandle := Handler.handle_announce_eq lib.blake3 order ⟨w.store, sh.connid⟩ (ipTo16 d.ip)
          d.ip.isIpv4 d.now (intervalOf d.jitter) d.out hparse hid
        dsimp only at hhandle
        rw [announcedKeys_eq order w.store a (ipTo16 d.ip) d.ip.isIpv4 d.now (List.replicate 20 0)] at hhandle
        refine ⟨_, _, ?_, .announced d a hparse hid⟩
        simp only [exec, hparse, Option.bind_eq_bind, Option.bind_some, hhandle, udpOps, hid, if_true]
        rw [served_reply (by simp only [announceHeader, List.length_append, length_toBe32]) rfl]
        rfl
  · cases hid : sh.connid.validate lib.blake3 s.connectionId (ipTo16 d.ip).toList d.now with
    | false =>
        refine ⟨w, _, ?_, .refused d s.connectionId (.scrape s hparse rfl) (by rw [Validates, hid]; decide)⟩
        simp only [exec, hparse, Option.bind_eq_bind, Option.bind_some, served_mismatch, hid, Bool.false_eq_true,
          if_false]
    | true =>
        refine ⟨w, _, ?_, .scraping d s hashes hparse hhashes hid⟩
        simp only [exec, hparse, Option.bind_eq_bind, Option.bind_some, hid, if_true, hhashes]

theorem runs_scrape (order : HashOrder) (w : World) (d : Datagram) (s : Scrape) (todo : List InfoHash)
    (entries : List (UInt32 × UInt32 × UInt32)) :
    ∃ w' new, exec lib sh order w (.scrape d s todo entries) = some (w', new) ∧
      Runs lib sh order w (.scrape d s todo entries) w' new := by
  cases todo with
  | cons hash todo => exact ⟨w, _, rfl, .read d s hash todo entries⟩
  | nil =>
      obtain ⟨hashes, hhashes⟩ := iterHashes_total s
      have hsignals : ∀ action out, action ≠ .connidMismatch →
          l7Signals (.ok (.scrape s)) d.ip action out = some [.scrape hashes.length] := by
        intro action out haction
        simp only [l7Signals, if_neg haction, hhashes, Option.map_some]
      refine ⟨w, _, ?_, .scraped d s hashes entries hhashes⟩
      simp only [exec, Option.bind_eq_bind]
      rw [writeScrape_eq _ List.length_replicate]
      simp only [Option.bind_some]
      rw [served_reply (by simp only [List.length_append, length_toBe32, length_flatMap_const length_entryBytes])
        (hsignals _ _ (by simp))]
      rfl

/-- The target of a path that is one of ours starts with it. -/
theorem isPrefixOf_target {r : HttpRequest} {path : List UInt8} (h : r.path = path) :
    path.isPrefixOf r.target = true := by
  rw [List.isPrefixOf_iff_prefix, ← h, HttpRequest.path, Http.splitTarget, splitOnce]
  split_ifs
  · exact List.takeWhile_prefix _
  · exact List.prefix_rfl

theorem answered_announce {r : HttpRequest} (hpath : r.path = ascii "/announce") (b : List UInt8) :
    answered lib sh r (.body b) = [.count .httpAnnounce, .respond r (httpReply 200 b)] := by
  rw [answered, if_pos (isPrefixOf_target hpath)]
  rfl

theorem answered_scrape {r : HttpRequest} (hpath : r.path = ascii "/scrape") (b : List UInt8) :
    answered lib sh r (.body b) = [.count .httpScrape, .respond r (httpReply 200 b)] := by
  have hann : (ascii "/announce").isPrefixOf r.target = false := by
    obtain ⟨rest, htarget⟩ := List.isPrefixOf_iff_prefix.mp (isPrefixOf_target hpath)
    rw [← htarget]
    rfl
  rw [answered, hann, isPrefixOf_target hpath]
  rfl

theorem httpOps_of_ne {r : HttpRequest} (hpath : r.path ≠ ascii "/announce") : httpOps r = [] := by
  have hnone : httpAnnounced r.target = none := if_neg hpath
  rw [httpOps, hnone]

theorem httpAnnounced_eq {r : HttpRequest} (hpath : r.path = ascii "/announce") {p : Http.Params}
    (hp : r.params = .ok p) : httpAnnounced r.target =
      p.infoHash.bind fun hash => p.port.map fun port => (hash, port) := by
  change (Http.splitTarget r.target).1 = _ at hpath
  change (Http.queryPairs (Http.splitTarget r.target).2).foldlM Http.Params.read Http.Params.default = _ at hp
  rcases hsplit : Http.splitTarget r.target with ⟨path, query⟩
  rw [hsplit] at hpath hp
  rw [Http.splitTarget] at hsplit
  simp only [httpAnnounced, hsplit, hpath, hp, if_true]
  obtain ⟨hash, port, left, event, numwant, hle⟩ := p
  cases hash <;> cases port <;> rfl

theorem httpOps_announced {r : HttpRequest} (hpath : r.path = ascii "/announce") {p : Http.Params} {hash : InfoHash}
    {port : UInt16} (hp : r.params = .ok p) (hhash : p.infoHash = some hash) (hport : p.port = some port) :
    httpOps r = [httpOp r p hash port] := by
  have hann := httpAnnounced_eq hpath hp
  rw [hhash, hport] at hann
  change r.pairs.foldlM Http.Params.read .default = .ok p at hp
  rw [HttpRequest.pairs] at hp
  rw [httpOps, hann, hp]
  rfl

theorem httpOps_forgot {r : HttpRequest} (hpath : r.path = ascii "/announce") {p : Http.Params}
    (hp : r.params = .ok p) (hforgets : Forgets p) : httpOps r = [] := by
  have hann := httpAnnounced_eq hpath hp
  have hnone : httpAnnounced r.target = none := by
    rw [hann]
    cases hhash : p.infoHash with
    | none => rfl
    | some hash =>
        cases hport : p.port with
        | none => rfl
        | some port => exact absurd ⟨hash, port, hhash, hport⟩ hforgets
  rw [httpOps, hnone]

theorem httpOps_refused {r : HttpRequest} {response : Response} (hp : r.params = .error response) :
    httpOps r = [] := by
  change (Http.queryPairs (Http.splitTarget r.target).2).foldlM Http.Params.read .default = _ at hp
  rw [httpOps, hp]
  cases httpAnnounced r.target <;> rfl

theorem params_error {r : HttpRequest} {response : Response} (h : r.params = .error response) :
    response = .badRequest := by
  obtain ⟨hbad, hgood⟩ := Http.foldlM_read r.pairs
  by_cases hany : ∃ pair ∈ r.pairs, Http.BadPair pair
  · exact Except.error.inj (h.symm.trans (hbad hany))
  · exact absurd (h.symm.trans (hgood hany)) (by simp)

theorem runs_answer (order : HashOrder) (w : World) (r : HttpRequest) :
    ∃ w' new, exec lib sh order w (.answer r) = some (w', new) ∧ Runs lib sh order w (.answer r) w' new := by
  have hexec : ∀ h response, r.path ≠ ascii "/scrape" → HttpHandler.handle lib.itoa order ⟨w.store⟩ r.target
      (ipTo16 r.ip) r.ip.isIpv4 (clampU32 (r.now / 60)) (intervalOf r.jitter) = (h, response) →
      exec lib sh order w (.answer r) =
        some ({ w with store := h.store, log := w.log ++ (httpOps r).map .stored }, answered lib sh r response) := by
    intro h response hne hhandle
    simp only [exec]
    rw [if_neg (show (Http.splitTarget r.target).1 ≠ _ from hne), hhandle]
  have hhandle := HttpHandler.handle_eq lib.itoa order ⟨w.store⟩ r.target (ipTo16 r.ip) r.ip.isIpv4
    (clampU32 (r.now / 60)) (intervalOf r.jitter)
  have hkeep : ({ w with log := w.log ++ ([] : List Op).map .stored } : World) = w := by
    rw [List.map_nil, List.append_nil]
  by_cases hscrape : (Http.splitTarget r.target).1 = ascii "/scrape"
  · refine ⟨w, _, ?_, .httpScraping r hscrape⟩
    simp only [exec]
    exact if_pos hscrape
  by_cases hroot : (Http.splitTarget r.target).1 = ascii "/"
  · rw [if_pos hroot] at hhandle
    refine ⟨w, _, ?_, .httpRedirected r hroot⟩
    rw [hexec _ _ hscrape hhandle, httpOps_of_ne (by rw [HttpRequest.path, hroot]; decide), hkeep]
    rfl
  by_cases hann : (Http.splitTarget r.target).1 = ascii "/announce"
  · rw [if_neg hroot, if_pos hann] at hhandle
    cases hp : r.params with
    | error response =>
        refine ⟨w, _, ?_, .httpRefused r response hann hp⟩
        have hrefused : HttpHandler.announce lib.itoa order ⟨w.store⟩ (Http.splitTarget r.target).2 (ipTo16 r.ip)
            r.ip.isIpv4 (clampU32 (r.now / 60)) (intervalOf r.jitter) = (⟨w.store⟩, .badRequest) := by
          rw [HttpHandler.announce, ← params_error hp]
          rw [HttpRequest.params, HttpRequest.pairs] at hp
          rw [hp]
        rw [hexec _ _ hscrape (hhandle.trans hrefused), httpOps_refused hp, hkeep]
        rfl
    | ok p =>
        by_cases hall : ∃ hash port, p.infoHash = some hash ∧ p.port = some port
        · obtain ⟨hash, port, hhash, hport⟩ := hall
          refine ⟨_, _, ?_, .httpAnnounced r p hash port hann hp hhash hport⟩
          have hannounce := HttpHandler.announce_eq lib.itoa order ⟨w.store⟩ (ipTo16 r.ip) r.ip.isIpv4
            (clampU32 (r.now / 60)) (intervalOf r.jitter) hp hhash hport
          dsimp only at hannounce
          rw [announceOp_peersOut] at hannounce
          rw [hexec _ _ hscrape (hhandle.trans hannounce), httpOps_announced hann hp hhash hport,
            answered_announce hann]
          rfl
        · refine ⟨w, _, ?_, .httpForgot r p hann hp hall⟩
          have hforgot := HttpHandler.announce_forgot lib.itoa order ⟨w.store⟩ (ipTo16 r.ip) r.ip.isIpv4
            (clampU32 (r.now / 60)) (intervalOf r.jitter) hp hall
          rw [hexec _ _ hscrape (hhandle.trans hforgot), httpOps_forgot hann hp hall, hkeep, answered_announce hann]
  · rw [if_neg hroot, if_neg hann, if_neg hscrape] at hhandle
    refine ⟨w, _, ?_, .httpMissed r ⟨hann, hscrape, hroot⟩⟩
    rw [hexec _ _ hscrape hhandle, httpOps_of_ne hann, hkeep]
    rfl

theorem runs_scrapeFiles (order : HashOrder) (w : World) (r : HttpRequest) (pairs : List (List UInt8 × List UInt8))
    (files : List (InfoHash × Counts)) : ∃ w' new, exec lib sh order w (.scrapeFiles r pairs files) = some (w', new) ∧
      Runs lib sh order w (.scrapeFiles r pairs files) w' new := by
  cases pairs with
  | nil => exact ⟨w, _, rfl, .httpScraped r [] files (.inl rfl)⟩
  | cons pair pairs =>
      obtain ⟨key, raw⟩ := pair
      rw [exec]
      split_ifs with hkey hfull
      · exact ⟨w, _, rfl, .httpScraped r _ files (.inr ⟨raw, pairs, by rw [hkey], hfull⟩)⟩
      · subst hkey
        cases hdecode : Http.decodeHash raw with
        | some hash => exact ⟨w, _, rfl, .httpRead r raw pairs files hash (Nat.lt_of_not_le hfull) hdecode⟩
        | none => exact ⟨w, _, rfl, .httpBad r raw pairs files (Nat.lt_of_not_le hfull) hdecode⟩
      · exact ⟨w, _, rfl, .httpSkipped r key raw pairs files hkey⟩

variable (lib sh) in
/-- **No job fails**, and each does what its kind can do. -/
theorem runs_exec (order : HashOrder) (w : World) (job : Job) :
    ∃ w' new, exec lib sh order w job = some (w', new) ∧ Runs lib sh order w job w' new := by
  cases job with
  | handle d => exact runs_handle order w d
  | scrape d s todo entries => exact runs_scrape order w d s todo entries
  | count c => exact ⟨_, _, rfl, .counts c⟩
  | feed ip call => exact ⟨_, _, rfl, .scores ip call _ _ rfl⟩
  | record ip crossing => exact ⟨_, _, rfl, .records ip crossing _ _ rfl⟩
  | spawn ip tier duration => exact ⟨_, _, rfl, .spawns ip tier duration⟩
  | send peer bytes => exact ⟨_, _, rfl, .sends peer bytes⟩
  | answer r => exact runs_answer order w r
  | scrapeFiles r pairs files => exact runs_scrapeFiles order w r pairs files
  | respond r reply => exact ⟨_, _, rfl, .responds r reply⟩

end

end Daemon
end Bluefrog
