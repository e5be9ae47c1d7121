import Bluefrog.Config.Parser
import Bluefrog.L7.Escalation
import Bluefrog.Lib.Tasks
import Bluefrog.Main.Ownership
import Bluefrog.Main.Worker
import Bluefrog.Metrics.Metrics
import Bluefrog.Nft.Netlink

/-!
The daemon: workers that serve datagrams, connections that serve HTTP requests, a pool of blocking threads
that write bans, the clock and the collector, all over one shared state. A task runs between two points at
which others may run: at every lock it takes and at every counter it increments. What it has still to do
is the list of its jobs. A pass of the collector counts as one step, as `Locks.gc_serialisable` allows.

The log is there for the proofs; no step reads it.
-/

open Rust Tasks

namespace Bluefrog

open Udp

namespace Daemon

/-- The size of a worker's buffer; a longer datagram is cut off. -/
def udpBuf : Nat := 2048

/-- The libraries the daemon calls: the keyed hash, the formatting of integers, and which bytes the value of
an HTTP header may be made of. -/
structure Libraries where
  blake3 : Blake3
  itoa : Itoa
  headerValue : List UInt8 → Bool

/-- The part of the shared state that never changes. -/
structure Shared where
  config : ConfigFile.Config
  connid : ConnId
  sink : Nft.NetlinkSink

/-- The advertised interval, with its jitter. -/
def intervalOf (jitter : Fin 360) : UInt32 := 1620 + UInt32.ofNat jitter

/-- A datagram that a worker has received, with the time it read, its jitter and what its reply buffer holds
from before. -/
structure Datagram where
  peer : SocketAddr
  buf : List UInt8
  now : UInt64
  jitter : Fin 360
  out : List UInt8

/-- A request over HTTP, with the time that its task read and its jitter. -/
structure HttpRequest where
  peer : IpAddr
  target : List UInt8
  now : UInt64
  jitter : Fin 360

structure HttpReply where
  status : Nat
  headers : List (List UInt8 × List UInt8)
  body : List UInt8
  deriving DecidableEq

def Datagram.ip (d : Datagram) : IpAddr := canonicalIp d.peer.ip

def HttpRequest.ip (r : HttpRequest) : IpAddr := canonicalIp r.peer

/-- What a task has still to do. -/
inductive Job where
  /-- Handle a datagram: one lock of the store for an announce. -/
  | handle (d : Datagram)
  /-- Read the counts of the info-hashes that are left of a scrape, one lock each. -/
  | scrape (d : Datagram) (s : Scrape) (todo : List InfoHash) (entries : List (UInt32 × UInt32 × UInt32))
  | count (c : Counter)
  /-- Score a source, under the lock of its shard of the detector. -/
  | feed (ip : IpAddr) (call : Call)
  /-- Record an offence, under the lock of the registry. -/
  | record (ip : IpAddr) (crossing : Escalation.Crossing)
  /-- Hand a ban to the blocking pool. -/
  | spawn (ip : IpAddr) (tier duration : UInt32)
  | send (peer : SocketAddr) (bytes : List UInt8)
  /-- Handle an HTTP request: one lock of the store for an announce. -/
  | answer (r : HttpRequest)
  /-- Go on with the loop of an HTTP scrape, one lock for each info-hash. -/
  | scrapeFiles (r : HttpRequest) (pairs : List (List UInt8 × List UInt8)) (files : List (InfoHash × Counts))
  | respond (r : HttpRequest) (reply : HttpReply)

/-- What a thread of the blocking pool has still to do. -/
inductive Blocking where
  | ban (ip : IpAddr) (tier duration : UInt32)
  | count (c : Counter)

inductive Event where
  | received (d : Datagram)
  | requested (r : HttpRequest)
  /-- A call of the store. -/
  | stored (op : Op)
  | counted (c : Counter)
  | offended (ip : IpAddr) (tier : UInt32)
  | sent (peer : SocketAddr) (bytes : List UInt8)
  | responded (r : HttpRequest) (reply : HttpReply)
  | banned (ip : IpAddr) (tier : UInt32) (element : Nft.Element)
  | failed (ip : IpAddr) (tier : UInt32)

/-- The part of the shared state that changes. -/
structure World where
  store : Store
  detector : Detector
  metrics : Metrics
  clock : UInt64
  pool : List Blocking
  log : List Event

section Workers

variable (lib : Libraries) (sh : Shared)

/-- The counter that a datagram counts for. -/
def recordUdpMetric (parsed : Except ParseError Request) (action : Action) : Counter :=
  match action with
  | .drop => .udpDropped
  | .connidMismatch => .udpConnidMismatch
  | .reply _ =>
      match parsed with
      | .ok (.connect _) => .udpConnect
      | .ok (.announce _) => .udpAnnounce
      | .ok (.scrape _) => .udpScrape
      | .error _ => .udpDropped

/-- What the detector is told of a datagram. -/
def l7Signals (parsed : Except ParseError Request) (ip : IpAddr) (action : Action) (out : List UInt8) :
    Option (List Signal) :=
  if action = .connidMismatch then some [.connidMismatch]
  else
    match parsed with
    | .ok (.announce a) => some [.announce (announceInfo a ip out)]
    | .ok (.scrape s) => s.iterHashes.map fun hashes => [.scrape hashes.length]
    | .ok (.connect _) => some [.connect]
    | .error _ => some []

/-- What a worker does about a datagram that it has handled. -/
def served (d : Datagram) (parsed : Except ParseError Request) (action : Action) (out : List UInt8) :
    Option (List Job) := do
  let signals ← if sh.config.l7Enable then l7Signals parsed d.ip action out else some []
  let sends ←
    match action with
    | .reply len => (slice out 0 len).map fun bytes => [Job.send d.peer bytes]
    | _ => some []
  some (.count (recordUdpMetric parsed action) ::
    (signals.map fun signal => Job.feed d.ip ⟨ipTo16 d.ip, signal, clampU32 d.now⟩) ++ sends)

/-- What a worker does about a verdict to ban. -/
def bans (ip : IpAddr) (tier duration : UInt32) : List Job :=
  .count .l7Ban :: (if 0 < tier then [.count .l7BanEscalated] else []) ++
    (if sh.config.nftEnable then [.spawn ip tier duration] else [])

/-- The call of the store that a datagram makes. -/
def udpOps (d : Datagram) (parsed : Except ParseError Request) : List Op :=
  match parsed with
  | .ok (.announce a) =>
      if sh.connid.validate lib.blake3 a.connectionId (ipTo16 d.ip).toList d.now then
        [announceOp (announcer a d.peer.ip) a.left a.event (numwant a.numWant d.ip.isIpv4) (d.now / 60).toUInt32
          (List.replicate 20 0)]
      else []
  | _ => []

def httpReply (status : Nat) (body : List UInt8) : HttpReply :=
  ⟨status, [(ascii "content-type", ascii "text/plain")], body⟩

/-- What a connection does about a response. -/
def answered (r : HttpRequest) : Response → List Job
  | .body b =>
      (if (ascii "/announce").isPrefixOf r.target then [.count .httpAnnounce]
        else if (ascii "/scrape").isPrefixOf r.target then [.count .httpScrape]
        else []) ++
      [.respond r (httpReply 200 b)]
  | .redirect =>
      let url := (sh.config.redirectUrl.getD []).asBytes
      -- a value that no header can have leaves an empty response
      [.respond r (if lib.headerValue url then ⟨302, [(ascii "location", url)], []⟩ else ⟨200, [], []⟩)]
  | .badRequest => [.count .error, .respond r (httpReply 400 (ascii "400"))]
  | .notFound => [.respond r (httpReply 404 (ascii "404"))]

/-- The call of the store that an HTTP request makes. -/
def httpOps (r : HttpRequest) : List Op :=
  match httpAnnounced r.target, (Http.queryPairs (Http.splitTarget r.target).2).foldlM Http.Params.read .default with
  | some (hash, port), .ok p =>
      [announceOp (peerOf hash r.ip port) p.left (Http.eventOf p.event) p.numwant (clampU32 (r.now / 60)) []]
  | _, _ => []

/-- Runs the first job of a task. Returns the shared state after it, and the jobs that follow from it. -/
def exec (order : HashOrder) (w : World) : Job → Option (World × List Job)
  | .handle d => do
      let parsed ← parse d.buf
      match parsed with
      | .ok (.scrape s) =>
          if sh.connid.validate lib.blake3 s.connectionId (ipTo16 d.ip).toList d.now then
            let hashes ← s.iterHashes
            some (w, [.scrape d s hashes []])
          else
            let jobs ← served sh d parsed .connidMismatch d.out
            some (w, jobs)
      | _ =>
          let (action, h, out) ← Handler.handle lib.blake3 order ⟨w.store, sh.connid⟩ d.buf (ipTo16 d.ip) d.ip.isIpv4
            d.now (intervalOf d.jitter) d.out
          let jobs ← served sh d parsed action out
          some ({ w with store := h.store, log := w.log ++ (udpOps lib sh d parsed).map .stored }, jobs)
  | .scrape d s (hash :: todo) entries =>
      let c := w.store.scrape hash
      some (w, [.scrape d s todo (entries ++ [(c.complete, c.downloaded, c.incomplete)])])
  | .scrape d s [] entries => do
      let (out, n) ← writeScrape (List.replicate (8 + entries.length * 12) 0) s.transactionId entries
      let jobs ← served sh d (.ok (.scrape s)) (.reply n) out
      some (w, jobs)
  | .count c => some ({ w with metrics := w.metrics.inc c, log := w.log ++ [.counted c] }, [])
  | .feed ip call =>
      let (detector, ban) :=
        w.detector.underShard order call.ip call.now (call.signal.apply w.detector.config call.now)
      some ({ w with detector }, if ban then [.record ip ⟨call.ip, call.now⟩] else [])
  | .record ip crossing =>
      let (detector, tier) := w.detector.recordOffence order crossing.ip crossing.now
      some ({ w with detector, log := w.log ++ [.offended ip tier] }, bans sh ip tier detector.config.banDuration)
  | .spawn ip tier duration => some ({ w with pool := w.pool ++ [.ban ip tier duration] }, [])
  | .send peer bytes => some ({ w with log := w.log ++ [.sent peer bytes] }, [])
  | .answer r =>
      let (path, query) := Http.splitTarget r.target
      if path = ascii "/scrape" then some (w, [.scrapeFiles r (Http.queryPairs query) []])
      else
        let (h, response) := HttpHandler.handle lib.itoa order ⟨w.store⟩ r.target (ipTo16 r.ip) r.ip.isIpv4
          (clampU32 (r.now / 60)) (intervalOf r.jitter)
        some ({ w with store := h.store, log := w.log ++ (httpOps r).map .stored }, answered lib sh r response)
  | .scrapeFiles r [] files => some (w, answered lib sh r (.body (Bencode.scrapeResponse lib.itoa [] files)))
  | .scrapeFiles r ((key, raw) :: pairs) files =>
      if key = ascii "info_hash" then
        if Http.maxScrapeHashes ≤ files.length then
          some (w, answered lib sh r (.body (Bencode.scrapeResponse lib.itoa [] files)))
        else
          match Http.decodeHash raw with
          | some hash => some (w, [.scrapeFiles r pairs (files ++ [(hash, w.store.scrape hash)])])
          | none => some (w, answered lib sh r .badRequest)
      else some (w, [.scrapeFiles r pairs files])
  | .respond r reply => some ({ w with log := w.log ++ [.responded r reply] }, [])

/-- A thread of the pool does what a piece of blocking work has still to do. -/
def unblock (w : World) (kernel : Nft.Element → Except String Unit) (k : Nat) : World :=
  match w.pool[k]? with
  | some (.ban ip tier duration) =>
      match sh.sink.ban kernel ip tier.toNat duration with
      | .ok element => { w with pool := w.pool.eraseIdx k, log := w.log ++ [.banned ip tier element] }
      | .error _ => { w with pool := w.pool.set k (.count .nftError), log := w.log ++ [.failed ip tier] }
  | some (.count c) =>
      { w with pool := w.pool.eraseIdx k, metrics := w.metrics.inc c, log := w.log ++ [.counted c] }
  | none => w

end Workers

/-- A step of the daemon: a worker receives a datagram, a connection reads a request, a task or a thread of
the pool goes on, the clock is set, or the collector passes over the store. -/
inductive Act (n : Nat) where
  | recv (t : Fin n) (peer : SocketAddr) (datagram : List UInt8) (jitter : Fin 360) (out : List UInt8)
  | request (t : Fin n) (peer : IpAddr) (target : List UInt8) (jitter : Fin 360)
  | run (t : Fin n) (order : HashOrder)
  | unblock (k : Nat) (kernel : Nft.Element → Except String Unit)
  | clock (nowSecs : UInt64)
  | gc (nowSecs : UInt64)

abbrev State (n : Nat) := Tasks.State n World Job

namespace State

variable {n : Nat} (lib : Libraries) (sh : Shared)

def init (n : Nat) (start : UInt64) : State n where
  world := ⟨Store.new, Detector.new sh.config.l7, Metrics.new, start, [], []⟩
  tasks := fun _ => []

def step (s : State n) : Act n → State n
  | .recv t peer datagram jitter out =>
      let d : Datagram := ⟨peer, datagram.take udpBuf, s.world.clock, jitter, out⟩
      s.start t (fun w => { w with log := w.log ++ [.received d] }) (fun _ => .handle d)
  | .request t peer target jitter =>
      let r : HttpRequest := ⟨peer, target, s.world.clock, jitter⟩
      s.start t (fun w => { w with log := w.log ++ [.requested r] }) (fun _ => .answer r)
  | .run t order => Tasks.State.run (exec lib sh) s t order
  | .unblock k kernel => { s with world := unblock sh s.world kernel k }
  | .clock nowSecs => { s with world := { s.world with clock := nowSecs } }
  | .gc nowSecs =>
      let now := clampU32 (nowSecs / 60)
      { s with world := { s.world with store := s.world.store.gc now, log := s.world.log ++ [.stored (.gc now)] } }

/-- The daemon after some steps, from its start. -/
def run (start : UInt64) (acts : List (Act n)) : State n := acts.foldl (step lib sh) (init sh n start)

end State
end Daemon
end Bluefrog
