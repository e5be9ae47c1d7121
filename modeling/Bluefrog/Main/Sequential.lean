import Bluefrog.Main.Steps

/-!
A turn of a worker, or of a connection, as one piece of code: what the tasks do when none interrupts another. The
worker of one thread is the daemon's, cut up at its locks and counters.
-/

open Rust Tasks

namespace Bluefrog

open Udp

namespace Daemon

def World.inc (w : World) (c : Counter) : World :=
  { w with metrics := w.metrics.inc c, log := w.log ++ [.counted c] }

section

variable (lib : Libraries) (sh : Shared)

/-- What a verdict leads to. -/
def World.punish (w : World) (ip : IpAddr) : Verdict → World
  | .allow => w
  | .ban duration tier =>
      let w : World := { w with log := w.log ++ [.offended ip tier] }
      let w := w.inc .l7Ban
      let w := if 0 < tier then w.inc .l7BanEscalated else w
      if sh.config.nftEnable then { w with pool := w.pool ++ [.ban ip tier duration] } else w

/-- What a worker does about a datagram that it has handled, in one go. -/
def World.settle (w : World) (d : Datagram) (parsed : Except ParseError Request) (action : Action) (out : List UInt8)
    (detector : Detector) (verdict : Verdict) : World :=
  let w := w.inc (recordUdpMetric parsed action)
  let w := World.punish sh { w with detector } d.ip verdict
  match action with
  | .reply len => { w with log := w.log ++ [.sent d.peer (out.take len)] }
  | _ => w

/-- A turn of a worker. -/
def workerTurn (order : HashOrder) (w : World) (d : Datagram) : Option World := do
  let parsed ← parse d.buf
  let served ← udpWorker lib.blake3 order sh.config.l7Enable ⟨w.store, sh.connid⟩ w.detector d.peer.ip d.buf d.now
    (intervalOf d.jitter) d.out
  let w : World :=
    { w with store := served.handler.store, log := w.log ++ (udpOps lib sh d parsed).map Event.stored }
  some (w.settle sh d parsed served.action served.out served.detector served.verdict)

/-- What a connection does about a response. -/
def World.answer (w : World) (r : HttpRequest) (response : Response) : World :=
  let (w, reply) : World × HttpReply :=
    match response with
    | .body b =>
        (if (ascii "/announce").isPrefixOf r.target then w.inc .httpAnnounce
          else if (ascii "/scrape").isPrefixOf r.target then w.inc .httpScrape
          else w, httpReply 200 b)
    | .redirect => (w, redirectReply lib sh)
    | .badRequest => (w.inc .error, httpReply 400 (ascii "400"))
    | .notFound => (w, httpReply 404 (ascii "404"))
  { w with log := w.log ++ [.responded r reply] }

/-- A turn of a connection. -/
def connectionTurn (order : HashOrder) (w : World) (r : HttpRequest) : World :=
  let (h, response) := HttpHandler.handle lib.itoa order ⟨w.store⟩ r.target (ipTo16 r.ip) r.ip.isIpv4
    (clampU32 (r.now / 60)) (intervalOf r.jitter)
  let w : World := { w with store := h.store, log := w.log ++ (httpOps r).map Event.stored }
  w.answer lib sh r response

end

section

variable {lib : Libraries} {sh : Shared} {order : HashOrder}

theorem drains_count (w : World) (c : Counter) : Drains (exec lib sh) order w [.count c] (w.inc c) := .single rfl

theorem drains_bans (w : World) (ip : IpAddr) (duration tier : UInt32) :
    Drains (exec lib sh) order { w with log := w.log ++ [.offended ip tier] } (bans sh ip tier duration)
      (w.punish sh ip (.ban duration tier)) := by
  have hban : Drains (exec lib sh) order { w with log := w.log ++ [.offended ip tier] } [.count .l7Ban]
      (World.inc { w with log := w.log ++ [.offended ip tier] } .l7Ban) := drains_count _ _
  have hescalated : ∀ w : World, Drains (exec lib sh) order w (if 0 < tier then [.count .l7BanEscalated] else [])
      (if 0 < tier then w.inc .l7BanEscalated else w) := by
    intro w
    split_ifs
    · exact drains_count _ _
    · exact .done _
  have hspawn : ∀ w : World, Drains (exec lib sh) order w
      (if sh.config.nftEnable then [.spawn ip tier duration] else [])
      (if sh.config.nftEnable then { w with pool := w.pool ++ [.ban ip tier duration] } else w) := by
    intro w
    split_ifs
    · exact .single rfl
    · exact .done _
  exact (hban.append (hescalated _)).append (hspawn _)

/-- A source is scored, and recorded if it is to be banned: that is a whole call of the detector. -/
theorem drains_feed (w : World) (ip : IpAddr) (call : Call) :
    Drains (exec lib sh) order w [.feed ip call]
      (World.punish sh { w with detector := (w.detector.exec order call).1 } ip (w.detector.exec order call).2) := by
  rw [Detector.exec_eq]
  rcases hscore : w.detector.underShard order call.ip call.now (call.signal.apply w.detector.config call.now) with
    ⟨detector, ban⟩
  have hfeed : exec lib sh order w (.feed ip call) =
      some ({ w with detector }, if ban then [.record ip ⟨call.ip, call.now⟩] else []) := by
    simp only [exec, hscore]
  refine .next hfeed ?_
  rw [List.append_nil]
  cases ban with
  | false => exact .done _
  | true =>
      rcases hrecord : detector.recordOffence order call.ip call.now with ⟨detector', tier⟩
      have hexec : exec lib sh order { w with detector } (.record ip ⟨call.ip, call.now⟩) =
          some ({ w with detector := detector', log := w.log ++ [.offended ip tier] },
            bans sh ip tier detector'.config.banDuration) := by
        simp only [exec, hrecord]
      have hdecide : detector.decide order call.ip true call.now =
          (detector', .ban detector'.config.banDuration tier) := by
        rw [Detector.decide, if_pos rfl, hrecord]
      refine .next hexec ?_
      rw [List.append_nil, hdecide]
      exact drains_bans { w with detector := detector' } ip _ tier

/-- What the detector makes of what it is fed about a datagram. -/
def fed (sh : Shared) (order : HashOrder) (detector : Detector) (d : Datagram) : List Signal → Detector × Verdict
  | [] => (detector, .allow)
  | signal :: _ =>
      if sh.config.l7Enable then detector.exec order ⟨ipTo16 d.ip, signal, clampU32 d.now⟩ else (detector, .allow)

variable (sh order) in
theorem feedL7_eq (detector : Detector) {d : Datagram} {parsed : Except ParseError Request} {action : Action}
    {out : List UInt8} {signals : List Signal} (h : l7Signals parsed d.ip action out = some signals) :
    (if sh.config.l7Enable then feedL7 order detector parsed d.ip (ipTo16 d.ip) action out (clampU32 d.now)
      else some (detector, .allow)) = some (fed sh order detector d signals) := by
  unfold feedL7
  unfold l7Signals at h
  cases hl7 : sh.config.l7Enable with
  | false => cases signals <;> simp [fed, hl7]
  | true =>
      rw [if_pos rfl]
      split_ifs at h ⊢ with hmismatch
      · cases h
        simp [fed, hl7]
        rfl
      · cases parsed with
        | error e =>
            cases h
            rfl
        | ok request =>
            cases request with
            | connect transactionId | announce a =>
                cases h
                simp [fed, hl7]
                rfl
            | scrape s =>
                obtain ⟨hashes, hhashes, heq⟩ := Option.map_eq_some_iff.mp h
                cases heq
                simp [fed, hl7, hhashes]
                rfl

theorem drains_feeds (w : World) (d : Datagram) (signal : Signal) :
    Drains (exec lib sh) order w (feeds sh d [signal])
      (World.punish sh { w with detector := (fed sh order w.detector d [signal]).1 } d.ip
        (fed sh order w.detector d [signal]).2) := by
  unfold feeds fed
  split_ifs
  · exact drains_feed w d.ip _
  · exact .done w

/-- The jobs of a datagram that is answered, drained, settle it. -/
theorem drains_answered (w : World) (d : Datagram) (parsed : Except ParseError Request) (signal : Signal)
    {out : List UInt8} {len : Nat} (hlen : out.length = len) :
    Drains (exec lib sh) order w
      (.count (recordUdpMetric parsed (.reply len)) :: feeds sh d [signal] ++ [.send d.peer out])
      (w.settle sh d parsed (.reply len) out (fed sh order w.detector d [signal]).1
        (fed sh order w.detector d [signal]).2) := by
  have hsend : ∀ w : World, Drains (exec lib sh) order w [.send d.peer out]
      { w with log := w.log ++ [.sent d.peer (out.take len)] } := by
    intro w
    rw [← hlen, List.take_length]
    exact .single rfl
  exact ((drains_count w _).append (drains_feeds (w.inc _) d signal)).append (hsend _)

/-- Reading the info-hashes of a scrape, one after the other, is reading them all at once. -/
theorem drains_scrape (w : World) {w' : World} (d : Datagram) (s : Scrape) (todo : List InfoHash)
    (entries : List (UInt32 × UInt32 × UInt32)) (h : Drains (exec lib sh) order w
      [.scrape d s [] (entries ++ todo.map fun hash => ((w.store.scrape hash).complete,
        (w.store.scrape hash).downloaded, (w.store.scrape hash).incomplete))] w') :
    Drains (exec lib sh) order w [.scrape d s todo entries] w' := by
  induction todo generalizing entries with
  | nil => rwa [List.map_nil, List.append_nil] at h
  | cons hash todo ih =>
      refine .next rfl ?_
      rw [List.append_nil]
      refine ih _ ?_
      rw [List.append_assoc]
      exact h

theorem workerTurn_eq (w : World) {d : Datagram} {parsed : Except ParseError Request}
    (hparse : parse d.buf = some parsed) {action : Action} {h : Handler} {out : List UInt8}
    (hhandle : Handler.handle lib.blake3 order ⟨w.store, sh.connid⟩ d.buf (ipTo16 d.ip) d.ip.isIpv4 d.now
      (intervalOf d.jitter) d.out = some (action, h, out))
    {signals : List Signal} (hsignals : l7Signals parsed d.ip action out = some signals) :
    workerTurn lib sh order w d = some (World.settle sh
      { w with store := h.store, log := w.log ++ (udpOps lib sh d parsed).map Event.stored } d parsed action out
      (fed sh order w.detector d signals).1 (fed sh order w.detector d signals).2) := by
  simp only [workerTurn, udpWorker, hparse, Option.bind_eq_bind, Option.bind_some]
  change ((Handler.handle lib.blake3 order ⟨w.store, sh.connid⟩ d.buf (ipTo16 d.ip) d.ip.isIpv4 d.now
    (intervalOf d.jitter) d.out).bind _).bind _ = _
  rw [hhandle, Option.bind_some]
  have hfeed := feedL7_eq sh order w.detector hsignals
  cases hl7 : sh.config.l7Enable with
  | false =>
      simp only [hl7, Bool.false_eq_true, if_false, Option.some.injEq] at hfeed ⊢
      rw [← hfeed]
      rfl
  | true =>
      simp only [hl7, if_true] at hfeed ⊢
      change ((feedL7 order w.detector parsed d.ip (ipTo16 d.ip) action out (clampU32 d.now)).bind _).bind _ = _
      rw [hfeed]
      rfl

/-- What a worker finds out about a datagram whose connection id is no good. -/
theorem Claims.refused {d : Datagram} {id : UInt64} (h : Claims d id) (w : World) (hid : ¬Validates lib sh d id) :
    ∃ parsed, parse d.buf = some parsed ∧ Handler.handle lib.blake3 order ⟨w.store, sh.connid⟩ d.buf (ipTo16 d.ip)
      d.ip.isIpv4 d.now (intervalOf d.jitter) d.out = some (.connidMismatch, ⟨w.store, sh.connid⟩, d.out) ∧
      udpOps lib sh d parsed = [] := by
  have hid := Bool.eq_false_iff.mpr hid
  cases h with
  | announce a hparse heq =>
      subst heq
      refine ⟨_, hparse, Handler.handle_announce_mismatch lib.blake3 order ⟨w.store, sh.connid⟩ (ipTo16 d.ip)
        d.ip.isIpv4 d.now (intervalOf d.jitter) d.out hparse hid, ?_⟩
      rw [udpOps, hid]
      rfl
  | scrape s hparse heq =>
      subst heq
      exact ⟨_, hparse, Handler.handle_scrape_mismatch lib.blake3 order ⟨w.store, sh.connid⟩ (ipTo16 d.ip)
        d.ip.isIpv4 d.now (intervalOf d.jitter) d.out hparse hid, rfl⟩

variable (lib sh order) in
/-- A worker that nothing interrupts takes a turn of the one-thread worker. -/
theorem drains_handle (w : World) (d : Datagram) :
    ∃ w', workerTurn lib sh order w d = some w' ∧ Drains (exec lib sh) order w [.handle d] w' := by
  obtain ⟨w₁, new, hexec, hruns⟩ := runs_exec lib sh order w (.handle d)
  suffices hdrains : ∃ w', workerTurn lib sh order w d = some w' ∧ Drains (exec lib sh) order w₁ new w' by
    obtain ⟨w', hturn, hdrains⟩ := hdrains
    exact ⟨w', hturn, .next hexec (by rwa [List.append_nil])⟩
  have hkeep : ({ w with store := w.store, log := w.log ++ ([] : List Op).map Event.stored } : World) = w := by
    rw [List.map_nil, List.append_nil]
  cases hruns with
  | dropped d e hparse =>
      have hhandle := Handler.handle_error lib.blake3 order ⟨w.store, sh.connid⟩ (ipTo16 d.ip) d.ip.isIpv4 d.now
        (intervalOf d.jitter) d.out hparse
      have hsignals : l7Signals (.error e) d.ip .drop d.out = some [] := rfl
      have hops : udpOps lib sh d (.error e) = [] := rfl
      have hturn := workerTurn_eq w hparse hhandle hsignals
      rw [hops, hkeep] at hturn
      exact ⟨_, hturn, drains_count w _⟩
  | connected d transactionId hparse =>
      have hhandle := Handler.handle_connect lib.blake3 order ⟨w.store, sh.connid⟩ (ipTo16 d.ip) d.ip.isIpv4 d.now
        (intervalOf d.jitter) d.out hparse
      have hops : udpOps lib sh d (.ok (.connect transactionId)) = [] := rfl
      have hturn := workerTurn_eq w hparse hhandle rfl
      rw [hops, hkeep] at hturn
      refine ⟨_, hturn, drains_answered w d (.ok (.connect transactionId)) .connect ?_⟩
      simp only [connectReply, List.length_append, length_toBe32, length_toBe64]
  | refused d id hclaims hid =>
      obtain ⟨parsed, hparse, hhandle, hops⟩ := hclaims.refused w hid
      have hsignals : l7Signals parsed d.ip .connidMismatch d.out = some [.connidMismatch] := if_pos rfl
      have hturn := workerTurn_eq w hparse hhandle hsignals
      rw [hops, hkeep] at hturn
      exact ⟨_, hturn, (drains_count w _).append (drains_feeds (w.inc _) d .connidMismatch)⟩
  | announced d a hparse hid =>
      have hhandle := Handler.handle_announce_eq lib.blake3 order ⟨w.store, sh.connid⟩ (ipTo16 d.ip) d.ip.isIpv4 d.now
        (intervalOf d.jitter) d.out hparse hid
      dsimp only at hhandle
      rw [announcedKeys_eq order w.store a (ipTo16 d.ip) d.ip.isIpv4 d.now (List.replicate 20 0)] at hhandle
      have hops : udpOps lib sh d (.ok (.announce a)) = [udpOp d a] := if_pos hid
      have hturn := workerTurn_eq w hparse hhandle rfl
      rw [hops] at hturn
      refine ⟨_, hturn, drains_answered _ d (.ok (.announce a)) _ ?_⟩
      simp only [announceReply, announceHeader, List.length_append, length_toBe32]
      rfl
  | scraping d s hashes hparse hhashes hid =>
      have hhandle := Handler.handle_scrape lib.blake3 order ⟨w.store, sh.connid⟩ (ipTo16 d.ip) d.ip.isIpv4 d.now
        (intervalOf d.jitter) d.out hparse hhashes hid
      have hsignals : ∀ out, l7Signals (.ok (.scrape s)) d.ip (.reply (8 + hashes.length * 12)) out =
          some [.scrape hashes.length] := fun out => by
        simp only [l7Signals, hhashes, reduceCtorEq, if_false, Option.map_some]
      have hops : udpOps lib sh d (.ok (.scrape s)) = [] := rfl
      have hturn := workerTurn_eq w hparse hhandle (hsignals _)
      have hout : scrapeReplyOf s.transactionId (hashes.map fun hash => ((w.store.scrape hash).complete,
          (w.store.scrape hash).downloaded, (w.store.scrape hash).incomplete)) =
            toBe32 2 ++ toBe32 s.transactionId ++ hashes.flatMap fun hash => scrapeEntry (w.store.scrape hash) := by
        rw [scrapeReplyOf, List.flatMap_map]
        rfl
      rw [hops, hkeep, ← hout] at hturn
      refine ⟨_, hturn, drains_scrape w d s hashes [] ?_⟩
      obtain ⟨w₂, new, hexec, hruns⟩ := runs_exec lib sh order w (.scrape d s [] (hashes.map fun hash =>
        ((w.store.scrape hash).complete, (w.store.scrape hash).downloaded, (w.store.scrape hash).incomplete)))
      refine .next hexec ?_
      rw [List.append_nil]
      cases hruns with
      | scraped d s hashes' entries hhashes' =>
          cases Option.some.inj (hhashes.symm.trans hhashes')
          refine drains_answered w d (.ok (.scrape s)) (.scrape hashes.length) ?_
          rw [hout]
          rw [List.length_append, List.length_append, length_toBe32, length_toBe32,
            length_flatMap_const fun hash => length_scrapeEntry _]

theorem drains_response (w : World) (r : HttpRequest) (response : Response) :
    Drains (exec lib sh) order w (answered lib sh r response) (w.answer lib sh r response) := by
  have hrespond : ∀ (w : World) (reply : HttpReply), Drains (exec lib sh) order w [.respond r reply]
      { w with log := w.log ++ [.responded r reply] } := fun w reply => .single rfl
  unfold answered World.answer
  cases response with
  | redirect | notFound => exact hrespond w _
  | badRequest => exact (drains_count w .error).append (hrespond _ _)
  | body b =>
      dsimp only
      split_ifs
      · exact (drains_count w .httpAnnounce).append (hrespond _ _)
      · exact (drains_count w .httpScrape).append (hrespond _ _)
      · exact hrespond w _

/-- Going through the loop of an HTTP scrape with other jobs in between is going through it at once. -/
theorem drains_scrapeFiles (w : World) (r : HttpRequest) (pairs : List (List UInt8 × List UInt8))
    (files : List (InfoHash × Counts)) : Drains (exec lib sh) order w [.scrapeFiles r pairs files]
      (w.answer lib sh r
        (match Http.scrapeFiles w.store pairs files with
        | .error response => response
        | .ok files => .body (Bencode.scrapeResponse lib.itoa [] files))) := by
  induction pairs generalizing files with
  | nil =>
      refine .next rfl ?_
      rw [List.append_nil]
      exact drains_response w r _
  | cons pair pairs ih =>
      obtain ⟨key, raw⟩ := pair
      have hnext : ∀ {new : List Job} {w' : World},
          exec lib sh order w (.scrapeFiles r ((key, raw) :: pairs) files) = some (w, new) →
            Drains (exec lib sh) order w new w' →
              Drains (exec lib sh) order w [.scrapeFiles r ((key, raw) :: pairs) files] w' :=
        fun hexec h => .next hexec (by rwa [List.append_nil])
      rw [Http.scrapeFiles]
      by_cases hkey : key = ascii "info_hash"
      · rw [if_pos hkey]
        by_cases hfull : Http.maxScrapeHashes ≤ files.length
        · rw [if_pos hfull]
          exact hnext (by rw [exec, if_pos hkey, if_pos hfull]) (drains_response w r _)
        · rw [if_neg hfull]
          cases hdecode : Http.decodeHash raw with
          | none => exact hnext (by rw [exec, if_pos hkey, if_neg hfull, hdecode]) (drains_response w r _)
          | some hash => exact hnext (by rw [exec, if_pos hkey, if_neg hfull, hdecode]) (ih _)
      · rw [if_neg hkey]
        exact hnext (by rw [exec, if_neg hkey]) (ih _)

/-- A connection that nothing interrupts takes a turn of the one-thread connection. -/
theorem drains_answer (w : World) (r : HttpRequest) :
    Drains (exec lib sh) order w [.answer r] (connectionTurn lib sh order w r) := by
  have hhandle := HttpHandler.handle_eq lib.itoa order ⟨w.store⟩ r.target (ipTo16 r.ip) r.ip.isIpv4
    (clampU32 (r.now / 60)) (intervalOf r.jitter)
  by_cases hscrape : (Http.splitTarget r.target).1 = ascii "/scrape"
  · have hroot : ascii "/scrape" ≠ ascii "/" := by decide
    have hann : ascii "/scrape" ≠ ascii "/announce" := by decide
    rw [hscrape, if_neg hroot, if_neg hann, if_pos rfl] at hhandle
    have hexec : exec lib sh order w (.answer r) = some (w, [.scrapeFiles r r.pairs []]) := if_pos hscrape
    refine .next hexec ?_
    rw [List.append_nil, connectionTurn, hhandle, httpOps_of_ne (by rw [HttpRequest.path, hscrape]; decide),
      List.map_nil, List.append_nil]
    exact drains_scrapeFiles w r r.pairs []
  · have hexec : exec lib sh order w (.answer r) = some
        ({ w with
          store := (HttpHandler.handle lib.itoa order ⟨w.store⟩ r.target (ipTo16 r.ip) r.ip.isIpv4
            (clampU32 (r.now / 60)) (intervalOf r.jitter)).1.store
          log := w.log ++ (httpOps r).map Event.stored },
          answered lib sh r (HttpHandler.handle lib.itoa order ⟨w.store⟩ r.target (ipTo16 r.ip) r.ip.isIpv4
            (clampU32 (r.now / 60)) (intervalOf r.jitter)).2) := if_neg hscrape
    refine .next hexec ?_
    rw [List.append_nil]
    exact drains_response _ r _

theorem drains_acts {n : Nat} {w w' : World} {jobs : List Job} (h : Drains (exec lib sh) order w jobs w')
    (tasks : Fin n → List Job) (t : Fin n) : ∃ k, (List.replicate k (Act.run t order)).foldl (State.step lib sh)
      ⟨w, Function.update tasks t jobs⟩ = ⟨w', Function.update tasks t []⟩ := by
  obtain ⟨k, hk⟩ := h.run tasks t
  refine ⟨k, ?_⟩
  rw [← List.map_replicate, List.foldl_map]
  exact hk

/-- **The daemon is its code, cut up.** A task that nothing interrupts does with a datagram what a worker of one thread
does in one go, and with a request what one connection alone does: the same store, detector, counters, bans, and
answers, in the same order. -/
theorem turns_sequential {n : Nat} (lib : Libraries) (sh : Shared) (order : HashOrder) (w : World)
    (tasks : Fin n → List Job) (t : Fin n) :
    (∀ d, ∃ w' k, workerTurn lib sh order w d = some w' ∧
      (List.replicate k (Act.run t order)).foldl (State.step lib sh) ⟨w, Function.update tasks t [.handle d]⟩ =
        ⟨w', Function.update tasks t []⟩) ∧
    ∀ r, ∃ k, (List.replicate k (Act.run t order)).foldl (State.step lib sh) ⟨w, Function.update tasks t [.answer r]⟩ =
      ⟨connectionTurn lib sh order w r, Function.update tasks t []⟩ := by
  constructor
  · intro d
    obtain ⟨w', hturn, hdrains⟩ := drains_handle lib sh order w d
    obtain ⟨k, hk⟩ := drains_acts hdrains tasks t
    exact ⟨w', k, hturn, hk⟩
  · intro r
    exact drains_acts (drains_answer w r) tasks t

end
end Daemon
end Bluefrog
