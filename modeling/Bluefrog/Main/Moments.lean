import Bluefrog.Core.Commute
import Bluefrog.Lib.History
import Bluefrog.Main.Ledgers

/-!
What the answers say. Each is the one that its handler gives at some moment between the coming in of what it
answers and its own going out: an announce at its call of the store, a scrape at one moment for each info-hash.
-/

open Rust Tasks

namespace Bluefrog

open Udp

namespace Daemon

/-- The calls of the store in a log. -/
def opsOf (log : List Event) : List Op :=
  log.filterMap fun
    | .stored op => some op
    | _ => none

/-- The store at the end of a log. -/
noncomputable def storeAfter (log : List Event) : Store := Store.run HashOrder.arbitrary (opsOf log)

/-- The counts of some info-hashes, read one after the other in the course of a log, all of them after an event. -/
inductive Reads (e : Event) : List Event → List InfoHash → List Counts → Prop where
  | nil (past : List Event) : Reads e past [] []
  | read {before : List Event} (after : List Event) {hashes : List InfoHash} {counts : List Counts} (hash : InfoHash)
      (h : Reads e before hashes counts) (hevent : e ∈ before) :
      Reads e (before ++ after) (hashes ++ [hash]) (counts ++ [(storeAfter before).scrape hash])

/-- The numbers of a scrape reply, in their order. -/
def numbers (c : Counts) : UInt32 × UInt32 × UInt32 := (c.complete, c.downloaded, c.incomplete)

section

variable (lib : Libraries) (sh : Shared)

/-- What answers a datagram that has come in. -/
inductive Replies (past : List Event) (d : Datagram) : List UInt8 → Prop where
  | connect (transactionId : UInt32) (hparse : parse d.buf = some (.ok (.connect transactionId)))
      (hevent : .received d ∈ past) : Replies past d (connectReply lib sh d transactionId)
  | announce (a : Announce) (order : HashOrder) (before after : List Event)
      (hparse : parse d.buf = some (.ok (.announce a))) (hid : Validates lib sh d a.connectionId)
      (hevent : .received d ∈ before) (hpast : past = before ++ .stored (udpOp d a) :: after) :
      Replies past d (announceReply order (storeAfter before) d a)
  | scrape (s : Scrape) (hashes : List InfoHash) (counts : List Counts)
      (hparse : parse d.buf = some (.ok (.scrape s))) (hid : Validates lib sh d s.connectionId)
      (hhashes : s.iterHashes = some hashes) (hevent : .received d ∈ past)
      (hreads : Reads (.received d) past hashes counts) :
      Replies past d (scrapeReplyOf s.transactionId (counts.map numbers))

/-- What responds to a request that has come in. -/
inductive Responds (past : List Event) (r : HttpRequest) : HttpReply → Prop where
  | announced (p : Http.Params) (hash : InfoHash) (port : UInt16) (order : HashOrder) (before after : List Event)
      (hpath : r.path = ascii "/announce") (hp : r.params = .ok p) (hhash : p.infoHash = some hash)
      (hport : p.port = some port) (hevent : .requested r ∈ before)
      (hpast : past = before ++ .stored (httpOp r p hash port) :: after) :
      Responds past r
        (httpReply 200 (httpAnnounceBody lib order (storeAfter before) r (httpOp r p hash port) hash))
  | forgot (p : Http.Params) (hpath : r.path = ascii "/announce") (hp : r.params = .ok p) (hforgets : Forgets p)
      (hevent : .requested r ∈ past) :
      Responds past r (httpReply 200 (Bencode.failure lib.itoa []
        (ascii "Your client forgot to send your torrent's info_hash.")))
  | refused (response : Response) (hpath : r.path = ascii "/announce") (hp : r.params = .error response)
      (hevent : .requested r ∈ past) : Responds past r (httpReply 400 (ascii "400"))
  | scraped (hashes : List InfoHash) (counts : List Counts) (hpath : r.path = ascii "/scrape")
      (hhashes : scrapeReads r.pairs 0 = some hashes) (hevent : .requested r ∈ past)
      (hreads : Reads (.requested r) past hashes counts) :
      Responds past r (httpReply 200 (Bencode.scrapeResponse lib.itoa [] (hashes.zip counts)))
  | bad (hpath : r.path = ascii "/scrape") (hhashes : scrapeReads r.pairs 0 = none) (hevent : .requested r ∈ past) :
      Responds past r (httpReply 400 (ascii "400"))
  | redirected (hpath : r.path = ascii "/") (hevent : .requested r ∈ past) : Responds past r (redirectReply lib sh)
  | missed (hpath : r.path ≠ ascii "/announce" ∧ r.path ≠ ascii "/scrape" ∧ r.path ≠ ascii "/")
      (hevent : .requested r ∈ past) : Responds past r (httpReply 404 (ascii "404"))

/-- A call of the store is the collector's, or is made for what has come in. -/
inductive Backed (past : List Event) : Op → Prop where
  | udp (d : Datagram) (a : Announce) (hparse : parse d.buf = some (.ok (.announce a)))
      (hid : Validates lib sh d a.connectionId) (hevent : .received d ∈ past) : Backed past (udpOp d a)
  | http (r : HttpRequest) (p : Http.Params) (hash : InfoHash) (port : UInt16) (hpath : r.path = ascii "/announce")
      (hp : r.params = .ok p) (hhash : p.infoHash = some hash) (hport : p.port = some port)
      (hevent : .requested r ∈ past) : Backed past (httpOp r p hash port)
  | gc (now : UInt32) : Backed past (.gc now)

/-- The event is one that those before it explain. -/
def Explained (past : List Event) : Event → Prop
  | .stored op => Backed lib sh past op
  | .sent peer bytes => ∃ d, d.peer = peer ∧ Replies lib sh past d bytes
  | .responded r reply => Responds lib sh past r reply
  | _ => True

/-- The job is one that the events so far explain. -/
def Job.Explained (past : List Event) : Job → Prop
  | .handle d => .received d ∈ past
  | .scrape d s todo entries => .received d ∈ past ∧ parse d.buf = some (.ok (.scrape s)) ∧
      Validates lib sh d s.connectionId ∧ ∃ read counts, s.iterHashes = some (read ++ todo) ∧
        Reads (.received d) past read counts ∧ entries = counts.map numbers
  | .send peer bytes => ∃ d, d.peer = peer ∧ Replies lib sh past d bytes
  | .answer r => .requested r ∈ past
  | .scrapeFiles r pairs files => .requested r ∈ past ∧ r.path = ascii "/scrape" ∧ ∃ read counts,
      scrapeReads r.pairs 0 = (scrapeReads pairs files.length).map (fun hashes => read ++ hashes) ∧
        Reads (.requested r) past read counts ∧ files = read.zip counts
  | .respond r reply => Responds lib sh past r reply
  | _ => True

end

section

variable {n : Nat} {lib : Libraries} {sh : Shared} {past : List Event}

theorem storeAfter_stored (order : HashOrder) (log : List Event) (op : Op) :
    storeAfter (log ++ [.stored op]) = (storeAfter log).step order op := by
  have hops : opsOf (log ++ [.stored op]) = opsOf log ++ [op] := List.filterMap_append
  rw [storeAfter, hops, Store.run_append_singleton, ← storeAfter, Store.step_order HashOrder.arbitrary order]

theorem storeAfter_of_opsOf_nil {e : Event} (h : opsOf [e] = []) (log : List Event) :
    storeAfter (log ++ [e]) = storeAfter log := by
  rw [storeAfter, opsOf, List.filterMap_append, ← opsOf, ← opsOf, h, List.append_nil, ← storeAfter]

theorem Reads.length_eq {e : Event} {hashes : List InfoHash} {counts : List Counts} (h : Reads e past hashes counts) :
    hashes.length = counts.length := by
  induction h with
  | nil => rfl
  | read after hash h hevent ih => rw [List.length_append, List.length_append, ih]; rfl

theorem Reads.grow {e : Event} {hashes : List InfoHash} {counts : List Counts} (h : Reads e past hashes counts)
    (more : List Event) : Reads e (past ++ more) hashes counts := by
  cases h with
  | nil => exact .nil _
  | read after hash h hevent =>
      rw [List.append_assoc]
      exact .read (after ++ more) hash h hevent

/-- One more info-hash is read, now. -/
theorem Reads.now {e : Event} {hashes : List InfoHash} {counts : List Counts} (h : Reads e past hashes counts)
    (hevent : e ∈ past) (hash : InfoHash) :
    Reads e past (hashes ++ [hash]) (counts ++ [(storeAfter past).scrape hash]) := by
  have hread := Reads.read [] hash h hevent
  rwa [List.append_nil] at hread

theorem Replies.grow {d : Datagram} {bytes : List UInt8} (h : Replies lib sh past d bytes) (more : List Event) :
    Replies lib sh (past ++ more) d bytes := by
  cases h with
  | connect transactionId hparse hevent => exact .connect transactionId hparse (List.mem_append_left _ hevent)
  | announce a order before after hparse hid hevent hpast =>
      exact .announce a order before (after ++ more) hparse hid hevent (by rw [hpast, List.append_assoc]; rfl)
  | scrape s hashes counts hparse hid hhashes hevent hreads =>
      exact .scrape s hashes counts hparse hid hhashes (List.mem_append_left _ hevent) (hreads.grow more)

theorem Responds.grow {r : HttpRequest} {reply : HttpReply} (h : Responds lib sh past r reply) (more : List Event) :
    Responds lib sh (past ++ more) r reply := by
  cases h with
  | announced p hash port order before after hpath hp hhash hport hevent hpast =>
      exact .announced p hash port order before (after ++ more) hpath hp hhash hport hevent
        (by rw [hpast, List.append_assoc]; rfl)
  | forgot p hpath hp hforgets hevent => exact .forgot p hpath hp hforgets (List.mem_append_left _ hevent)
  | refused response hpath hp hevent => exact .refused response hpath hp (List.mem_append_left _ hevent)
  | scraped hashes counts hpath hhashes hevent hreads =>
      exact .scraped hashes counts hpath hhashes (List.mem_append_left _ hevent) (hreads.grow more)
  | bad hpath hhashes hevent => exact .bad hpath hhashes (List.mem_append_left _ hevent)
  | redirected hpath hevent => exact .redirected hpath (List.mem_append_left _ hevent)
  | missed hpath hevent => exact .missed hpath (List.mem_append_left _ hevent)

theorem Job.Explained.grow {job : Job} (h : job.Explained lib sh past) (more : List Event) :
    job.Explained lib sh (past ++ more) := by
  cases job with
  | handle d => exact List.mem_append_left _ h
  | answer r => exact List.mem_append_left _ h
  | scrape d s todo entries =>
      obtain ⟨hevent, hparse, hid, read, counts, hhashes, hreads, hentries⟩ := h
      exact ⟨List.mem_append_left _ hevent, hparse, hid, read, counts, hhashes, hreads.grow more, hentries⟩
  | scrapeFiles r pairs files =>
      obtain ⟨hevent, hpath, read, counts, hhashes, hreads, hfiles⟩ := h
      exact ⟨List.mem_append_left _ hevent, hpath, read, counts, hhashes, hreads.grow more, hfiles⟩
  | send peer bytes =>
      obtain ⟨d, hpeer, hreplies⟩ := h
      exact ⟨d, hpeer, hreplies.grow more⟩
  | respond r reply => exact Responds.grow h more
  | _ => trivial

/-- The store is that of the log, and every event is explained by those before it. -/
structure Consistent (lib : Libraries) (sh : Shared) (w : World) : Prop where
  store : w.store = storeAfter w.log
  explained : History.AtEach (Explained lib sh) w.log

theorem Consistent.event {w w' : World} (h : Consistent lib sh w) {e : Event} (hlog : w'.log = w.log ++ [e])
    (hstore : w'.store = w.store) (hops : opsOf [e] = []) (he : Explained lib sh w.log e) :
    Consistent lib sh w' where
  store := by rw [hstore, hlog, storeAfter_of_opsOf_nil hops, h.store]
  explained := by
    rw [hlog]
    exact (History.atEach_append_singleton _ _ _).mpr ⟨h.explained, he⟩

theorem Consistent.same {w w' : World} (h : Consistent lib sh w) (hlog : w'.log = w.log)
    (hstore : w'.store = w.store) : Consistent lib sh w' :=
  ⟨by rw [hstore, hlog, h.store], by rw [hlog]; exact h.explained⟩

theorem Consistent.stored {w w' : World} (h : Consistent lib sh w) {op : Op} (order : HashOrder)
    (hlog : w'.log = w.log ++ [.stored op]) (hstore : w'.store = w.store.step order op)
    (hop : Backed lib sh w.log op) : Consistent lib sh w' where
  store := by rw [hstore, hlog, storeAfter_stored order, h.store]
  explained := by
    rw [hlog]
    exact (History.atEach_append_singleton _ _ _).mpr ⟨h.explained, hop⟩

theorem Consistent.runs {order : HashOrder} {w w' : World} {job : Job} {new : List Job} (h : Consistent lib sh w)
    (hjob : job.Explained lib sh w.log) (hruns : Runs lib sh order w job w' new) : Consistent lib sh w' := by
  cases hruns with
  | announced d a hparse hid => exact h.stored order rfl rfl (.udp d a hparse hid hjob)
  | httpAnnounced r p hash port hpath hp hhash hport =>
      exact h.stored order rfl rfl (.http r p hash port hpath hp hhash hport hjob)
  | counts | records => exact h.event rfl rfl rfl trivial
  | sends | responds => exact h.event rfl rfl rfl hjob
  | _ => exact h.same rfl rfl

theorem explained_served {c : Counter} {d : Datagram} {signals : List Signal} {bytes : List UInt8}
    (h : Replies lib sh past d bytes) :
    ∀ job ∈ .count c :: feeds sh d signals ++ [.send d.peer bytes], job.Explained lib sh past := by
  simp only [List.forall_mem_cons, List.forall_mem_append]
  exact ⟨⟨trivial, forall_mem_feeds (fun _ _ => trivial) d signals⟩, ⟨d, rfl, h⟩, fun _ h => absurd h List.not_mem_nil⟩

theorem explained_counted {c : Counter} {r : HttpRequest} {reply : HttpReply} (h : Responds lib sh past r reply) :
    ∀ job ∈ [Job.count c, .respond r reply], job.Explained lib sh past :=
  List.forall_mem_cons.mpr ⟨trivial, List.forall_mem_singleton.mpr h⟩

theorem explained_runs {order : HashOrder} {w w' : World} {job : Job} {new : List Job} (h : Consistent lib sh w)
    (hjob : job.Explained lib sh w.log) (hruns : Runs lib sh order w job w' new) :
    ∀ job' ∈ new, job'.Explained lib sh w'.log := by
  cases hruns with
  | dropped | counts | spawns | sends | responds => simp [Job.Explained]
  | connected d transactionId hparse => exact explained_served (.connect transactionId hparse hjob)
  | refused d id hclaims hid =>
      exact List.forall_mem_cons.mpr ⟨trivial, forall_mem_feeds (fun _ _ => trivial) d _⟩
  | announced d a hparse hid =>
      rw [h.store]
      exact explained_served (.announce a order w.log [] hparse hid hjob rfl)
  | scraping d s hashes hparse hhashes hid =>
      exact List.forall_mem_singleton.mpr ⟨hjob, hparse, hid, [], [], hhashes, .nil _, rfl⟩
  | read d s hash todo entries =>
      obtain ⟨hevent, hparse, hid, read, counts, hhashes, hreads, rfl⟩ := hjob
      refine List.forall_mem_singleton.mpr ⟨hevent, hparse, hid, read ++ [hash], _, ?_, hreads.now hevent hash, ?_⟩
      · rw [hhashes, List.append_assoc]
        rfl
      · rw [List.map_append, h.store]
        rfl
  | scraped d s hashes entries hhashes =>
      obtain ⟨hevent, hparse, hid, read, counts, hall, hreads, rfl⟩ := hjob
      rw [List.append_nil] at hall
      exact explained_served (.scrape s read counts hparse hid hall hevent hreads)
  | scores ip call detector ban hscore => cases ban <;> simp [Job.Explained]
  | records ip crossing detector tier hrecord =>
      exact forall_mem_bans (fun _ => trivial) (fun _ _ _ => trivial) _ _ _
  | httpAnnounced r p hash port hpath hp hhash hport =>
      rw [h.store]
      exact explained_counted (.announced p hash port order w.log [] hpath hp hhash hport hjob rfl)
  | httpForgot r p hpath hp hforgets => exact explained_counted (.forgot p hpath hp hforgets hjob)
  | httpRefused r response hpath hp => exact explained_counted (.refused response hpath hp hjob)
  | httpScraping r hpath =>
      exact List.forall_mem_singleton.mpr ⟨hjob, hpath, [], [], by simp, .nil _, rfl⟩
  | httpRedirected r hpath => exact List.forall_mem_singleton.mpr (.redirected hpath hjob)
  | httpMissed r hpath => exact List.forall_mem_singleton.mpr (.missed hpath hjob)
  | httpSkipped r key raw pairs files hkey =>
      obtain ⟨hevent, hpath, read, counts, hhashes, hreads, hfiles⟩ := hjob
      rw [scrapeReads_skipped hkey] at hhashes
      exact List.forall_mem_singleton.mpr ⟨hevent, hpath, read, counts, hhashes, hreads, hfiles⟩
  | httpRead r raw pairs files hash hroom hdecode =>
      obtain ⟨hevent, hpath, read, counts, hhashes, hreads, rfl⟩ := hjob
      refine List.forall_mem_singleton.mpr
        ⟨hevent, hpath, read ++ [hash], _, ?_, hreads.now hevent hash, ?_⟩
      · rw [hhashes, scrapeReads_read hdecode hroom, List.length_append, List.length_singleton, Option.map_map]
        congr 1
        funext hashes
        rw [Function.comp_apply, List.append_assoc]
        rfl
      · rw [List.zip_append hreads.length_eq, h.store]
        rfl
  | httpBad r raw pairs files hroom hdecode =>
      obtain ⟨hevent, hpath, read, counts, hhashes, hreads, hfiles⟩ := hjob
      rw [scrapeReads_bad hdecode hroom] at hhashes
      exact explained_counted (.bad hpath hhashes hevent)
  | httpScraped r pairs files hend =>
      obtain ⟨hevent, hpath, read, counts, hhashes, hreads, rfl⟩ := hjob
      rw [scrapeReads_end hend, Option.map_some, List.append_nil] at hhashes
      rw [answered_scrape hpath]
      exact explained_counted (.scraped read counts hpath hhashes hevent hreads)

variable (lib sh) in
theorem consistent_run (start : UInt64) (acts : List (Act n)) :
    Consistent lib sh (State.run lib sh start acts).world ∧
      Each (Job.Explained lib sh (State.run lib sh start acts).world.log) (State.run lib sh start acts).tasks := by
  have hinit : Consistent lib sh (State.init sh n start).world ∧
      Each (Job.Explained lib sh (State.init sh n start).world.log) (State.init sh n start).tasks :=
    ⟨⟨rfl, History.atEach_nil _⟩, fun _ _ h => absurd h List.not_mem_nil⟩
  refine State.run_induction (fun s => Consistent lib sh s.world ∧ Each (Job.Explained lib sh s.world.log) s.tasks)
    hinit ?_ acts
  intro acts s' hsteps ⟨hcons, heach⟩
  have hgrow := fun more => heach.imp fun job (hjob : job.Explained lib sh _) => hjob.grow more
  cases hsteps with
  | idle => exact ⟨hcons, heach⟩
  | clock nowSecs => exact ⟨hcons.same rfl rfl, heach⟩
  | banned | failed | counted => exact ⟨hcons.event rfl rfl rfl trivial, hgrow _⟩
  | gc now => exact ⟨hcons.stored HashOrder.arbitrary rfl rfl (.gc now), hgrow _⟩
  | received t d hnow hbuf htask =>
      refine ⟨hcons.event rfl rfl rfl trivial, (hgrow _).update (List.forall_mem_singleton.mpr ?_)⟩
      exact List.mem_append_right _ (List.mem_singleton.mpr rfl)
  | requested t r hnow htask =>
      refine ⟨hcons.event rfl rfl rfl trivial, (hgrow _).update (List.forall_mem_singleton.mpr ?_)⟩
      exact List.mem_append_right _ (List.mem_singleton.mpr rfl)
  | ran t order job rest w' new htask hruns =>
      have hjob := heach t job (by rw [htask]; exact List.mem_cons_self)
      obtain ⟨events, hlog, -⟩ := runs_log hruns
      have hothers := hgrow events
      rw [← hlog] at hothers
      exact ⟨hcons.runs hjob hruns, hothers.next htask fun _ => explained_runs hcons hjob hruns⟩

theorem length_announceHeader (transactionId interval : UInt32) (counts : Counts) :
    (announceHeader transactionId interval counts).length = 20 := by
  simp only [announceHeader, List.length_append, length_toBe32]

/-- The reply to an announce is that of its own call. -/
theorem announced_of_sent {w : World} (h : Consistent lib sh w) {before : List Event} {peer : SocketAddr}
    {bytes : List UInt8} {after : List Event} (hlog : w.log = before ++ .sent peer bytes :: after)
    (haction : bytes.take 4 = toBe32 1) : ∃ d a order front back, d.peer = peer ∧
      parse d.buf = some (.ok (.announce a)) ∧ .received d ∈ front ∧ before = front ++ .stored (udpOp d a) :: back ∧
      bytes = announceReply order (storeAfter front) d a := by
  obtain ⟨d, hpeer, hreplies⟩ := h.explained before _ after hlog
  cases hreplies with
  | connect transactionId hparse hevent =>
      rw [connectReply, List.append_assoc, List.take_left' (length_toBe32 0), toBe32_inj] at haction
      cases haction
  | scrape sc hashes counts hparse hid hhashes hevent hreads =>
      rw [scrapeReplyOf, List.append_assoc, List.take_left' (length_toBe32 2), toBe32_inj] at haction
      cases haction
  | announce a order front back hparse hid hevent hpast =>
      exact ⟨d, a, order, front, back, hpeer, hparse, hevent, hpast, rfl⟩

theorem announced_of_responded {w : World} (h : Consistent lib sh w) {before : List Event} {r : HttpRequest}
    {reply : HttpReply} {after : List Event} (hlog : w.log = before ++ .responded r reply :: after)
    (hpath : r.path = ascii "/announce") {p : Http.Params} (hp : r.params = .ok p) {hash : InfoHash}
    (hhash : p.infoHash = some hash) {port : UInt16} (hport : p.port = some port) :
    ∃ order front back, .requested r ∈ front ∧ before = front ++ .stored (httpOp r p hash port) :: back ∧
      reply = httpReply 200 (httpAnnounceBody lib order (storeAfter front) r (httpOp r p hash port) hash) := by
  have hresponds : Responds lib sh before r reply := h.explained before _ after hlog
  cases hresponds with
  | announced p' hash' port' order front back hpath' hp' hhash' hport' hevent hpast =>
      cases Except.ok.inj (hp.symm.trans hp')
      cases Option.some.inj (hhash.symm.trans hhash')
      cases Option.some.inj (hport.symm.trans hport')
      exact ⟨order, front, back, hevent, hpast, rfl⟩
  | forgot p' hpath' hp' hforgets hevent =>
      cases Except.ok.inj (hp.symm.trans hp')
      exact absurd ⟨hash, port, hhash, hport⟩ hforgets
  | refused response hpath' hp' hevent => cases hp.symm.trans hp'
  | scraped hashes counts hpath' =>
      rw [hpath] at hpath'
      exact absurd hpath' (by decide)
  | bad hpath' =>
      rw [hpath] at hpath'
      exact absurd hpath' (by decide)
  | redirected hpath' =>
      rw [hpath] at hpath'
      exact absurd hpath' (by decide)
  | missed hpath' => exact absurd hpath hpath'.1

end

end Daemon
end Bluefrog
