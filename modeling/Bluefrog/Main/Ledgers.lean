import Bluefrog.Main.Steps

/-!
What is due to whoever sends the daemon something. What becomes of a datagram or of a request is settled when it
comes in; what is due then, what has been done and what the tasks and the pool have still to do is an account
that every step keeps.
-/

open Rust Tasks

namespace Bluefrog

open Udp

namespace Daemon

section

variable (lib : Libraries) (sh : Shared)

/-- What is to become of a datagram, as the counter it is for. -/
def outcome (d : Datagram) : Counter :=
  match parse d.buf with
  | some (.ok (.connect _)) => .udpConnect
  | some (.ok (.announce a)) =>
      if sh.connid.validate lib.blake3 a.connectionId (ipTo16 d.ip).toList d.now then .udpAnnounce
      else .udpConnidMismatch
  | some (.ok (.scrape s)) =>
      if sh.connid.validate lib.blake3 s.connectionId (ipTo16 d.ip).toList d.now then .udpScrape
      else .udpConnidMismatch
  | _ => .udpDropped

/-- The info-hashes that the loop of an HTTP scrape reads, if it meets no bad one before it ends. -/
def scrapeReads : List (List UInt8 × List UInt8) → Nat → Option (List InfoHash)
  | [], _ => some []
  | (key, raw) :: pairs, read =>
      if key = ascii "info_hash" then
        if Http.maxScrapeHashes ≤ read then some []
        else (Http.decodeHash raw).bind fun hash => (scrapeReads pairs (read + 1)).map fun hashes => hash :: hashes
      else scrapeReads pairs read

def scrapeOutcome (pairs : List (List UInt8 × List UInt8)) (read : Nat) : Counter :=
  if (scrapeReads pairs read).isSome then .httpScrape else .error

/-- What is to become of a request, if a counter is for it. -/
def HttpRequest.outcome (r : HttpRequest) : Option Counter :=
  if r.path = ascii "/announce" then
    match r.params with
    | .ok _ => some .httpAnnounce
    | .error _ => some .error
  else if r.path = ascii "/scrape" then some (scrapeOutcome r.pairs 0)
  else none

end

/-- A job that goes on with a scrape is of a request for one. -/
def Job.Routed : Job → Prop
  | .scrapeFiles r _ _ => r.path = ascii "/scrape"
  | _ => True

section

variable {n : Nat} {lib : Libraries} {sh : Shared} {s s' : State n}

theorem forall_mem_feeds {P : Job → Prop} (h : ∀ ip call, P (.feed ip call)) (d : Datagram) (signals : List Signal) :
    ∀ job ∈ feeds sh d signals, P job := by
  unfold feeds
  split_ifs
  · exact List.forall_mem_map.mpr fun _ _ => h _ _
  · exact fun job hjob => absurd hjob List.not_mem_nil

theorem forall_mem_bans {P : Job → Prop} (hcount : ∀ c, P (.count c))
    (hspawn : ∀ ip tier duration, P (.spawn ip tier duration)) (ip : IpAddr) (tier duration : UInt32) :
    ∀ job ∈ bans sh ip tier duration, P job := by
  unfold bans
  split_ifs <;> simp [hcount, hspawn]

theorem forall_mem_answered {P : Job → Prop} (hcount : ∀ c, P (.count c)) (r : HttpRequest)
    (hrespond : ∀ reply, P (.respond r reply)) (response : Response) : ∀ job ∈ answered lib sh r response, P job := by
  unfold answered
  cases response with
  | body b => split_ifs <;> simp [hcount, hrespond]
  | redirect => simp [hrespond]
  | badRequest => simp [hcount, hrespond]
  | notFound => simp [hrespond]

theorem routed_runs {order : HashOrder} {w w' : World} {job : Job} {new : List Job} (h : job.Routed)
    (hruns : Runs lib sh order w job w' new) : ∀ job' ∈ new, job'.Routed := by
  have hfeeds : ∀ d signals, ∀ job ∈ feeds sh d signals, job.Routed := forall_mem_feeds fun _ _ => trivial
  cases hruns with
  | connected d | announced d | scraped d =>
      simp only [List.forall_mem_cons, List.forall_mem_append]
      exact ⟨⟨trivial, hfeeds _ _⟩, trivial, fun _ h => absurd h List.not_mem_nil⟩
  | refused d =>
      simp only [List.forall_mem_cons]
      exact ⟨trivial, hfeeds _ _⟩
  | records ip crossing detector tier =>
      exact forall_mem_bans (fun _ => trivial) (fun _ _ _ => trivial) _ _ _
  | httpScraping r hpath => exact List.forall_mem_singleton.mpr hpath
  | httpRead r | httpSkipped r => exact List.forall_mem_singleton.mpr h
  | httpBad r | httpScraped r =>
      exact forall_mem_answered (fun _ => trivial) _ (fun _ => trivial) _
  | scores ip call detector ban =>
      cases ban with
      | true => exact List.forall_mem_singleton.mpr trivial
      | false => exact fun _ h => absurd h List.not_mem_nil
  | _ => simp [Job.Routed]

variable (lib sh) in
/-- No scrape goes on that is not of a request for one. -/
theorem each_routed (start : UInt64) (acts : List (Act n)) : Each Job.Routed (State.run lib sh start acts).tasks :=
  each_run (fun _ => trivial) (fun _ => trivial) routed_runs start acts

/-- Where no job makes way for jobs that weigh more, a task weighs no more than what it begins with. -/
theorem atMost_run {w : Job → Nat} (hhandle : ∀ d, w (.handle d) ≤ 1) (hanswer : ∀ r, w (.answer r) ≤ 1)
    (hruns : ∀ {order : HashOrder} {world world' : World} {job : Job} {new : List Job}, job.Routed →
      Runs lib sh order world job world' new → weigh w new ≤ w job) (start : UInt64) (acts : List (Act n)) :
    AtMost w 1 (State.run lib sh start acts).tasks := by
  have hinit : AtMost w 1 (State.init sh n start).tasks := fun _ => Nat.zero_le _
  refine State.run_induction (fun s => AtMost w 1 s.tasks) hinit ?_ acts
  intro acts s' hsteps hatMost
  cases hsteps with
  | idle | banned | failed | counted | clock | gc => exact hatMost
  | received t d hnow hbuf htask => exact hatMost.update (by simpa [weigh] using hhandle d)
  | requested t r hnow htask => exact hatMost.update (by simpa [weigh] using hanswer r)
  | ran t order job rest w' new htask hran =>
      have hrouted := each_routed lib sh start acts t job (by rw [htask]; exact List.mem_cons_self)
      exact hatMost.next htask (hruns hrouted hran)

end

/-- What is counted of the events, of the jobs that wait, and of the pool. -/
structure Entries where
  due : Event → Nat
  done : Event → Nat
  owes : Job → Nat
  holds : Blocking → Nat

namespace Entries

variable (E : Entries)

/-- The account of what was due and what has been done, where the pool may hold some of it. -/
def ledger : Ledger World Job where
  credit w := weigh E.due w.log
  debit w := weigh E.done w.log + weigh E.holds w.pool
  owes := E.owes

/-- Some events come to the log and some work to the pool, and nothing is lost. -/
theorem keeps_of {E : Entries} {w w' : World} {job : Job} {new : List Job} (events : List Event) (pool : List Blocking)
    (hlog : w'.log = w.log ++ events) (hpool : w'.pool = w.pool ++ pool)
    (h : weigh E.due events + E.owes job = weigh E.owes new + weigh E.done events + weigh E.holds pool) :
    E.ledger.Keeps w job w' new := by
  simp only [Ledger.Keeps, ledger, hlog, hpool, weigh_append]
  omega

theorem keeps_quiet {E : Entries} {w : World} {job : Job} {new : List Job} (h : E.owes job = weigh E.owes new) :
    E.ledger.Keeps w job w new :=
  keeps_of [] [] (List.append_nil _).symm (List.append_nil _).symm (by simp [h])

/-- A call of the store is neither due nor done. -/
theorem keeps_stored {E : Entries} {w w' : World} {job : Job} {new : List Job} {op : Op}
    (hlog : w'.log = w.log ++ [.stored op]) (hpool : w'.pool = w.pool)
    (hstored : E.due (.stored op) = E.done (.stored op)) (h : E.owes job = weigh E.owes new) :
    E.ledger.Keeps w job w' new := by
  refine keeps_of [.stored op] [] hlog (hpool.trans (List.append_nil _).symm) ?_
  simp only [weigh_cons, weigh_nil, hstored, h]
  omega

/-- The entries are kept by every step. -/
structure Sound (lib : Libraries) (sh : Shared) : Prop where
  received : ∀ d, E.due (.received d) = E.done (.received d) + E.owes (.handle d)
  requested : ∀ r, E.due (.requested r) = E.done (.requested r) + E.owes (.answer r)
  ran : ∀ {order : HashOrder} {w w' : World} {job : Job} {new : List Job}, job.Routed →
    Runs lib sh order w job w' new → E.ledger.Keeps w job w' new
  banned : ∀ ip tier duration element,
    E.due (.banned ip tier element) + E.holds (.ban ip tier duration) = E.done (.banned ip tier element)
  failed : ∀ ip tier duration, E.due (.failed ip tier) + E.holds (.ban ip tier duration) =
    E.done (.failed ip tier) + E.holds (.count .nftError)
  counted : ∀ c, E.due (.counted c) + E.holds (.count c) = E.done (.counted c)
  stored : ∀ op, E.due (.stored op) = E.done (.stored op)

variable {n : Nat} {lib : Libraries} {sh : Shared} {E}

/-- **Nothing due is lost**, whatever the order of the steps. -/
theorem Sound.balances (h : E.Sound lib sh) (start : UInt64) (acts : List (Act n)) :
    E.ledger.Balances (State.run lib sh start acts) := by
  have hinit : E.ledger.Balances (State.init sh n start) := by
    rw [Ledger.Balances, total_idle (show ∀ t, (State.init sh n start).tasks t = [] from fun _ => rfl)]
    rfl
  refine State.run_induction E.ledger.Balances hinit ?_ acts
  intro acts s' hsteps hbal
  cases hsteps with
  | idle => exact hbal
  | received t d hnow hbuf htask =>
      have hdue := h.received d
      refine hbal.start htask ?_
      simp only [ledger, weigh_append, weigh_cons, weigh_nil]
      omega
  | requested t r hnow htask =>
      have hdue := h.requested r
      refine hbal.start htask ?_
      simp only [ledger, weigh_append, weigh_cons, weigh_nil]
      omega
  | ran t order job rest w' new htask hruns =>
      have hrouted := each_routed lib sh start acts t job (by rw [htask]; exact List.mem_cons_self)
      exact hbal.next htask (h.ran hrouted hruns)
  | banned k ip tier duration kernel element hpool hban =>
      have hdue := h.banned ip tier duration element
      have hheld := weigh_eraseIdx (w := E.holds) hpool
      refine hbal.world ?_
      simp only [ledger, weigh_append, weigh_cons, weigh_nil]
      omega
  | failed k ip tier duration kernel e hpool hban =>
      have hdue := h.failed ip tier duration
      have hheld := weigh_set (w := E.holds) hpool (.count .nftError)
      refine hbal.world ?_
      simp only [ledger, weigh_append, weigh_cons, weigh_nil]
      omega
  | counted k c hpool =>
      have hdue := h.counted c
      have hheld := weigh_eraseIdx (w := E.holds) hpool
      refine hbal.world ?_
      simp only [ledger, weigh_append, weigh_cons, weigh_nil]
      omega
  | clock nowSecs => exact hbal.world rfl
  | gc now =>
      have hdue := h.stored (.gc now)
      refine hbal.world ?_
      simp only [ledger, weigh_append, weigh_cons, weigh_nil]
      omega

/-- What comes of a job owes no more than the job, where nothing is due but what comes in. -/
theorem weigh_le_of_keeps (hdue : ∀ e, e.comesIn = false → E.due e = 0) {order : HashOrder} {w w' : World} {job : Job}
    {new : List Job} (hruns : Runs lib sh order w job w' new) (hkeeps : E.ledger.Keeps w job w' new) :
    weigh E.owes new ≤ E.owes job := by
  obtain ⟨events, hlog, hevents⟩ := runs_log hruns
  have hnone : weigh E.due events = 0 := weigh_eq_zero fun e he => hdue e (hevents e he)
  have hpool : weigh E.holds w.pool ≤ weigh E.holds w'.pool := by
    rcases runs_pool hruns with heq | ⟨ip, tier, duration, heq⟩
    · rw [heq]
    · rw [heq, weigh_append]
      exact Nat.le_add_right _ _
  simp only [Ledger.Keeps, ledger, hlog, weigh_append, hnone] at hkeeps
  omega

/-- Each task owes one thing at most, where nothing is due but what comes in. -/
theorem Sound.atMost (h : E.Sound lib sh) (hdue : ∀ e, e.comesIn = false → E.due e = 0)
    (hhandle : ∀ d, E.owes (.handle d) ≤ 1) (hanswer : ∀ r, E.owes (.answer r) ≤ 1) (start : UInt64)
    (acts : List (Act n)) : AtMost E.owes 1 (State.run lib sh start acts).tasks :=
  atMost_run hhandle hanswer (fun hrouted hruns => weigh_le_of_keeps hdue hruns (h.ran hrouted hruns)) start acts

/-- Where nothing waits in the pool, what is due and not done is what the tasks owe. -/
theorem Sound.accounted (h : E.Sound lib sh) (hholds : ∀ b, E.holds b = 0) (start : UInt64) (acts : List (Act n)) :
    weigh E.due (State.run lib sh start acts).world.log =
      weigh E.done (State.run lib sh start acts).world.log + total E.owes (State.run lib sh start acts).tasks := by
  have hbal := h.balances start acts
  simp only [Ledger.Balances, ledger] at hbal
  rwa [weigh_eq_zero fun b _ => hholds b, Nat.add_zero] at hbal

end Entries

section

variable {lib : Libraries} {sh : Shared}

variable (sh) in
theorem weigh_feeds {w : Job → Nat} (h : ∀ ip call, w (.feed ip call) = 0) (d : Datagram) (signals : List Signal) :
    weigh w (feeds sh d signals) = 0 := weigh_eq_zero (forall_mem_feeds h d signals)

theorem weigh_bans (w : Job → Nat) (ip : IpAddr) (tier duration : UInt32) : weigh w (bans sh ip tier duration) =
    w (.count .l7Ban) + (if 0 < tier then w (.count .l7BanEscalated) else 0) +
      if sh.config.nftEnable then w (.spawn ip tier duration) else 0 := by
  unfold bans
  split_ifs <;> simp only [weigh_cons, weigh_append, weigh_nil, Nat.add_zero, Nat.add_assoc]

variable (sh) in
theorem weigh_feeds_singleton (w : Job → Nat) (d : Datagram) (signal : Signal) :
    weigh w (feeds sh d [signal]) ≤ w (.feed d.ip ⟨ipTo16 d.ip, signal, clampU32 d.now⟩) := by
  unfold feeds
  split_ifs
  · exact Nat.le_refl _
  · exact Nat.zero_le _

theorem outcome_announced {d : Datagram} {a : Announce} (hparse : parse d.buf = some (.ok (.announce a)))
    (hid : Validates lib sh d a.connectionId) : outcome lib sh d = .udpAnnounce := by
  rw [outcome, hparse]
  exact if_pos hid

theorem outcome_refused {d : Datagram} {id : UInt64} (hclaims : Claims d id) (hid : ¬Validates lib sh d id) :
    outcome lib sh d = .udpConnidMismatch := by
  cases hclaims with
  | announce a hparse heq =>
      subst heq
      rw [outcome, hparse]
      exact if_neg hid
  | scrape s hparse heq =>
      subst heq
      rw [outcome, hparse]
      exact if_neg hid

theorem outcome_scraping {d : Datagram} {s : Scrape} (hparse : parse d.buf = some (.ok (.scrape s)))
    (hid : Validates lib sh d s.connectionId) : outcome lib sh d = .udpScrape := by
  rw [outcome, hparse]
  exact if_pos hid

theorem outcome_connected {d : Datagram} {transactionId : UInt32}
    (hparse : parse d.buf = some (.ok (.connect transactionId))) : outcome lib sh d = .udpConnect := by
  rw [outcome, hparse]

theorem outcome_dropped {d : Datagram} {e : ParseError} (hparse : parse d.buf = some (.error e)) :
    outcome lib sh d = .udpDropped := by
  rw [outcome, hparse]

theorem HttpRequest.outcome_announced {r : HttpRequest} (hpath : r.path = ascii "/announce") {p : Http.Params}
    (hp : r.params = .ok p) : r.outcome = some .httpAnnounce := by
  rw [HttpRequest.outcome, if_pos hpath, hp]

theorem HttpRequest.outcome_refused {r : HttpRequest} (hpath : r.path = ascii "/announce") {response : Response}
    (hp : r.params = .error response) : r.outcome = some .error := by
  rw [HttpRequest.outcome, if_pos hpath, hp]

theorem HttpRequest.outcome_scraping {r : HttpRequest} (hpath : r.path = ascii "/scrape") :
    r.outcome = some (scrapeOutcome r.pairs 0) := by
  rw [HttpRequest.outcome, if_neg (by rw [hpath]; decide), if_pos hpath]

theorem HttpRequest.outcome_other {r : HttpRequest} (hann : r.path ≠ ascii "/announce")
    (hscrape : r.path ≠ ascii "/scrape") : r.outcome = none := by
  rw [HttpRequest.outcome, if_neg hann, if_neg hscrape]

theorem scrapeReads_skipped {key : List UInt8} (hkey : key ≠ ascii "info_hash") (raw : List UInt8)
    (pairs : List (List UInt8 × List UInt8)) (read : Nat) :
    scrapeReads ((key, raw) :: pairs) read = scrapeReads pairs read := by
  rw [scrapeReads, if_neg hkey]

theorem scrapeReads_read {raw : List UInt8} {hash : InfoHash} (hdecode : Http.decodeHash raw = some hash)
    {read : Nat} (hroom : read < Http.maxScrapeHashes) (pairs : List (List UInt8 × List UInt8)) :
    scrapeReads ((ascii "info_hash", raw) :: pairs) read =
      (scrapeReads pairs (read + 1)).map fun hashes => hash :: hashes := by
  rw [scrapeReads, if_pos rfl, if_neg (Nat.not_le_of_lt hroom), hdecode, Option.bind_some]

theorem scrapeReads_bad {raw : List UInt8} (hdecode : Http.decodeHash raw = none) {read : Nat}
    (hroom : read < Http.maxScrapeHashes) (pairs : List (List UInt8 × List UInt8)) :
    scrapeReads ((ascii "info_hash", raw) :: pairs) read = none := by
  rw [scrapeReads, if_pos rfl, if_neg (Nat.not_le_of_lt hroom), hdecode, Option.bind_none]

theorem scrapeReads_end {pairs : List (List UInt8 × List UInt8)} {read : Nat}
    (hend : pairs = [] ∨ ∃ raw rest, pairs = (ascii "info_hash", raw) :: rest ∧ Http.maxScrapeHashes ≤ read) :
    scrapeReads pairs read = some [] := by
  rcases hend with rfl | ⟨raw, rest, rfl, hfull⟩
  · rfl
  · rw [scrapeReads, if_pos rfl, if_pos hfull]

theorem scrapeOutcome_skipped {key : List UInt8} (hkey : key ≠ ascii "info_hash") (raw : List UInt8)
    (pairs : List (List UInt8 × List UInt8)) (read : Nat) :
    scrapeOutcome ((key, raw) :: pairs) read = scrapeOutcome pairs read := by
  rw [scrapeOutcome, scrapeReads_skipped hkey, scrapeOutcome]

theorem scrapeOutcome_read {raw : List UInt8} {hash : InfoHash} (hdecode : Http.decodeHash raw = some hash)
    {read : Nat} (hroom : read < Http.maxScrapeHashes) (pairs : List (List UInt8 × List UInt8)) :
    scrapeOutcome ((ascii "info_hash", raw) :: pairs) read = scrapeOutcome pairs (read + 1) := by
  rw [scrapeOutcome, scrapeReads_read hdecode hroom, Option.isSome_map, scrapeOutcome]

theorem scrapeOutcome_bad {raw : List UInt8} (hdecode : Http.decodeHash raw = none) {read : Nat}
    (hroom : read < Http.maxScrapeHashes) (pairs : List (List UInt8 × List UInt8)) :
    scrapeOutcome ((ascii "info_hash", raw) :: pairs) read = .error := by
  rw [scrapeOutcome, scrapeReads_bad hdecode hroom]
  rfl

theorem scrapeOutcome_end {pairs : List (List UInt8 × List UInt8)} {read : Nat}
    (hend : pairs = [] ∨ ∃ raw rest, pairs = (ascii "info_hash", raw) :: rest ∧ Http.maxScrapeHashes ≤ read) :
    scrapeOutcome pairs read = .httpScrape := by
  rw [scrapeOutcome, scrapeReads_end hend]
  rfl

end

end Daemon
end Bluefrog
