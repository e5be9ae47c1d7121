import Bluefrog.L7.Worth
import Bluefrog.Lib.History
import Bluefrog.Main.Bans

/-!
What a ban is for. A datagram is worth the most that it can weigh with the detector. What a source is scored, with
what its datagrams that are still on their way may weigh, is within what has come in from it; so no source is banned
for what others do, nor for less than the threshold.
-/

open Rust Tasks

namespace Bluefrog

open Udp

namespace Daemon

section

variable (lib : Libraries) (sh : Shared)

/-- The most that a scrape can weigh. -/
def scrapeWorth (s : Scrape) : Nat :=
  s.iterHashes.elim 0 fun hashes => (Signal.scrape hashes.length).most sh.config.l7

/-- The most that a datagram can weigh: a malformed one nothing, and one with a bad connection id as such. -/
def Datagram.worth (d : Datagram) : Nat :=
  match parse d.buf with
  | some (.ok (.connect _)) => Signal.connect.most sh.config.l7
  | some (.ok (.announce a)) =>
      if sh.connid.validate lib.blake3 a.connectionId (ipTo16 d.ip).toList d.now then
        (Signal.announce (announceInfo a d.ip [])).most sh.config.l7
      else Signal.connidMismatch.most sh.config.l7
  | some (.ok (.scrape s)) =>
      if sh.connid.validate lib.blake3 s.connectionId (ipTo16 d.ip).toList d.now then scrapeWorth sh s
      else Signal.connidMismatch.most sh.config.l7
  | _ => 0

/-- What an event is worth that comes in from a source. -/
def worthFrom (ip : Ip) : Event → Nat
  | .received d => if ipTo16 d.ip = ip then d.worth lib sh else 0
  | _ => 0

/-- What a job may still add to the score of a source. -/
def mayAdd (ip : Ip) : Job → Nat
  | .handle d => if ipTo16 d.ip = ip then d.worth lib sh else 0
  | .scrape d s _ _ => if ipTo16 d.ip = ip then scrapeWorth sh s else 0
  | .feed _ call => if call.ip = ip then call.signal.most sh.config.l7 else 0
  | _ => 0

/-- What has come in from a source is worth a ban. -/
def WorthBan (ip : Ip) (log : List Event) : Prop :=
  sh.config.l7.scoreBanThreshold.toNat ≤ weigh (worthFrom lib sh ip) log

/-- The scores are within what has come in, and every offence is worth a ban. -/
structure Earned {n : Nat} (s : State n) : Prop where
  score : ∀ ip, s.world.detector.scoreOf ip + total (mayAdd lib sh ip) s.tasks ≤ weigh (worthFrom lib sh ip) s.world.log
  crossings : Each (fun job => ∀ ip crossing, job = .record ip crossing → WorthBan lib sh (ipTo16 ip) s.world.log)
    s.tasks
  offences : History.AtEach
    (fun past e => ∀ ip tier, e = .offended ip tier → WorthBan lib sh (ipTo16 ip) past) s.world.log

end

section

variable {n : Nat} {lib : Libraries} {sh : Shared}

/-- What an announce may fire does not depend on its reply. -/
theorem most_announceInfo (c : Config) (a : Announce) (ip : IpAddr) (out out' : List UInt8) :
    (Signal.announce (announceInfo a ip out)).most c = (Signal.announce (announceInfo a ip out')).most c := by
  have hfires : Charge.mayFire c (announceInfo a ip out) = Charge.mayFire c (announceInfo a ip out') := by
    funext k
    cases k <;> rfl
  rw [Signal.most, hfires, Signal.most]

theorem worth_refused {d : Datagram} {id : UInt64} (hclaims : Claims d id) (hid : ¬Validates lib sh d id) :
    d.worth lib sh = Signal.connidMismatch.most sh.config.l7 := by
  cases hclaims with
  | announce a hparse heq =>
      subst heq
      rw [Datagram.worth, hparse]
      exact if_neg hid
  | scrape s hparse heq =>
      subst heq
      rw [Datagram.worth, hparse]
      exact if_neg hid

theorem worth_announced {d : Datagram} {a : Announce} (hparse : parse d.buf = some (.ok (.announce a)))
    (hid : Validates lib sh d a.connectionId) (out : List UInt8) :
    d.worth lib sh = (Signal.announce (announceInfo a d.ip out)).most sh.config.l7 := by
  rw [Datagram.worth, hparse, most_announceInfo _ a d.ip out []]
  exact if_pos hid

theorem worth_scraping {d : Datagram} {s : Scrape} (hparse : parse d.buf = some (.ok (.scrape s)))
    (hid : Validates lib sh d s.connectionId) : d.worth lib sh = scrapeWorth sh s := by
  rw [Datagram.worth, hparse]
  exact if_pos hid

/-- The detector may be fed what a datagram weighs, or nothing. -/
theorem weigh_feeds_le (ip : Ip) (d : Datagram) (signal : Signal) : weigh (mayAdd lib sh ip) (feeds sh d [signal]) ≤
    if ipTo16 d.ip = ip then signal.most sh.config.l7 else 0 :=
  weigh_feeds_singleton sh (mayAdd lib sh ip) d signal

/-- A job adds no more to a score, at once and by what follows from it, than it may. -/
theorem scoreOf_runs {order : HashOrder} {w w' : World} {job : Job} {new : List Job}
    (hconfig : w.detector.config = sh.config.l7) (hruns : Runs lib sh order w job w' new) (ip : Ip) :
    w'.detector.scoreOf ip + weigh (mayAdd lib sh ip) new ≤ w.detector.scoreOf ip + mayAdd lib sh ip job := by
  have hcount : ∀ c, mayAdd lib sh ip (.count c) = 0 := fun _ => rfl
  have hserved : ∀ c d signal peer bytes,
      weigh (mayAdd lib sh ip) (.count c :: feeds sh d [signal] ++ [.send peer bytes]) ≤
        if ipTo16 d.ip = ip then signal.most sh.config.l7 else 0 := by
    intro c d signal peer bytes
    rw [weigh_append, weigh_cons, hcount, Nat.zero_add]
    exact weigh_feeds_le ip d signal
  cases hruns with
  | connected d transactionId hparse =>
      have hworth : d.worth lib sh = Signal.connect.most sh.config.l7 := by rw [Datagram.worth, hparse]
      rw [mayAdd, hworth]
      exact Nat.add_le_add_left (hserved _ d _ _ _) _
  | refused d id hclaims hid =>
      rw [weigh_cons, hcount, Nat.zero_add, mayAdd, worth_refused hclaims hid]
      exact Nat.add_le_add_left (weigh_feeds_le ip d _) _
  | announced d a hparse hid =>
      rw [mayAdd, worth_announced hparse hid]
      exact Nat.add_le_add_left (hserved _ d _ _ _) _
  | scraping d s hashes hparse hhashes hid =>
      rw [mayAdd, worth_scraping hparse hid]
      exact Nat.le_refl _
  | read d s hash todo entries => exact Nat.le_refl _
  | scraped d s hashes entries hhashes =>
      rw [mayAdd, scrapeWorth, hhashes]
      exact Nat.add_le_add_left (hserved _ d _ _ _) _
  | scores ip' call detector ban hscore =>
      have hle := w.detector.scoreOf_underShard_le order call ip
      rw [hscore, hconfig] at hle
      have hnone : weigh (mayAdd lib sh ip) (if ban then [.record ip' ⟨call.ip, call.now⟩] else []) = 0 := by
        cases ban <;> rfl
      rw [hnone]
      exact hle
  | records ip' crossing detector tier hrecord =>
      have hsame : detector.scoreOf ip = w.detector.scoreOf ip := (congrArg (fun r => r.1.scoreOf ip) hrecord).symm
      rw [weigh_bans, hsame]
      simp only [mayAdd, ite_self, Nat.add_zero]
      exact Nat.le_refl _
  | dropped => exact Nat.le_add_right _ _
  | httpBad r | httpScraped r =>
      have hnone : ∀ response, weigh (mayAdd lib sh ip) (answered lib sh r response) = 0 := fun response =>
        weigh_eq_zero (forall_mem_answered (fun _ => rfl) r (fun _ => rfl) response)
      rw [hnone]
      exact Nat.le_add_right _ _
  | _ => exact Nat.le_refl _

/-- An offence comes of a job that has crossed the threshold, and a crossing of an event that was scored. -/
theorem crossing_runs {order : HashOrder} {w w' : World} {job : Job} {new : List Job}
    (hruns : Runs lib sh order w job w' new) {ip : IpAddr} {crossing : Escalation.Crossing}
    (hmem : .record ip crossing ∈ new) : ∃ call detector, job = .feed ip call ∧
      w.detector.underShard order call.ip call.now (call.signal.apply w.detector.config call.now) =
        (detector, true) := by
  have hnone : (∀ job ∈ new, job.isRecord = false) → False := fun h => by cases h _ hmem
  have hserved : ∀ c d signal peer bytes,
      ∀ job ∈ Job.count c :: feeds sh d [signal] ++ [.send peer bytes], job.isRecord = false := by
    intro c d signal peer bytes
    simp only [List.forall_mem_cons, List.forall_mem_append]
    exact ⟨⟨rfl, forall_mem_feeds (fun _ _ => rfl) d _⟩, rfl, fun _ h => absurd h List.not_mem_nil⟩
  cases hruns with
  | scores ip' call detector ban hscore =>
      cases ban with
      | true =>
          cases List.mem_singleton.mp hmem
          exact ⟨call, detector, rfl, hscore⟩
      | false => cases hmem
  | connected | announced | scraped => exact (hnone (hserved _ _ _ _ _)).elim
  | refused d => exact (hnone (List.forall_mem_cons.mpr ⟨rfl, forall_mem_feeds (fun _ _ => rfl) d _⟩)).elim
  | records => exact (hnone (forall_mem_bans (fun _ => rfl) (fun _ _ _ => rfl) _ _ _)).elim
  | httpBad r | httpScraped r => exact (hnone (forall_mem_answered (fun _ => rfl) r (fun _ => rfl) _)).elim
  | _ => exact (hnone (by simp [Job.isRecord])).elim

theorem WorthBan.grow {ip : Ip} {log : List Event} (h : WorthBan lib sh ip log) (events : List Event) :
    WorthBan lib sh ip (log ++ events) := by
  rw [WorthBan, weigh_append]
  exact Nat.le_trans h (Nat.le_add_right _ _)

theorem weigh_worthFrom_eq_zero {events : List Event} (h : ∀ e ∈ events, e.comesIn = false) (ip : Ip) :
    weigh (worthFrom lib sh ip) events = 0 := by
  refine weigh_eq_zero fun e he => ?_
  have hevent := h e he
  cases e with
  | received d => cases hevent
  | _ => rfl

/-- A job logs one event at most, and an offence only where a crossing is recorded. -/
theorem offence_runs {order : HashOrder} {w w' : World} {job : Job} {new : List Job}
    (hruns : Runs lib sh order w job w' new) : w'.log = w.log ∨ ∃ e, w'.log = w.log ++ [e] ∧ e.comesIn = false ∧
      ∀ ip tier, e = .offended ip tier → ∃ crossing, job = .record ip crossing := by
  cases hruns with
  | records ip crossing detector tier hrecord =>
      refine .inr ⟨_, rfl, rfl, fun ip' tier' heq => ?_⟩
      cases heq
      exact ⟨crossing, rfl⟩
  | announced | httpAnnounced | counts | sends | responds =>
      exact .inr ⟨_, rfl, rfl, fun _ _ heq => by cases heq⟩
  | _ => exact .inl rfl

/-- An event that is no offence, or one that is earned, comes to the log; the rest is kept. -/
theorem Earned.event {s : State n} (h : Earned lib sh s) {log : List Event} {e : Event}
    (hlog : log = s.world.log ++ [e])
    (hoffence : ∀ ip tier, e = .offended ip tier → WorthBan lib sh (ipTo16 ip) s.world.log) :
    Each (fun job => ∀ ip crossing, job = .record ip crossing → WorthBan lib sh (ipTo16 ip) log) s.tasks ∧
      History.AtEach (fun past e => ∀ ip tier, e = .offended ip tier → WorthBan lib sh (ipTo16 ip) past) log := by
  subst hlog
  exact ⟨h.crossings.imp fun job hjob ip crossing heq => (hjob ip crossing heq).grow [e],
    (History.atEach_append_singleton _ _ _).mpr ⟨h.offences, hoffence⟩⟩

/-- A step that only adds something to the log that does not come in. -/
theorem Earned.quiet {s : State n} {w' : World} (h : Earned lib sh s) {e : Event} (he : e.comesIn = false)
    (hoffence : ∀ ip tier, e ≠ .offended ip tier) (hdetector : w'.detector = s.world.detector)
    (hlog : w'.log = s.world.log ++ [e]) : Earned lib sh ⟨w', s.tasks⟩ := by
  obtain ⟨hcrossings, hoffences⟩ := h.event hlog fun ip tier heq => absurd heq (hoffence ip tier)
  refine ⟨fun ip => ?_, hcrossings, hoffences⟩
  rw [hdetector, hlog, weigh_append, weigh_worthFrom_eq_zero (List.forall_mem_singleton.mpr he)]
  exact h.score ip

/-- A task takes what has come in. -/
theorem Earned.start {s : State n} {w' : World} (h : Earned lib sh s) {t : Fin n} (htask : s.tasks t = []) {e : Event}
    {job : Job} (hworth : ∀ ip, worthFrom lib sh ip e = mayAdd lib sh ip job) (hjob : job.isRecord = false)
    (hoffence : ∀ ip tier, e ≠ .offended ip tier) (hdetector : w'.detector = s.world.detector)
    (hlog : w'.log = s.world.log ++ [e]) : Earned lib sh ⟨w', Function.update s.tasks t [job]⟩ := by
  obtain ⟨hcrossings, hoffences⟩ := h.event hlog fun ip tier heq => absurd heq (hoffence ip tier)
  refine ⟨fun ip => ?_, hcrossings.update (List.forall_mem_singleton.mpr fun ip crossing heq => ?_), hoffences⟩
  · have hscore := h.score ip
    rw [hdetector, hlog, total_start htask, weigh_append, weigh_cons, weigh_cons, hworth ip]
    simp only [weigh_nil]
    omega
  · rw [heq] at hjob
    cases hjob

/-- A source that an event bans has sent what is worth it. -/
theorem Earned.crossed {s : State n} (h : Earned lib sh s) (hconfig : s.world.detector.config = sh.config.l7)
    {t : Fin n} {order : HashOrder} {ip : IpAddr} {call : Call} {detector : Detector} {rest : List Job}
    (htask : s.tasks t = .feed ip call :: rest)
    (hscore : s.world.detector.underShard order call.ip call.now (call.signal.apply s.world.detector.config call.now) =
      (detector, true)) : WorthBan lib sh call.ip s.world.log := by
  have hban := s.world.detector.threshold_le_of_underShard order (congrArg Prod.snd hscore)
  have hle := h.score call.ip
  have hrest := total_next (w := mayAdd lib sh call.ip) htask []
  have hadd : mayAdd lib sh call.ip (.feed ip call) = call.signal.most sh.config.l7 := if_pos rfl
  rw [weigh_nil, hadd] at hrest
  rw [hconfig] at hban
  rw [WorthBan]
  omega

/-- A task runs a job. -/
theorem Earned.ran {s : State n} (h : Earned lib sh s) (hconfig : s.world.detector.config = sh.config.l7) {t : Fin n}
    {order : HashOrder} {job : Job} {rest new : List Job} {w' : World} (htask : s.tasks t = job :: rest)
    (hsourced : job.Sourced) (hruns : Runs lib sh order s.world job w' new) :
    Earned lib sh ⟨w', Function.update s.tasks t (new ++ rest)⟩ := by
  have hscore : ∀ ip, w'.detector.scoreOf ip + total (mayAdd lib sh ip) (Function.update s.tasks t (new ++ rest)) ≤
      weigh (worthFrom lib sh ip) s.world.log := by
    intro ip
    have hruns' := scoreOf_runs hconfig hruns ip
    have hnext := total_next (w := mayAdd lib sh ip) htask new
    have hle := h.score ip
    omega
  have hnew : ∀ ip crossing, .record ip crossing ∈ new → WorthBan lib sh (ipTo16 ip) s.world.log := by
    intro ip crossing hmem
    obtain ⟨call, detector, rfl, hban⟩ := crossing_runs hruns hmem
    rw [← show call.ip = ipTo16 ip from hsourced]
    exact h.crossed hconfig htask hban
  rcases offence_runs hruns with hlog | ⟨e, hlog, he, hoffence⟩
  · refine ⟨?_, ?_, ?_⟩
    · rw [hlog]
      exact hscore
    · rw [hlog]
      exact h.crossings.next htask fun _ job' hmem ip crossing heq => hnew ip crossing (heq ▸ hmem)
    · rw [hlog]
      exact h.offences
  · obtain ⟨hcrossings, hoffences⟩ := h.event hlog fun ip tier heq => by
      obtain ⟨crossing, hjob⟩ := hoffence ip tier heq
      exact h.crossings t job (by rw [htask]; exact List.mem_cons_self) ip crossing hjob
    refine ⟨fun ip => ?_, hcrossings.next htask fun _ job' hmem ip crossing heq => ?_, hoffences⟩
    · rw [hlog, weigh_append, weigh_worthFrom_eq_zero (List.forall_mem_singleton.mpr he)]
      exact hscore ip
    · rw [hlog]
      exact (hnew ip crossing (heq ▸ hmem)).grow [e]

variable (lib sh) in
theorem earned_run (start : UInt64) (acts : List (Act n)) : Earned lib sh (State.run lib sh start acts) := by
  have hinit : Earned lib sh (State.init sh n start) := by
    refine ⟨fun ip => ?_, fun _ _ h => absurd h List.not_mem_nil, History.atEach_nil _⟩
    rw [total_idle (show ∀ t, (State.init sh n start).tasks t = [] from fun _ => rfl)]
    exact Nat.le_of_eq (Detector.scoreOf_new sh.config.l7 ip)
  refine State.run_induction (Earned lib sh) hinit ?_ acts
  intro acts s' hsteps h
  cases hsteps with
  | idle | clock => exact ⟨h.score, h.crossings, h.offences⟩
  | banned | failed | counted | gc => exact h.quiet rfl (fun _ _ heq => by cases heq) rfl rfl
  | received t d hnow hbuf htask =>
      exact h.start (e := .received d) htask (fun _ => rfl) rfl (fun _ _ heq => by cases heq) rfl rfl
  | requested t r hnow htask =>
      exact h.start (e := .requested r) htask (fun _ => rfl) rfl (fun _ _ heq => by cases heq) rfl rfl
  | ran t order job rest w' new htask hruns =>
      have hsourced := each_sourced start acts t job (by rw [htask]; exact List.mem_cons_self)
      exact h.ran (config_run start acts) htask hsourced hruns

/-- An address that was written as banned has offended. -/
theorem offended_of_banned (start : UInt64) (acts : List (Act n)) {ip : IpAddr} {tier : UInt32} {element : Nft.Element}
    (h : .banned ip tier element ∈ (State.run lib sh start acts).world.log) :
    .offended ip tier ∈ (State.run lib sh start acts).world.log := by
  have hwrites := writes_run lib sh start acts ip tier
  have hpos : 0 < (State.run lib sh start acts).world.log.countP (·.isWrite ip tier) :=
    List.countP_pos_iff.mpr ⟨_, h, by simp [Event.isWrite]⟩
  have hoffence : 0 < (State.run lib sh start acts).world.log.countP (·.isOffence ip tier) := by
    split_ifs at hwrites <;> omega
  obtain ⟨e, he, hise⟩ := List.countP_pos_iff.mp hoffence
  cases e with
  | offended ip' tier' =>
      simp only [Event.isOffence, Bool.and_eq_true, decide_eq_true_eq] at hise
      obtain ⟨rfl, rfl⟩ := hise
      exact he
  | _ => cases hise

/-- **Bans are earned.** Before an offence is recorded, what has come in from its source alone is worth the
threshold, whatever the other sources have sent and however the tasks interleave; and no address is banned without
an offence. What a source is scored is never more than what has come in from it. -/
theorem bans_earned (lib : Libraries) (sh : Shared) (start : UInt64) (acts : List (Act n)) :
    let s := State.run lib sh start acts
    (∀ before ip tier after, s.world.log = before ++ .offended ip tier :: after →
      sh.config.l7.scoreBanThreshold.toNat ≤ weigh (worthFrom lib sh (ipTo16 ip)) before) ∧
    (∀ ip tier element, .banned ip tier element ∈ s.world.log → .offended ip tier ∈ s.world.log) ∧
    ∀ ip, s.world.detector.scoreOf ip ≤ weigh (worthFrom lib sh ip) s.world.log := by
  intro s
  have hearned := earned_run lib sh start acts
  exact ⟨fun before ip tier after hlog => hearned.offences before _ after hlog ip tier rfl,
    fun ip tier element => offended_of_banned start acts, fun ip => (Nat.le_add_right _ _).trans (hearned.score ip)⟩

end

end Daemon
end Bluefrog
