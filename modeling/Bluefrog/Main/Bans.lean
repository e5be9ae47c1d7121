import Bluefrog.L7.Ranks
import Bluefrog.Main.Ledgers

/-!
From a verdict to the kernel. The workers share the detector and call it in two sections, so that a run of the
daemon is an interleaving of calls; every offence is handed to the pool once, and each write that succeeds goes
to the set of its tier.
-/

open Rust Tasks

namespace Bluefrog

open Udp

namespace Daemon

/-- The event is an offence of the source at the tier. -/
def Event.isOffence (ip : IpAddr) (tier : UInt32) : Event → Bool
  | .offended ip' tier' => decide (ip' = ip) && decide (tier' = tier)
  | _ => false

/-- The event is the end of a ban's write, done or failed. -/
def Event.isWrite (ip : IpAddr) (tier : UInt32) : Event → Bool
  | .banned ip' tier' _ | .failed ip' tier' => decide (ip' = ip) && decide (tier' = tier)
  | _ => false

/-- The work is a write of the ban. -/
def Blocking.isBan (ip : IpAddr) (tier : UInt32) : Blocking → Bool
  | .ban ip' tier' _ => decide (ip' = ip) && decide (tier' = tier)
  | .count _ => false

/-- The job hands the ban to the pool. -/
def Job.isSpawn (ip : IpAddr) (tier : UInt32) : Job → Bool
  | .spawn ip' tier' _ => decide (ip' = ip) && decide (tier' = tier)
  | _ => false

/-- The bans that are due, where they are written at all, and those that are over. -/
def banEntries (sh : Shared) (ip : IpAddr) (tier : UInt32) : Entries where
  due e := if sh.config.nftEnable then (e.isOffence ip tier).toNat else 0
  done e := (e.isWrite ip tier).toNat
  owes job := (job.isSpawn ip tier).toNat
  holds b := (b.isBan ip tier).toNat

section

variable {n : Nat} {lib : Libraries} {sh : Shared}

theorem banEntries_ran {ip : IpAddr} {tier : UInt32} {order : HashOrder} {w w' : World} {job : Job} {new : List Job}
    (hruns : Runs lib sh order w job w' new) : (banEntries sh ip tier).ledger.Keeps w job w' new := by
  have hfeeds := fun d signals =>
    weigh_feeds sh (w := (banEntries sh ip tier).owes) (fun _ _ => rfl) d signals
  have hanswered : ∀ r response, weigh (banEntries sh ip tier).owes (answered lib sh r response) = 0 :=
    fun r response => weigh_eq_zero (forall_mem_answered (fun _ => rfl) r (fun _ => rfl) response)
  cases hruns with
  | connected d | scraped d =>
      refine Entries.keeps_quiet ?_
      rw [weigh_append, weigh_cons, hfeeds]
      rfl
  | refused d id hclaims hid =>
      refine Entries.keeps_quiet ?_
      rw [weigh_cons, hfeeds]
      rfl
  | announced d a hparse hid =>
      refine Entries.keeps_stored rfl rfl (ite_self 0) ?_
      rw [weigh_append, weigh_cons, hfeeds]
      rfl
  | scores ip' call detector ban hscore =>
      refine Entries.keeps_of [] [] (List.append_nil _).symm (List.append_nil _).symm ?_
      cases ban <;> rfl
  | records ip' crossing detector tier' hrecord =>
      refine Entries.keeps_of [.offended ip' tier'] [] rfl (List.append_nil _).symm ?_
      rw [weigh_bans]
      cases henable : sh.config.nftEnable <;>
        simp [banEntries, henable, Event.isOffence, Event.isWrite, Job.isSpawn]
  | spawns ip' tier' duration =>
      refine Entries.keeps_of [] [.ban ip' tier' duration] (List.append_nil _).symm rfl ?_
      simp [banEntries, Job.isSpawn, Blocking.isBan]
  | counts | sends | responds =>
      refine Entries.keeps_of [_] [] rfl (List.append_nil _).symm ?_
      simp [banEntries, Event.isOffence, Event.isWrite, Job.isSpawn]
  | httpAnnounced r => exact Entries.keeps_stored rfl rfl (ite_self 0) rfl
  | httpBad r | httpScraped r => exact Entries.keeps_quiet (hanswered _ _).symm
  | _ => exact Entries.keeps_quiet rfl

variable (lib sh) in
theorem banEntries_sound (ip : IpAddr) (tier : UInt32) : (banEntries sh ip tier).Sound lib sh where
  received _ := by simp [banEntries, Event.isOffence, Event.isWrite, Job.isSpawn]
  requested _ := by simp [banEntries, Event.isOffence, Event.isWrite, Job.isSpawn]
  ran _ := banEntries_ran
  banned _ _ _ _ := by simp [banEntries, Event.isOffence, Event.isWrite, Blocking.isBan]
  failed _ _ _ := by simp [banEntries, Event.isOffence, Event.isWrite, Blocking.isBan]
  counted _ := by simp [banEntries, Event.isOffence, Event.isWrite, Blocking.isBan]
  stored _ := by simp [banEntries, Event.isOffence, Event.isWrite]

/-- The job has to do with the detector. -/
def Job.ofDetector : Job → Bool
  | .feed _ _ | .record _ _ | .spawn _ _ _ => true
  | _ => false

/-- The event has to do with the detector. -/
def Event.ofDetector : Event → Bool
  | .offended _ _ | .banned _ _ _ | .failed _ _ => true
  | _ => false

/-- Without the detector, nothing that has to do with it follows. -/
theorem runs_disabled (hl7 : sh.config.l7Enable = false) {order : HashOrder} {w w' : World} {job : Job} {new : List Job}
    (hjob : job.ofDetector = false) (hruns : Runs lib sh order w job w' new) :
    ∀ job' ∈ new, job'.ofDetector = false := by
  have hfeeds : ∀ d signals, feeds sh d signals = [] := by
    intro d signals
    rw [feeds, hl7]
    rfl
  cases hruns with
  | scores | records | spawns => cases hjob
  | httpBad r | httpScraped r => exact forall_mem_answered (fun _ => rfl) r (fun _ => rfl) _
  | _ => simp [hfeeds, Job.ofDetector]

variable (lib) in
theorem each_disabled (hl7 : sh.config.l7Enable = false) (start : UInt64) (acts : List (Act n)) :
    Each (fun job => job.ofDetector = false) (State.run lib sh start acts).tasks :=
  each_run (fun _ => rfl) (fun _ => rfl) (runs_disabled hl7) start acts

/-- Without the detector, there are no offences, nothing is written, and it stays as it was made. -/
theorem run_disabled (hl7 : sh.config.l7Enable = false) (start : UInt64) (acts : List (Act n)) :
    (∀ e ∈ (State.run lib sh start acts).world.log, e.ofDetector = false) ∧
      (State.run lib sh start acts).world.pool = [] ∧
      (State.run lib sh start acts).world.detector = Detector.new sh.config.l7 := by
  have hinit : (∀ e ∈ (State.init sh n start).world.log, e.ofDetector = false) ∧
      (State.init sh n start).world.pool = [] ∧ (State.init sh n start).world.detector = Detector.new sh.config.l7 :=
    ⟨fun e he => absurd he List.not_mem_nil, rfl, rfl⟩
  refine State.run_induction (fun s => (∀ e ∈ s.world.log, e.ofDetector = false) ∧ s.world.pool = [] ∧
    s.world.detector = Detector.new sh.config.l7) hinit ?_ acts
  intro acts s' hsteps ⟨hlog, hpool, hdetector⟩
  have hevent : ∀ e, e.ofDetector = false →
      ∀ e' ∈ (State.run lib sh start acts).world.log ++ [e], e'.ofDetector = false :=
    fun e he => List.forall_mem_append.mpr ⟨hlog, List.forall_mem_singleton.mpr he⟩
  cases hsteps with
  | idle | clock => exact ⟨hlog, hpool, hdetector⟩
  | received | requested | gc => exact ⟨hevent _ rfl, hpool, hdetector⟩
  | banned k ip tier duration kernel element hat => simp [hpool] at hat
  | failed k ip tier duration kernel e hat => simp [hpool] at hat
  | counted k c hat => simp [hpool] at hat
  | ran t order job rest w' new htask hruns =>
      have hjob := each_disabled lib hl7 start acts t job (by rw [htask]; exact List.mem_cons_self)
      cases hruns with
      | scores | records | spawns => cases hjob
      | announced | httpAnnounced | counts | sends | responds => exact ⟨hevent _ rfl, hpool, hdetector⟩
      | _ => exact ⟨hlog, hpool, hdetector⟩

/-- A write that is done was to the set of the ban's tier, among those of the address's own family. -/
def Written (sh : Shared) (e : Event) : Prop :=
  ∀ ip tier element, e = .banned ip tier element →
    Nft.tierSet (sh.sink.setsOf ip) tier.toNat = .ok element.set ∧ element.family = sh.sink.family ∧
      element.table = sh.sink.table ∧ element.ip = ip

theorem written_run (start : UInt64) (acts : List (Act n)) :
    ∀ e ∈ (State.run lib sh start acts).world.log, Written sh e := by
  have hinit : ∀ e ∈ (State.init sh n start).world.log, Written sh e := fun e he => absurd he List.not_mem_nil
  refine State.run_induction (fun s => ∀ e ∈ s.world.log, Written sh e) hinit ?_ acts
  intro acts s' hsteps h
  have hevent : ∀ e, Written sh e → ∀ e' ∈ (State.run lib sh start acts).world.log ++ [e], Written sh e' :=
    fun e he => List.forall_mem_append.mpr ⟨h, List.forall_mem_singleton.mpr he⟩
  cases hsteps with
  | idle | clock => exact h
  | received | requested | failed | counted | gc => exact hevent _ fun _ _ _ heq => by cases heq
  | banned k ip tier duration kernel element hat hban =>
      refine hevent _ fun _ _ _ heq => ?_
      cases heq
      exact Nft.ban_eq_ok hban
  | ran t order job rest w' new htask hruns =>
      cases hruns with
      | announced | httpAnnounced | counts | records | sends | responds =>
          exact hevent _ fun _ _ _ heq => by cases heq
      | _ => exact h

variable (lib sh) in
/-- The offences of a source at a tier are its writes, but for those still on their way. -/
theorem writes_run (start : UInt64) (acts : List (Act n)) (ip : IpAddr) (tier : UInt32) :
    (if sh.config.nftEnable then (State.run lib sh start acts).world.log.countP (·.isOffence ip tier) else 0) =
      (State.run lib sh start acts).world.log.countP (·.isWrite ip tier) +
        (State.run lib sh start acts).world.pool.countP (·.isBan ip tier) +
        total (banEntries sh ip tier).owes (State.run lib sh start acts).tasks := by
  have hbal := (banEntries_sound lib sh ip tier).balances start acts
  have hdue : weigh (banEntries sh ip tier).due (State.run lib sh start acts).world.log =
      if sh.config.nftEnable then (State.run lib sh start acts).world.log.countP (·.isOffence ip tier) else 0 := by
    unfold banEntries
    split_ifs
    · exact weigh_toNat _ _
    · exact weigh_eq_zero fun _ _ => rfl
  rw [← hdue, ← weigh_toNat, ← weigh_toNat]
  exact hbal

/-- The bans that a job may still come to hand to the pool. -/
def maySpawn (ip : IpAddr) (tier : UInt32) : Job → Nat
  | .handle _ | .scrape _ _ _ _ | .feed _ _ | .record _ _ => 1
  | .spawn ip' tier' duration => ((Job.spawn ip' tier' duration).isSpawn ip tier).toNat
  | _ => 0

theorem maySpawn_runs {ip : IpAddr} {tier : UInt32} {order : HashOrder} {w w' : World} {job : Job} {new : List Job}
    (hruns : Runs lib sh order w job w' new) : weigh (maySpawn ip tier) new ≤ maySpawn ip tier job := by
  have hanswered : ∀ r response, weigh (maySpawn ip tier) (answered lib sh r response) = 0 :=
    fun r response => weigh_eq_zero (forall_mem_answered (fun _ => rfl) r (fun _ => rfl) response)
  have hfeed : ∀ d signal, weigh (maySpawn ip tier) (feeds sh d [signal]) ≤ 1 :=
    fun d signal => weigh_feeds_singleton sh (maySpawn ip tier) d signal
  cases hruns with
  | connected d | announced d | scraped d =>
      rw [weigh_append, weigh_cons]
      exact (Nat.zero_add _).trans_le (hfeed d _)
  | refused d id hclaims hid =>
      rw [weigh_cons]
      exact (Nat.zero_add _).trans_le (hfeed d _)
  | scores ip' call detector ban hscore =>
      cases ban with
      | true => exact Nat.le_refl 1
      | false => exact Nat.zero_le _
  | records ip' crossing detector tier' hrecord =>
      rw [weigh_bans]
      have hspawn : maySpawn ip tier (.spawn ip' tier' detector.config.banDuration) ≤ 1 := Bool.toNat_le _
      split_ifs <;> simp only [maySpawn] at hspawn ⊢ <;> omega
  | httpBad r | httpScraped r => exact (hanswered _ _).trans_le (Nat.zero_le _)
  | _ => simp [maySpawn]

/-- A task has no more than one ban to hand to the pool. -/
theorem atMost_isSpawn (ip : IpAddr) (tier : UInt32) (start : UInt64) (acts : List (Act n)) :
    AtMost (banEntries sh ip tier).owes 1 (State.run lib sh start acts).tasks := by
  have hmay : AtMost (maySpawn ip tier) 1 (State.run lib sh start acts).tasks :=
    atMost_run (fun _ => Nat.le_refl 1) (fun _ => Nat.zero_le 1) (fun _ => maySpawn_runs) start acts
  refine fun t => Nat.le_trans (List.sum_le_sum fun job _ => ?_) (hmay t)
  cases job <;> first | exact Nat.le_refl _ | exact Nat.zero_le _

/-- **Every offence is banned once, in the set of its tier**: the writes of any ban, done or failed, are as many as
its offences, but for those still on their way; and without the detector there are neither. -/
theorem bans_accounted (lib : Libraries) (sh : Shared) (start : UInt64) (acts : List (Act n)) :
    let s := State.run lib sh start acts
    (∀ ip tier, ∃ late, (if sh.config.nftEnable then s.world.log.countP (·.isOffence ip tier) else 0) =
        s.world.log.countP (·.isWrite ip tier) + s.world.pool.countP (·.isBan ip tier) + late ∧
      late = ∑ t, (s.tasks t).countP (·.isSpawn ip tier) ∧ late ≤ n ∧ ((∀ t, s.tasks t = []) → late = 0)) ∧
    (∀ ip tier element, .banned ip tier element ∈ s.world.log →
      Nft.tierSet (sh.sink.setsOf ip) tier.toNat = .ok element.set ∧ element.family = sh.sink.family ∧
        element.table = sh.sink.table ∧ element.ip = ip) ∧
    (sh.config.l7Enable = false → (∀ e ∈ s.world.log, e.ofDetector = false) ∧ s.world.pool = [] ∧
      s.world.detector = Detector.new sh.config.l7 ∧ ∀ t, ∀ job ∈ s.tasks t, job.ofDetector = false) := by
  intro s
  refine ⟨fun ip tier => ?_, fun ip tier element he => written_run start acts _ he ip tier element rfl, fun hl7 => ?_⟩
  · exact ⟨total (banEntries sh ip tier).owes s.tasks, writes_run lib sh start acts ip tier,
      Finset.sum_congr rfl fun t _ => weigh_toNat _ _, (atMost_isSpawn ip tier start acts).total_le, total_idle⟩
  · obtain ⟨hlog, hpool, hdetector⟩ := run_disabled hl7 start acts
    exact ⟨hlog, hpool, hdetector, each_disabled lib hl7 start acts⟩

/-- The crossing that a task holds between its two sections. -/
def held : List Job → Option Escalation.Crossing
  | .record _ crossing :: _ => some crossing
  | _ => none

/-- The job is the second section of a call. -/
def Job.isRecord : Job → Bool
  | .record _ _ => true
  | _ => false

theorem held_eq_none {jobs : List Job} (h : ∀ job ∈ jobs, job.isRecord = false) : held jobs = none := by
  cases jobs with
  | nil => rfl
  | cons job jobs =>
      have hjob := h job List.mem_cons_self
      cases job <;> first | rfl | cases hjob

/-- The sections of a call are of the address that it came from. -/
def Job.Sourced : Job → Prop
  | .feed ip call => call.ip = ipTo16 ip
  | .record ip crossing => crossing.ip = ipTo16 ip
  | _ => True

/-- The offences in the daemon's log, by source. -/
def offences (log : List Event) : List (Ip × UInt32) :=
  log.filterMap fun
    | .offended ip tier => some (ipTo16 ip, tier)
    | _ => none

theorem sourced_runs {order : HashOrder} {w w' : World} {job : Job} {new : List Job} (h : job.Sourced)
    (hruns : Runs lib sh order w job w' new) : ∀ job' ∈ new, job'.Sourced := by
  have hfeeds : ∀ d signals, ∀ job ∈ feeds sh d signals, job.Sourced := by
    intro d signals
    unfold feeds
    split_ifs
    · exact List.forall_mem_map.mpr fun _ _ => rfl
    · exact fun job hjob => absurd hjob List.not_mem_nil
  cases hruns with
  | connected d | announced d | scraped d =>
      simp only [List.forall_mem_cons, List.forall_mem_append]
      exact ⟨⟨trivial, hfeeds _ _⟩, trivial, fun _ h => absurd h List.not_mem_nil⟩
  | refused d =>
      simp only [List.forall_mem_cons]
      exact ⟨trivial, hfeeds _ _⟩
  | scores ip call detector ban =>
      cases ban with
      | true => exact List.forall_mem_singleton.mpr h
      | false => exact fun _ h => absurd h List.not_mem_nil
  | records ip crossing detector tier => exact forall_mem_bans (fun _ => trivial) (fun _ _ _ => trivial) _ _ _
  | httpBad r | httpScraped r => exact forall_mem_answered (fun _ => trivial) _ (fun _ => trivial) _
  | _ => simp [Job.Sourced]

theorem each_sourced (start : UInt64) (acts : List (Act n)) : Each Job.Sourced (State.run lib sh start acts).tasks :=
  each_run (fun _ => trivial) (fun _ => trivial) sourced_runs start acts

/-- A state of the daemon, and the state of the detector and its callers that it stands for. -/
structure Simulates (s : State n) (e : Escalation.State) : Prop where
  detector : s.world.detector = e.detector
  waiting : ∀ t : Fin n, e.waiting t = held (s.tasks t)
  offences : offences s.world.log = Escalation.recorded e.log
  /-- Only the first job of a task can be the second section of a call. -/
  behind : ∀ t, ∀ job ∈ (s.tasks t).tail, job.isRecord = false

variable {s : State n} {e : Escalation.State} {t : Fin n}

theorem behind_update {tasks : Fin n → List Job} (h : ∀ t, ∀ job ∈ (tasks t).tail, job.isRecord = false)
    {jobs : List Job} (hjobs : ∀ job ∈ jobs.tail, job.isRecord = false) :
    ∀ t', ∀ job ∈ (Function.update tasks t jobs t').tail, job.isRecord = false := by
  intro t'
  by_cases ht : t' = t
  · rw [ht, Function.update_self]
    exact hjobs
  · rw [Function.update_of_ne ht]
    exact h t'

/-- A task goes on without the detector. -/
theorem Simulates.next (h : Simulates s e) {w' : World} {jobs : List Job} (hheld : held (s.tasks t) = none)
    (hdetector : w'.detector = s.world.detector) (hlog : Daemon.offences w'.log = Daemon.offences s.world.log)
    (hjobs : ∀ job ∈ jobs, job.isRecord = false) : Simulates ⟨w', Function.update s.tasks t jobs⟩ e where
  detector := hdetector.trans h.detector
  waiting t' := by
    rw [h.waiting t']
    by_cases ht : t' = t
    · rw [ht, hheld]
      dsimp only
      rw [Function.update_self, held_eq_none hjobs]
    · dsimp only
      rw [Function.update_of_ne ht]
  offences := hlog.trans h.offences
  behind := behind_update h.behind fun job hjob => hjobs job (List.mem_of_mem_tail hjob)

theorem Simulates.score (h : Simulates s e) {order : HashOrder} {ip : IpAddr} {call : Call} {rest : List Job}
    (htask : s.tasks t = .feed ip call :: rest) {detector : Detector} {ban : Bool}
    (hscore : s.world.detector.underShard order call.ip call.now
      (call.signal.apply s.world.detector.config call.now) = (detector, ban)) :
    Simulates ⟨{ s.world with detector }, Function.update s.tasks t
      ((if ban then [.record ip ⟨call.ip, call.now⟩] else []) ++ rest)⟩ (e.step (.score t order call)) := by
  have hrest := h.behind t
  rw [htask, List.tail_cons] at hrest
  have hidle : e.waiting t = none := by
    rw [h.waiting t, htask]
    rfl
  rw [h.detector] at hscore
  have hstep : e.step (.score t order call) =
      if ban then ⟨detector, Function.update e.waiting t (some ⟨call.ip, call.now⟩),
        e.log ++ [.crossed t ⟨call.ip, call.now⟩]⟩
      else { e with detector } := by
    simp only [Escalation.State.step, hidle, hscore]
  rw [hstep]
  cases ban with
  | false =>
      simp only [Bool.false_eq_true, if_false]
      refine ⟨rfl, fun t' => ?_, h.offences,
        behind_update h.behind fun job hjob => hrest job (List.mem_of_mem_tail hjob)⟩
      by_cases ht : t' = t
      · subst ht
        dsimp only
        rw [Function.update_self, hidle]
        exact (held_eq_none hrest).symm
      · dsimp only
        rw [Function.update_of_ne ht]
        exact h.waiting t'
  | true =>
      simp only [if_true]
      refine ⟨rfl, fun t' => ?_, ?_, behind_update h.behind hrest⟩
      · by_cases ht : t' = t
        · subst ht
          dsimp only
          rw [Function.update_self, Function.update_self]
          rfl
        · dsimp only
          rw [Function.update_of_ne (Fin.val_ne_of_ne ht), Function.update_of_ne ht]
          exact h.waiting t'
      · dsimp only
        rw [Escalation.recorded_crossed, h.offences]

theorem Simulates.record (h : Simulates s e) (order : HashOrder) {ip : IpAddr} {crossing : Escalation.Crossing}
    {rest : List Job} (htask : s.tasks t = .record ip crossing :: rest) (hsourced : crossing.ip = ipTo16 ip)
    {detector : Detector} {tier : UInt32}
    (hrecord : s.world.detector.recordOffence order crossing.ip crossing.now = (detector, tier)) :
    Simulates ⟨{ s.world with detector, log := s.world.log ++ [.offended ip tier] }, Function.update s.tasks t
      (bans sh ip tier detector.config.banDuration ++ rest)⟩ (e.step (.record t order)) := by
  have hrest := h.behind t
  rw [htask, List.tail_cons] at hrest
  have hheld : e.waiting t = some crossing := by
    rw [h.waiting t, htask]
    rfl
  have hjobs : ∀ job ∈ bans sh ip tier detector.config.banDuration ++ rest, job.isRecord = false :=
    List.forall_mem_append.mpr ⟨forall_mem_bans (fun _ => rfl) (fun _ _ _ => rfl) _ _ _, hrest⟩
  rw [h.detector] at hrecord
  rw [Escalation.State.step_record order hheld, hrecord]
  refine ⟨rfl, fun t' => ?_, ?_, behind_update h.behind fun job hjob => hjobs job (List.mem_of_mem_tail hjob)⟩
  · by_cases ht : t' = t
    · subst ht
      dsimp only
      rw [Function.update_self, Function.update_self, held_eq_none hjobs]
    · dsimp only
      rw [Function.update_of_ne (Fin.val_ne_of_ne ht), Function.update_of_ne ht]
      exact h.waiting t'
  · dsimp only
    rw [Daemon.offences, List.filterMap_append, ← Daemon.offences, h.offences, Escalation.recorded_recorded, hsourced]
    rfl

/-- A step of the daemon is a step of the detector's callers, or none. -/
theorem Simulates.step (h : Simulates s e) {s' : State n} (hsourced : Each Job.Sourced s.tasks)
    (hsteps : Steps lib sh s s') :
    ∃ actions : List Escalation.Action, Simulates s' (actions.foldl Escalation.State.step e) := by
  have hevent : ∀ event : Event, Daemon.offences [event] = [] →
      Daemon.offences (s.world.log ++ [event]) = Daemon.offences s.world.log := by
    intro event hevent
    rw [Daemon.offences, List.filterMap_append, ← Daemon.offences, ← Daemon.offences, hevent, List.append_nil]
  cases hsteps with
  | idle | clock => exact ⟨[], h.detector, h.waiting, h.offences, h.behind⟩
  | received t d hnow hbuf htask | requested t d hnow htask =>
      exact ⟨[], h.next (by rw [htask]; rfl) rfl (hevent _ rfl) (List.forall_mem_singleton.mpr rfl)⟩
  | counted | banned | failed | gc => exact ⟨[], h.detector, h.waiting, (hevent _ rfl).trans h.offences, h.behind⟩
  | ran t order job rest w' new htask hruns =>
      have hrest := h.behind t
      rw [htask, List.tail_cons] at hrest
      have hnext : ∀ {w' : World}, job.isRecord = false → w'.detector = s.world.detector →
          Daemon.offences w'.log = Daemon.offences s.world.log → (∀ job ∈ new, job.isRecord = false) →
          ∃ actions : List Escalation.Action,
            Simulates ⟨w', Function.update s.tasks t (new ++ rest)⟩ (actions.foldl Escalation.State.step e) := by
        intro w' hjob hdetector hlog hnew
        have hheld : held (s.tasks t) = none := by
          rw [htask]
          exact held_eq_none (List.forall_mem_cons.mpr ⟨hjob, hrest⟩)
        exact ⟨[], h.next hheld hdetector hlog (List.forall_mem_append.mpr ⟨hnew, hrest⟩)⟩
      have hserved : ∀ c d signals peer bytes, ∀ job ∈ .count c :: feeds sh d signals ++ [.send peer bytes],
          job.isRecord = false := by
        intro c d signals peer bytes
        simp only [List.forall_mem_cons, List.forall_mem_append]
        exact ⟨⟨rfl, forall_mem_feeds (fun _ _ => rfl) d signals⟩, rfl, fun _ h => absurd h List.not_mem_nil⟩
      cases hruns with
      | scores ip call detector ban hscore => exact ⟨[.score t order call], h.score htask hscore⟩
      | records ip crossing detector tier hrecord =>
          have hip := hsourced t (.record ip crossing) (by rw [htask]; exact List.mem_cons_self)
          exact ⟨[.record t order], h.record order htask hip hrecord⟩
      | connected | scraped => exact hnext rfl rfl rfl (hserved _ _ _ _ _)
      | announced => exact hnext rfl rfl (hevent _ rfl) (hserved _ _ _ _ _)
      | httpAnnounced => exact hnext rfl rfl (hevent _ rfl) (by simp [Job.isRecord])
      | refused d id hclaims hid =>
          exact hnext rfl rfl rfl (List.forall_mem_cons.mpr ⟨rfl, forall_mem_feeds (fun _ _ => rfl) d _⟩)
      | counts | sends | responds =>
          exact hnext rfl rfl (hevent _ rfl) fun _ h => absurd h List.not_mem_nil
      | httpBad r | httpScraped r =>
          exact hnext rfl rfl rfl (forall_mem_answered (fun _ => rfl) r (fun _ => rfl) _)
      | _ => exact hnext rfl rfl rfl (by simp [Job.isRecord])

/-- **The daemon's offences escalate.** A run is an interleaving of the detector's calls, one section after the
other, whatever else its tasks do in between; and as long as no more sources have offended than the registry
holds, the tier of an offence is that of its number among all offences of its source. -/
theorem offences_escalate (lib : Libraries) (sh : Shared) (start : UInt64) (acts : List (Act n)) :
    let s := State.run lib sh start acts
    (∃ actions : List Escalation.Action, s.world.detector = (Escalation.State.run sh.config.l7 actions).detector ∧
      offences s.world.log = Escalation.recorded (Escalation.State.run sh.config.l7 actions).log) ∧
    ((Escalation.sources (offences s.world.log)).toFinset.card ≤ sh.config.l7.maxOffenders →
      ∀ pre ip tier post, offences s.world.log = pre ++ (ip, tier) :: post →
        tier.toNat = tierAt sh.config.l7 ((Escalation.sources pre).count ip + 1)) := by
  intro s
  have hinit : ∃ actions : List Escalation.Action,
      Simulates (State.init sh n start) (Escalation.State.run sh.config.l7 actions) :=
    ⟨[], rfl, fun _ => rfl, rfl, fun _ _ h => absurd h List.not_mem_nil⟩
  have hrun : ∃ actions : List Escalation.Action, Simulates s (Escalation.State.run sh.config.l7 actions) := by
    refine State.run_induction (fun s => ∃ actions : List Escalation.Action,
      Simulates s (Escalation.State.run sh.config.l7 actions)) hinit ?_ acts
    intro acts s' hsteps ⟨actions, hsim⟩
    obtain ⟨more, hnext⟩ := hsim.step (each_sourced start acts) hsteps
    exact ⟨actions ++ more, by rwa [Escalation.State.run, List.foldl_append]⟩
  obtain ⟨actions, hsim⟩ := hrun
  refine ⟨⟨actions, hsim.detector, hsim.offences⟩, fun hroom => ?_⟩
  rw [hsim.offences] at hroom ⊢
  intro pre ip tier post hsplit
  exact (Escalation.remembers_run sh.config.l7 actions hroom).numbered pre (ip, tier) post hsplit

end

end Daemon
end Bluefrog
