import Bluefrog.Main.Ledgers

/-!
What the daemon's counters count. A counter runs behind the events it is for by what the tasks have begun and
have not counted yet, in every interleaving.
-/

open Rust Tasks

namespace Bluefrog

open Udp

namespace Daemon

section

variable (lib : Libraries) (sh : Shared)

/-- The event is one that the counter is for. -/
def Event.isFor (c : Counter) : Event → Bool
  | .received d => decide (outcome lib sh d = c)
  | .requested r => decide (r.outcome = some c)
  | .offended _ tier => decide (c = .l7Ban) || (decide (c = .l7BanEscalated) && decide (0 < tier))
  | .failed _ _ => decide (c = .nftError)
  | _ => false

end

/-- The event is an increment of the counter. -/
def Event.isCount (c : Counter) : Event → Bool
  | .counted c' => decide (c' = c)
  | _ => false

/-- The work is an increment of the counter. -/
def Blocking.isCount (c : Counter) : Blocking → Bool
  | .count c' => decide (c' = c)
  | .ban _ _ _ => false

section

variable (lib : Libraries) (sh : Shared)

/-- What a counter is for, and what has been counted. -/
def countEntries (c : Counter) : Entries where
  due e := (e.isFor lib sh c).toNat
  done e := (e.isCount c).toNat
  owes
    | .handle d => (decide (outcome lib sh d = c)).toNat
    | .scrape _ _ _ _ => (decide (.udpScrape = c)).toNat
    | .count c' => (decide (c' = c)).toNat
    | .answer r => (decide (r.outcome = some c)).toNat
    | .scrapeFiles _ pairs files => (decide (scrapeOutcome pairs files.length = c)).toNat
    | _ => 0
  holds b := (b.isCount c).toNat

variable {n : Nat} {lib sh}

theorem countEntries_ran {c : Counter} {order : HashOrder} {w w' : World} {job : Job} {new : List Job}
    (hrouted : job.Routed) (hruns : Runs lib sh order w job w' new) :
    (countEntries lib sh c).ledger.Keeps w job w' new := by
  have hfeeds := fun d signals => weigh_feeds sh (w := (countEntries lib sh c).owes) (fun _ _ => rfl) d signals
  cases hruns with
  | dropped d e hparse =>
      refine Entries.keeps_quiet ?_
      simp only [countEntries, outcome_dropped hparse, weigh_cons, weigh_nil, Nat.add_zero]
  | connected d transactionId hparse =>
      refine Entries.keeps_quiet ?_
      simp only [weigh_cons, weigh_append, weigh_nil, hfeeds]
      simp only [countEntries, outcome_connected hparse, Nat.add_zero]
  | refused d id hclaims hid =>
      refine Entries.keeps_quiet ?_
      simp only [weigh_cons, hfeeds]
      simp only [countEntries, outcome_refused hclaims hid, Nat.add_zero]
  | announced d a hparse hid =>
      refine Entries.keeps_stored rfl rfl rfl ?_
      simp only [weigh_cons, weigh_append, weigh_nil, hfeeds]
      simp only [countEntries, outcome_announced hparse hid, Nat.add_zero]
  | scraping d s hashes hparse hhashes hid =>
      refine Entries.keeps_quiet ?_
      simp only [countEntries, outcome_scraping hparse hid, weigh_cons, weigh_nil, Nat.add_zero]
  | read d s hash todo entries => exact Entries.keeps_quiet rfl
  | scraped d s hashes entries hhashes =>
      refine Entries.keeps_quiet ?_
      simp only [weigh_cons, weigh_append, weigh_nil, hfeeds]
      rfl
  | counts c' =>
      exact Entries.keeps_of [.counted c'] [] rfl (List.append_nil _).symm
        (by simp [countEntries, Event.isFor, Event.isCount])
  | scores ip call detector ban hscore =>
      refine Entries.keeps_of [] [] (List.append_nil _).symm (List.append_nil _).symm ?_
      cases ban <;> rfl
  | records ip crossing detector tier hrecord =>
      refine Entries.keeps_of [.offended ip tier] [] rfl (List.append_nil _).symm ?_
      rw [weigh_bans]
      simp only [countEntries, Event.isFor, Event.isCount, weigh_cons, weigh_nil, ite_self]
      by_cases htier : 0 < tier <;> cases c <;> simp [htier]
  | spawns ip tier duration => exact Entries.keeps_of [] [.ban ip tier duration] (List.append_nil _).symm rfl rfl
  | sends peer bytes => exact Entries.keeps_of [.sent peer bytes] [] rfl (List.append_nil _).symm rfl
  | httpAnnounced r p hash port hpath hp hhash hport =>
      refine Entries.keeps_stored rfl rfl rfl ?_
      simp [countEntries, r.outcome_announced hpath hp]
  | httpForgot r p hpath hp hforgets =>
      refine Entries.keeps_quiet ?_
      simp [countEntries, r.outcome_announced hpath hp]
  | httpRefused r response hpath hp =>
      refine Entries.keeps_quiet ?_
      simp [countEntries, r.outcome_refused hpath hp]
  | httpScraping r hpath =>
      refine Entries.keeps_quiet ?_
      simp [countEntries, r.outcome_scraping hpath]
  | httpRedirected r hpath =>
      refine Entries.keeps_quiet ?_
      have hother : r.outcome = none := r.outcome_other (by rw [hpath]; decide) (by rw [hpath]; decide)
      simp [countEntries, hother]
  | httpMissed r hpath =>
      refine Entries.keeps_quiet ?_
      simp [countEntries, r.outcome_other hpath.1 hpath.2.1]
  | httpSkipped r key raw pairs files hkey =>
      refine Entries.keeps_quiet ?_
      simp [countEntries, scrapeOutcome_skipped hkey]
  | httpRead r raw pairs files hash hroom hdecode =>
      refine Entries.keeps_quiet ?_
      simp [countEntries, scrapeOutcome_read hdecode hroom]
  | httpBad r raw pairs files hroom hdecode =>
      refine Entries.keeps_quiet ?_
      simp [countEntries, scrapeOutcome_bad hdecode hroom, answered]
  | httpScraped r pairs files hend =>
      refine Entries.keeps_quiet ?_
      rw [answered_scrape hrouted]
      simp [countEntries, scrapeOutcome_end hend]
  | responds r reply => exact Entries.keeps_of [.responded r reply] [] rfl (List.append_nil _).symm rfl

variable (lib sh) in
theorem countEntries_sound (c : Counter) : (countEntries lib sh c).Sound lib sh where
  received _ := (Nat.zero_add _).symm
  requested _ := (Nat.zero_add _).symm
  ran := countEntries_ran
  banned _ _ _ _ := rfl
  failed _ _ _ := by simp [countEntries, Event.isFor, Event.isCount, Blocking.isCount, eq_comm]
  counted _ := by simp [countEntries, Event.isFor, Event.isCount, Blocking.isCount]
  stored _ := rfl

/-- A counter of the world holds the number of its increments, as far as the number fits. -/
def Fields (w : World) : Prop := ∀ c, w.metrics.field c = UInt64.ofNat (w.log.countP (·.isCount c))

theorem Fields.same {w w' : World} (h : Fields w) (hmetrics : w'.metrics = w.metrics) (hlog : w'.log = w.log) :
    Fields w' := by
  rw [Fields, hmetrics, hlog]
  exact h

theorem Fields.event {w w' : World} (h : Fields w) {e : Event} (hevent : ∀ c, e.isCount c = false)
    (hmetrics : w'.metrics = w.metrics) (hlog : w'.log = w.log ++ [e]) : Fields w' := by
  intro c
  rw [hmetrics, hlog, List.countP_append, List.countP_singleton, hevent c]
  exact h c

theorem Fields.count {w w' : World} (h : Fields w) {c : Counter} (hmetrics : w'.metrics = w.metrics.inc c)
    (hlog : w'.log = w.log ++ [.counted c]) : Fields w' := by
  intro c'
  rw [hmetrics, hlog, List.countP_append, List.countP_singleton, Metrics.field_inc, h c']
  by_cases hc : c' = c
  · rw [if_pos hc, if_pos (show Event.isCount c' (.counted c) = true from decide_eq_true hc.symm), UInt64.ofNat_add]
    rfl
  · rw [if_neg hc, if_neg (by simp [Event.isCount, Ne.symm hc]), Nat.add_zero]

theorem Fields.runs {order : HashOrder} {w w' : World} {job : Job} {new : List Job} (h : Fields w)
    (hruns : Runs lib sh order w job w' new) : Fields w' := by
  cases hruns with
  | counts c => exact h.count rfl rfl
  | announced | httpAnnounced | records | sends | responds => exact h.event (fun _ => rfl) rfl rfl
  | _ => exact h.same rfl rfl

theorem fields_run (start : UInt64) (acts : List (Act n)) : Fields (State.run lib sh start acts).world := by
  refine State.run_induction (fun s => Fields s.world) (fun c => Metrics.field_new c) ?_ acts
  intro acts s' hsteps h
  cases hsteps with
  | received | requested | banned | failed | gc => exact h.event (fun _ => rfl) rfl rfl
  | ran t order job rest w' new htask hruns => exact h.runs hruns
  | counted k c hpool => exact h.count rfl rfl
  | idle | clock => exact h.same rfl rfl

/-- What a job may still count for a counter, at most. -/
def mayCount (c : Counter) : Job → Nat
  | .handle _ | .scrape _ _ _ _ | .answer _ | .scrapeFiles _ _ _ => 1
  | .feed _ _ | .record _ _ => if c = .l7Ban ∨ c = .l7BanEscalated then 1 else 0
  | .count c' => if c' = c then 1 else 0
  | .spawn _ _ _ | .send _ _ | .respond _ _ => 0

theorem owes_le_mayCount (c : Counter) (job : Job) : (countEntries lib sh c).owes job ≤ mayCount c job := by
  cases job with
  | handle | scrape | answer | scrapeFiles => exact Bool.toNat_le _
  | feed | record | spawn | send | respond => exact Nat.zero_le _
  | count c' =>
      simp only [countEntries, mayCount]
      split_ifs with h <;> simp [h]

/-- A counter that is not of the detector's, and what the detector may count. -/
theorem mayCount_count_add_le {c' : Counter} (hban : c' ≠ .l7Ban) (hescalated : c' ≠ .l7BanEscalated) (c : Counter) :
    mayCount c (.count c') + (if c = .l7Ban ∨ c = .l7BanEscalated then 1 else 0) ≤ 1 := by
  change (if c' = c then 1 else 0) + _ ≤ 1
  by_cases heq : c' = c
  · rw [if_pos heq, if_neg (by simp [← heq, hban, hescalated])]
  · rw [if_neg heq]
    split_ifs <;> omega

theorem mayCount_count_le (c c' : Counter) : mayCount c (.count c') ≤ 1 := by
  change (if c' = c then 1 else 0) ≤ 1
  split_ifs <;> omega

theorem mayCount_bans_le (c : Counter) :
    mayCount c (.count .l7Ban) + mayCount c (.count .l7BanEscalated) ≤
      if c = .l7Ban ∨ c = .l7BanEscalated then 1 else 0 := by
  cases c <;> decide

theorem mayCount_runs {c : Counter} {order : HashOrder} {w w' : World} {job : Job} {new : List Job}
    (hrouted : job.Routed) (hruns : Runs lib sh order w job w' new) : weigh (mayCount c) new ≤ mayCount c job := by
  have hserved : ∀ c' d signal peer bytes, c' ≠ .l7Ban → c' ≠ .l7BanEscalated →
      weigh (mayCount c) (.count c' :: feeds sh d [signal] ++ [.send peer bytes]) ≤ 1 := by
    intro c' d signal peer bytes hban hescalated
    have hfeeds := weigh_feeds_singleton sh (mayCount c) d signal
    have hsum := mayCount_count_add_le hban hescalated c
    rw [weigh_append, weigh_cons]
    change _ + 0 ≤ 1
    change _ ≤ if c = .l7Ban ∨ c = .l7BanEscalated then 1 else 0 at hfeeds
    omega
  have hcounted : ∀ c' r reply, weigh (mayCount c) [.count c', .respond r reply] ≤ 1 :=
    fun c' _ _ => mayCount_count_le c c'
  cases hruns with
  | dropped d e hparse => exact mayCount_count_le c .udpDropped
  | connected d | announced d | scraped d => exact hserved _ _ _ _ _ (by decide) (by decide)
  | refused d id hclaims hid =>
      have hrefused := hserved .udpConnidMismatch d .connidMismatch d.peer [] (by decide) (by decide)
      rw [weigh_append] at hrefused
      exact Nat.le_trans (Nat.le_add_right _ _) hrefused
  | scraping | read | httpScraping | httpSkipped | httpRead => exact Nat.le_refl 1
  | counts | spawns | sends | httpRedirected | httpMissed | responds => exact Nat.zero_le _
  | scores ip call detector ban hscore =>
      cases ban with
      | true => exact Nat.le_refl _
      | false => exact Nat.zero_le _
  | records ip crossing detector tier hrecord =>
      have hbans := mayCount_bans_le c
      have hspawn : (if sh.config.nftEnable then mayCount c (.spawn ip tier detector.config.banDuration) else 0) = 0 :=
        ite_self 0
      rw [weigh_bans, hspawn]
      change _ ≤ if c = .l7Ban ∨ c = .l7BanEscalated then 1 else 0
      split_ifs at hbans ⊢ <;> omega
  | httpAnnounced r | httpForgot r | httpRefused r => exact hcounted _ _ _
  | httpBad r => exact hcounted _ _ _
  | httpScraped r pairs files hend =>
      rw [answered_scrape hrouted]
      exact hcounted _ _ _

theorem atMost_mayCount (c : Counter) (start : UInt64) (acts : List (Act n)) :
    AtMost (mayCount c) 1 (State.run lib sh start acts).tasks :=
  atMost_run (fun _ => Nat.le_refl 1) (fun _ => Nat.le_refl 1) mayCount_runs start acts

/-- The pool counts nothing but failures. -/
theorem pool_run (start : UInt64) (acts : List (Act n)) :
    ∀ b ∈ (State.run lib sh start acts).world.pool, ∀ c, b.isCount c = true → c = .nftError := by
  have hinit : ∀ b ∈ (State.init sh n start).world.pool, ∀ c, b.isCount c = true → c = .nftError :=
    fun b hb => absurd hb List.not_mem_nil
  refine State.run_induction (fun s => ∀ b ∈ s.world.pool, ∀ c, b.isCount c = true → c = .nftError) hinit ?_ acts
  intro acts s' hsteps h
  cases hsteps with
  | idle | received | requested | clock | gc => exact h
  | ran t order job rest w' new htask hruns =>
      rcases runs_pool hruns with hpool | ⟨ip, tier, duration, hpool⟩
      · rwa [hpool]
      · rw [hpool, List.forall_mem_append]
        exact ⟨h, List.forall_mem_singleton.mpr fun c hc => absurd hc (by simp [Blocking.isCount])⟩
  | banned k | counted k => exact fun b hb => h b (List.mem_of_mem_eraseIdx hb)
  | failed k =>
      intro b hb c hc
      rcases List.mem_or_eq_of_mem_set hb with hmem | rfl
      · exact h b hmem c hc
      · exact (of_decide_eq_true hc).symm

variable (lib sh) in
/-- What a counter is behind by is for the pool and the tasks to count, at most one for each task. -/
theorem late_run (c : Counter) (start : UInt64) (acts : List (Act n)) :
    ∃ late, (State.run lib sh start acts).world.log.countP (·.isFor lib sh c) =
        (State.run lib sh start acts).world.log.countP (·.isCount c) +
          (State.run lib sh start acts).world.pool.countP (·.isCount c) + late ∧
      late ≤ n ∧ ((∀ t, (State.run lib sh start acts).tasks t = []) → late = 0) := by
  have hbal := (countEntries_sound lib sh c).balances start acts
  have hlate : total (countEntries lib sh c).owes (State.run lib sh start acts).tasks ≤ n :=
    (total_mono (owes_le_mayCount c) _).trans (atMost_mayCount c start acts).total_le
  refine ⟨total (countEntries lib sh c).owes (State.run lib sh start acts).tasks, ?_, hlate, total_idle⟩
  rw [← weigh_toNat, ← weigh_toNat, ← weigh_toNat]
  exact hbal

/-- **Every counter is exact**: it holds the number of the events that it is for, but for those that a task or a
thread of the pool is still to count, at most one for each task. -/
theorem counters_accounted (lib : Libraries) (sh : Shared) (start : UInt64) (acts : List (Act n)) (c : Counter) :
    let s := State.run lib sh start acts
    ∃ late, s.world.log.countP (·.isFor lib sh c) =
        s.world.log.countP (·.isCount c) + s.world.pool.countP (·.isCount c) + late ∧
      late ≤ n ∧ ((∀ t, s.tasks t = []) → late = 0) ∧
      (c ≠ .nftError → s.world.pool.countP (·.isCount c) = 0) ∧
      s.world.metrics.field c = UInt64.ofNat (s.world.log.countP (·.isCount c)) := by
  intro s
  obtain ⟨late, hlate, hle, hidle⟩ := late_run lib sh c start acts
  refine ⟨late, hlate, hle, hidle, fun hc => ?_, fields_run start acts c⟩
  rw [List.countP_eq_zero]
  exact fun b hb hcount => hc (pool_run start acts b hb c hcount)

end

end Daemon
end Bluefrog
