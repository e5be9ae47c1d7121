import Bluefrog.Core.Locks
import Bluefrog.L7.Eviction
import Bluefrog.Main.Accounting
import Bluefrog.Main.Headcounts
import Bluefrog.Metrics.Page

/-!
What the page of the metrics shows. A request for it takes the locks of the store and of the detector one after the
other and then loads the counters one by one, while the daemon goes on.
-/

open Rust Tasks

namespace Bluefrog
namespace Store

/-- The store made of one shard each of some stores. -/
def patchwork (stores : Fin shardCount → Store) : Store := ⟨fun i => (stores i).shards i⟩

theorem wordOf_patchwork (stores : Fin shardCount → Store) (r : PeerRef) :
    (patchwork stores).wordOf r = (stores (shardIndex r.hash)).wordOf r := rfl

theorem totals_patchwork (stores : Fin shardCount → Store) (order : HashOrder) : (patchwork stores).totals order =
    (List.finRange shardCount).foldl (fun totals i => Locks.addShard order totals ((stores i).shards i)) ⟨0, 0, 0⟩ :=
  rfl

theorem sound_patchwork {stores : Fin shardCount → Store} (h : ∀ i, Locks.Sound (stores i)) :
    Locks.Sound (patchwork stores) where
  routed i hash hmem := (h i).routed i hash hmem
  counted hash t hget := (h (shardIndex hash)).counted hash t hget

theorem sound_run (order : HashOrder) (ops : List Op) : Locks.Sound (run order ops) where
  routed := by
    obtain ⟨hrouted, -⟩ := refines_run order ops
    exact hrouted
  counted := counted_run order ops

/-- The peers of all torrents whose last word is one or the other. -/
theorem exists_finset_words {s : Store} {m : FlatStore} (href : s.Refines m) (all : Bool) : ∃ rs : Finset PeerRef,
    (∀ r, r ∈ rs ↔ ∃ t, s.wordOf r = some (t, all)) ∧
      rs.card = ∑ hash ∈ m.keys, (s.swarm hash).countP fun e => e.2.isSeed = all := by
  choose rs hrs hcard using fun hash => s.exists_finset_swarm hash all
  refine ⟨m.keys.biUnion rs, fun r => ?_, ?_⟩
  · simp only [Finset.mem_biUnion, hrs]
    constructor
    · rintro ⟨hash, -, -, hword⟩
      exact hword
    · rintro ⟨t, hword⟩
      refine ⟨r.hash, ?_, rfl, t, hword⟩
      rw [Finmap.mem_keys, ← Finmap.lookup_isSome, ← href.get_eq]
      cases hget : s.get r.hash with
      | none =>
          rw [wordOf, peer, hget] at hword
          cases hword
      | some t => rfl
  · rw [Finset.card_biUnion]
    · exact Finset.sum_congr rfl fun hash _ => hcard hash
    · intro hash _ hash' _ hne
      rw [Function.onFun, Finset.disjoint_left]
      intro r hr hr'
      exact hne (((hrs hash r).mp hr).1.symm.trans ((hrs hash' r).mp hr').1)

/-- The totals count the torrents there are and the peers whose last word stands. -/
theorem headcount_totals {s : Store} (h : Locks.Sound s) (order : HashOrder) :
    ∃ (torrents : Finset InfoHash) (seeders leechers : Finset PeerRef),
      (∀ hash, hash ∈ torrents ↔ s.get hash ≠ none) ∧ (∀ r, r ∈ seeders ↔ ∃ t, s.wordOf r = some (t, true)) ∧
      (∀ r, r ∈ leechers ↔ ∃ t, s.wordOf r = some (t, false)) ∧
      s.totals order =
        ⟨UInt64.ofNat torrents.card, UInt64.ofNat seeders.card, UInt64.ofNat leechers.card⟩ := by
  obtain ⟨m, href, htotals⟩ := h.totals order
  obtain ⟨seeders, hseeders, hseed⟩ := exists_finset_words href true
  obtain ⟨leechers, hleechers, hleech⟩ := exists_finset_words href false
  have hrecount : ∀ hash, (m.lookup hash).elim 0 Torrent.seedCount = (s.recount hash).1 ∧
      (m.lookup hash).elim 0 Torrent.leechCount = (s.recount hash).2 := by
    intro hash
    rw [recount, ← href.get_eq]
    cases s.get hash <;> exact ⟨rfl, rfl⟩
  refine ⟨m.keys, seeders, leechers, fun hash => ?_, hseeders, hleechers, ?_⟩
  · rw [Finmap.mem_keys, ← Finmap.lookup_isSome, ← href.get_eq, Option.isSome_iff_ne_none]
  · rw [htotals, Finmap.len_eq_card_keys, Finmap.sumVals_eq_sum_keys, Finmap.sumVals_eq_sum_keys, hseed, hleech]
    simp only [hrecount, recount_eq, Bool.not_eq_true']

end Store

namespace Daemon

/-- A read of a request for the metrics: under one lock, or of one counter. -/
inductive Look where
  | swarms (i : Fin shardCount)
  | sources (i : Fin detectorShards)
  | offenders
  | counter (c : Counter)
  deriving DecidableEq

/-- The reads of a request, in their order. -/
def looks : List Look :=
  (List.finRange shardCount).map .swarms ++ (List.finRange detectorShards).map .sources ++
    .offenders :: Metrics.counters.map fun metric => .counter metric.2

/-- What a request has read. -/
structure Sampled where
  totals : Totals
  tracked : Nat
  offenders : Nat
  loads : Counter → UInt64

def Sampled.gauges (g : Sampled) : Gauges where
  torrents := g.totals.torrents
  seeders := g.totals.seeders
  leechers := g.totals.leechers
  l7Tracked := UInt64.ofNat g.tracked
  l7Offenders := UInt64.ofNat g.offenders

def Look.read (order : HashOrder) (w : World) (g : Sampled) : Look → Sampled
  | .swarms i => { g with totals := Locks.addShard order g.totals (w.store.shards i) }
  | .sources i => { g with tracked := g.tracked + (w.detector.shards i).len }
  | .offenders => { g with offenders := w.detector.offendersLen }
  | .counter c => { g with loads := Function.update g.loads c (w.metrics.field c) }

section Request

variable {n : Nat} (lib : Libraries) (sh : Shared) (pauses : Look → List (Act n)) (s : State n)

/-- The daemon at a read of a request that began in a state: others have run before each of the reads. -/
def momentOf (look : Look) : State n :=
  ((looks.takeWhile (· ≠ look) ++ [look]).flatMap pauses).foldl (State.step lib sh) s

def sample (order : Look → HashOrder) : Sampled :=
  looks.foldl (fun g look => look.read (order look) (momentOf lib sh pauses s look).world g)
    ⟨⟨0, 0, 0⟩, 0, 0, fun _ => 0⟩

/-- Answers a request for the metrics, if it comes from the host itself. -/
def serveMetrics (order : Look → HashOrder) (peer : IpAddr) : Option HttpReply :=
  let g := sample lib sh pauses s order
  if peer.isLoopback then some (httpReply 200 ((Metrics.ofLoads g.loads).render g.gauges)) else none

end Request

theorem mem_counters (c : Counter) : c ∈ Metrics.counters.map Prod.snd := by cases c <;> decide

theorem mem_looks (look : Look) : look ∈ looks := by
  simp only [looks, List.mem_append, List.mem_map, List.mem_cons, List.mem_finRange, true_and]
  cases look with
  | swarms i => exact .inl (.inl ⟨i, rfl⟩)
  | sources i => exact .inl (.inr ⟨i, rfl⟩)
  | offenders => exact .inr (.inl rfl)
  | counter c =>
      obtain ⟨metric, hmem, rfl⟩ := List.mem_map.mp (mem_counters c)
      exact .inr (.inr ⟨metric, hmem, rfl⟩)

/-- The reads up to one are the first of them. -/
theorem takeWhile_append_singleton_prefix {α : Type} [DecidableEq α] {a : α} {l : List α} (h : a ∈ l) :
    l.takeWhile (· ≠ a) ++ [a] <+: l := by
  induction l with
  | nil => cases h
  | cons b l ih =>
      by_cases hb : b = a
      · subst hb
        rw [List.takeWhile_cons_of_neg (by simp), List.nil_append]
        exact ⟨l, rfl⟩
      · rw [List.takeWhile_cons_of_pos (by simp [hb]), List.cons_append]
        exact List.cons_prefix_cons.mpr ⟨rfl, ih ((List.mem_cons.mp h).resolve_left (Ne.symm hb))⟩

section

variable {n : Nat} {lib : Libraries} {sh : Shared}

theorem foldl_swarms (order : Look → HashOrder) (w : Look → World) (l : List (Fin shardCount)) (g : Sampled) :
    (l.map Look.swarms).foldl (fun g look => look.read (order look) (w look) g) g =
      { g with totals := l.foldl (fun totals i =>
        Locks.addShard HashOrder.arbitrary totals ((w (.swarms i)).store.shards i)) g.totals } := by
  induction l generalizing g with
  | nil => rfl
  | cons i l ih =>
      rw [List.map_cons, List.foldl_cons, ih, List.foldl_cons, Look.read,
        Locks.addShard_order (order (.swarms i)) HashOrder.arbitrary]

theorem foldl_sources (order : Look → HashOrder) (w : Look → World) (l : List (Fin detectorShards)) (g : Sampled) :
    (l.map Look.sources).foldl (fun g look => look.read (order look) (w look) g) g =
      { g with tracked := g.tracked + (l.map fun i => ((w (.sources i)).detector.shards i).len).sum } := by
  induction l generalizing g with
  | nil => rfl
  | cons i l ih => rw [List.map_cons, List.foldl_cons, ih, Look.read, List.map_cons, List.sum_cons, Nat.add_assoc]

theorem foldl_counters (order : Look → HashOrder) (w : Look → World) (l : List Counter) (g : Sampled) :
    (l.map Look.counter).foldl (fun g look => look.read (order look) (w look) g) g =
      { g with loads := fun c => if c ∈ l then (w (.counter c)).metrics.field c else g.loads c } := by
  induction l generalizing g with
  | nil => rfl
  | cons c' l ih =>
      rw [List.map_cons, List.foldl_cons, ih, Look.read, Sampled.mk.injEq]
      refine ⟨rfl, rfl, rfl, funext fun c => ?_⟩
      simp only [List.mem_cons, Function.update_apply]
      by_cases hc : c = c'
      · simp only [hc, if_true, true_or, ite_self]
      · simp only [hc, if_false, false_or]

/-- What a request has read at its end, each part as of the moment that it was read. -/
theorem sample_eq (pauses : Look → List (Act n)) (s : State n) (order : Look → HashOrder) :
    sample lib sh pauses s order =
      ⟨(Store.patchwork fun i => (momentOf lib sh pauses s (.swarms i)).world.store).totals HashOrder.arbitrary,
        ∑ i, ((momentOf lib sh pauses s (.sources i)).world.detector.shards i).len,
        (momentOf lib sh pauses s .offenders).world.detector.offendersLen,
        fun c => (momentOf lib sh pauses s (.counter c)).world.metrics.field c⟩ := by
  have hlooks : looks = (List.finRange shardCount).map .swarms ++ ((List.finRange detectorShards).map .sources ++
      .offenders :: (Metrics.counters.map Prod.snd).map .counter) := by
    rw [looks, List.append_assoc, List.map_map]
    rfl
  rw [sample, hlooks, List.foldl_append, List.foldl_append, List.foldl_cons, foldl_swarms, foldl_sources,
    foldl_counters]
  simp only [Look.read, mem_counters, if_true, Nat.zero_add, Fin.sum_univ_def, Store.totals_patchwork]

theorem log_run (start : UInt64) (acts more : List (Act n)) :
    (State.run lib sh start acts).world.log <+: (State.run lib sh start (acts ++ more)).world.log := by
  induction more using List.reverseRecOn with
  | nil => rw [List.append_nil]
  | append_singleton more act ih =>
      obtain ⟨events, hlog⟩ := steps_log (steps_step (State.run lib sh start (acts ++ more)) act)
      rw [← List.append_assoc, State.run_append_singleton, hlog]
      exact ih.trans (List.prefix_append _ _)

variable (lib sh) in
/-- A read of a request is made in a run of the daemon, no earlier than the request and no later than its end. -/
theorem exists_moment (pauses : Look → List (Act n)) (start : UInt64) (acts : List (Act n)) (look : Look) :
    ∃ acts', momentOf lib sh pauses (State.run lib sh start acts) look = State.run lib sh start acts' ∧
      (State.run lib sh start acts).world.log <+: (State.run lib sh start acts').world.log ∧
      (State.run lib sh start acts').world.log <+:
        (State.run lib sh start (acts ++ looks.flatMap pauses)).world.log := by
  obtain ⟨later, hlooks⟩ := takeWhile_append_singleton_prefix (mem_looks look)
  have hall : looks.flatMap pauses =
      (looks.takeWhile (· ≠ look) ++ [look]).flatMap pauses ++ later.flatMap pauses := by
    rw [← List.flatMap_append, hlooks]
  refine ⟨acts ++ (looks.takeWhile (· ≠ look) ++ [look]).flatMap pauses, ?_, log_run start acts _, ?_⟩
  · rw [momentOf, State.run, State.run, List.foldl_append]
  · rw [hall, ← List.append_assoc]
    exact log_run start _ _

variable (lib sh) in
/-- The memory of the detector stays bounded. -/
theorem bounded_run (start : UInt64) (acts : List (Act n)) : (State.run lib sh start acts).world.detector.Bounded := by
  refine State.run_induction (fun s => s.world.detector.Bounded) (Detector.bounded_new _) ?_ acts
  intro acts s' hsteps h
  cases hsteps with
  | idle | received | requested | banned | failed | counted | clock | gc => exact h
  | ran t order job rest w' new htask hruns =>
      cases hruns with
      | scores ip call detector ban hscore =>
          rw [show detector = _ from (congrArg Prod.fst hscore).symm]
          exact h.underShard order call.ip call.now _
      | records ip crossing detector tier hrecord =>
          rw [show detector = _ from (congrArg Prod.fst hrecord).symm]
          exact h.recordOffence order crossing.ip crossing.now
      | _ => exact h

section Shown

variable (pauses : Look → List (Act n)) (order : Look → HashOrder) (start : UInt64) (acts : List (Act n))

/-- What a counter shows is a number of increments between those at the request and those at its end. -/
theorem exists_count (c : Counter) : ∃ count,
    (sample lib sh pauses (State.run lib sh start acts) order).loads c = UInt64.ofNat count ∧
      (State.run lib sh start acts).world.log.countP (·.isFor lib sh c) ≤
        count + (State.run lib sh start acts).world.pool.countP (·.isCount c) + n ∧
      count ≤ (State.run lib sh start (acts ++ looks.flatMap pauses)).world.log.countP (·.isFor lib sh c) := by
  obtain ⟨acts', hmoment, hfrom, hupTo⟩ := exists_moment lib sh pauses start acts (.counter c)
  obtain ⟨late, hlate, hle, -⟩ := late_run lib sh c start acts
  obtain ⟨late', hlate', -⟩ := late_run lib sh c start acts'
  have hcounts := hfrom.sublist.countP_le (p := fun e => e.isCount c)
  have hfor := hupTo.sublist.countP_le (p := fun e => e.isFor lib sh c)
  refine ⟨(State.run lib sh start acts').world.log.countP (·.isCount c), ?_, by omega, by omega⟩
  simp only [sample_eq, hmoment]
  exact fields_run start acts' c

/-- The swarms that are shown are those of one moment for each shard. -/
theorem exists_headcount : ∃ logs : Fin shardCount → List Event,
    (∀ i, (State.run lib sh start acts).world.log <+: logs i ∧
      logs i <+: (State.run lib sh start (acts ++ looks.flatMap pauses)).world.log) ∧
    ∃ (torrents : Finset InfoHash) (seeders leechers : Finset PeerRef),
      (∀ hash, hash ∈ torrents ↔ (storeAfter (logs (Store.shardIndex hash))).get hash ≠ none) ∧
      (∀ r, r ∈ seeders ↔ ∃ t, lastWord (opsOf (logs (Store.shardIndex r.hash))) r = some (t, true)) ∧
      (∀ r, r ∈ leechers ↔ ∃ t, lastWord (opsOf (logs (Store.shardIndex r.hash))) r = some (t, false)) ∧
      (sample lib sh pauses (State.run lib sh start acts) order).totals =
        ⟨UInt64.ofNat torrents.card, UInt64.ofNat seeders.card, UInt64.ofNat leechers.card⟩ := by
  choose acts' hmoment hfrom hupTo using fun i => exists_moment lib sh pauses start acts (.swarms i)
  have hstore : ∀ i, (momentOf lib sh pauses (State.run lib sh start acts) (.swarms i)).world.store =
      storeAfter (State.run lib sh start (acts' i)).world.log := by
    intro i
    rw [hmoment i]
    exact (consistent_run lib sh start (acts' i)).1.store
  refine ⟨fun i => (State.run lib sh start (acts' i)).world.log, fun i => ⟨hfrom i, hupTo i⟩, ?_⟩
  have hsound := Store.sound_patchwork fun i =>
    Store.sound_run HashOrder.arbitrary (opsOf (State.run lib sh start (acts' i)).world.log)
  obtain ⟨torrents, seeders, leechers, htorrents, hseeders, hleechers, htotals⟩ :=
    Store.headcount_totals hsound HashOrder.arbitrary
  refine ⟨torrents, seeders, leechers, htorrents, ?_, ?_, ?_⟩
  · simpa only [Store.wordOf_patchwork, Store.wordOf_run] using hseeders
  · simpa only [Store.wordOf_patchwork, Store.wordOf_run] using hleechers
  · simp only [sample_eq, hstore]
    exact htotals

/-- What is shown of the detector is within its caps. -/
theorem sources_le : (sample lib sh pauses (State.run lib sh start acts) order).tracked ≤
      max detectorShards sh.config.l7.maxEntries ∧
    (sample lib sh pauses (State.run lib sh start acts) order).offenders ≤ max 1 sh.config.l7.maxOffenders := by
  have hbounded : ∀ look, (momentOf lib sh pauses (State.run lib sh start acts) look).world.detector.Bounded ∧
      (momentOf lib sh pauses (State.run lib sh start acts) look).world.detector.config = sh.config.l7 := by
    intro look
    obtain ⟨acts', hmoment, -⟩ := exists_moment lib sh pauses start acts look
    rw [hmoment]
    exact ⟨bounded_run lib sh start acts', config_run start acts'⟩
  rw [sample_eq]
  generalize momentOf lib sh pauses (State.run lib sh start acts) = moment at hbounded
  have hcap : ∀ look, (moment look).world.detector.perShardCap = max (sh.config.l7.maxEntries / detectorShards) 1 := by
    intro look
    rw [(hbounded look).1.cap, (hbounded look).2]
  constructor
  · -- the shards of all the moments make a detector that is within its caps
    have htracked : ({ (moment .offenders).world.detector with
        shards := fun i => (moment (.sources i)).world.detector.shards i } : Detector).Bounded := by
      refine ⟨(hbounded .offenders).1.cap, fun i => ?_, (hbounded .offenders).1.offenders_len⟩
      change _ ≤ (moment .offenders).world.detector.perShardCap
      rw [hcap .offenders, ← hcap (.sources i)]
      exact (hbounded (.sources i)).1.shards_len i
    rw [← (hbounded .offenders).2]
    exact htracked.tracked_le
  · rw [← (hbounded .offenders).2]
    exact (hbounded .offenders).1.offenders_len

end Shown

/-- **The metrics are true.** A request from the host itself gets a page that reads back as the counters and the
gauges. A counter is short of the events that it was for when the request came in by no more than one for each task
and what the pool had left to do, and is never above those at the end of the request. The torrents, the seeders and
the leechers are those of a moment in between, one for each shard of the store; and the gauges of the detector are
within its caps. -/
theorem metrics_true (lib : Libraries) (sh : Shared) (start : UInt64) (acts : List (Act n))
    (pauses : Look → List (Act n)) (order : Look → HashOrder) (peer : IpAddr) :
    let s := State.run lib sh start acts
    let s' := State.run lib sh start (acts ++ looks.flatMap pauses)
    ∃ body loads gauges,
      serveMetrics lib sh pauses s order peer = (if peer.isLoopback then some (httpReply 200 body) else none) ∧
      Exposition.read body = some ((Metrics.ofLoads loads).metricsOf gauges) ∧
      (∀ c, ∃ count, loads c = UInt64.ofNat count ∧
        s.world.log.countP (·.isFor lib sh c) ≤ count + s.world.pool.countP (·.isCount c) + n ∧
        count ≤ s'.world.log.countP (·.isFor lib sh c)) ∧
      (∃ logs : Fin shardCount → List Event, (∀ i, s.world.log <+: logs i ∧ logs i <+: s'.world.log) ∧
        ∃ (torrents : Finset InfoHash) (seeders leechers : Finset PeerRef),
          (∀ hash, hash ∈ torrents ↔ (storeAfter (logs (Store.shardIndex hash))).get hash ≠ none) ∧
          (∀ r, r ∈ seeders ↔ ∃ t, lastWord (opsOf (logs (Store.shardIndex r.hash))) r = some (t, true)) ∧
          (∀ r, r ∈ leechers ↔ ∃ t, lastWord (opsOf (logs (Store.shardIndex r.hash))) r = some (t, false)) ∧
          gauges.torrents = UInt64.ofNat torrents.card ∧ gauges.seeders = UInt64.ofNat seeders.card ∧
          gauges.leechers = UInt64.ofNat leechers.card) ∧
      gauges.l7Tracked.toNat ≤ max detectorShards sh.config.l7.maxEntries ∧
      gauges.l7Offenders.toNat ≤ max 1 sh.config.l7.maxOffenders := by
  dsimp only
  obtain ⟨logs, hlogs, torrents, seeders, leechers, htorrents, hseeders, hleechers, htotals⟩ :=
    exists_headcount pauses order start acts
  obtain ⟨htracked, hoffenders⟩ := sources_le pauses order start acts
  generalize hsample : sample lib sh pauses (State.run lib sh start acts) order = g at *
  refine ⟨_, g.loads, g.gauges, ?_, Metrics.read_render _ _, ?_, ⟨logs, hlogs, torrents, seeders,
    leechers, htorrents, hseeders, hleechers, ?_⟩, ?_, ?_⟩
  · rw [serveMetrics, hsample]
  · intro c
    rw [← hsample]
    exact exists_count pauses order start acts c
  · exact ⟨congrArg Totals.torrents htotals, congrArg Totals.seeders htotals, congrArg Totals.leechers htotals⟩
  · exact (Nat.mod_le _ _).trans htracked
  · exact (Nat.mod_le _ _).trans hoffenders

end

end Daemon
end Bluefrog
