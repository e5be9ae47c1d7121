import Bluefrog.L7.Eviction
import Bluefrog.Nft.Sink

/-!
Escalation under concurrency. A call decides on a ban under the lock of a shard, and records the offence
under the lock of the registry; between the two any other caller may run, and entries of the shards may
be evicted. Whatever the interleaving, the offences of a source are counted one by one from the creation
of its registry entry.
-/

open Rust Sharded

namespace Bluefrog

/-- The registry entry of a source after one more offence. -/
def Offender.bump (prev : Option Offender) (now : UInt32) : Offender :=
  ⟨saturatingAdd (prev.getD ⟨0, 0⟩).offenses 1, now⟩

/-- The escalation tier of a number of offences. -/
def tierOf (c : Config) (offenses : UInt32) : UInt32 := min (offenses - 1) (saturatingSub c.banTiers 1)

/-- The tier of the k-th offence: the last one once the tiers run out. -/
def tierAt (c : Config) (k : Nat) : Nat := min (k - 1) (max c.banTiers.toNat 1 - 1)

theorem one_le_bump (prev : Option Offender) (now : UInt32) : 1 ≤ (Offender.bump prev now).offenses := by
  rw [UInt32.le_iff_toNat_le, Offender.bump, toNat_saturatingAdd, UInt32.toNat_one]
  omega

/-- The tier of a saturated count of offences is still that of the count. -/
theorem toNat_tierOf {c : Config} {offenses : UInt32} {k : Nat} (hk : 1 ≤ k)
    (h : offenses.toNat = min k (2 ^ 32 - 1)) : (tierOf c offenses).toNat = tierAt c k := by
  have hone : (1 : UInt32) ≤ offenses := by
    rw [UInt32.le_iff_toNat_le, h, UInt32.toNat_one]
    omega
  have htiers := toNat_le_u32Max c.banTiers
  rw [tierOf, tierAt, show min (offenses - 1) (saturatingSub c.banTiers 1) =
    if offenses - 1 ≤ saturatingSub c.banTiers 1 then offenses - 1 else saturatingSub c.banTiers 1 from rfl]
  have hpred : (offenses - 1).toNat = min k (2 ^ 32 - 1) - 1 := by
    rw [UInt32.toNat_sub_of_le _ _ hone, h, UInt32.toNat_one]
  split_ifs with hle
  · rw [UInt32.le_iff_toNat_le, hpred, toNat_saturatingSub, UInt32.toNat_one] at hle
    rw [hpred]
    omega
  · rw [UInt32.le_iff_toNat_le, hpred, toNat_saturatingSub, UInt32.toNat_one] at hle
    rw [toNat_saturatingSub, UInt32.toNat_one]
    omega

namespace Detector

variable (order : HashOrder) (d : Detector) (ip : Ip) (now : UInt32)

theorem decide_ban : d.decide order ip true now =
    ((d.recordOffence order ip now).1, .ban d.config.banDuration (d.recordOffence order ip now).2) := rfl

/-- An offence counts on from the source's own entry. -/
theorem recordOffence_tier : (d.recordOffence order ip now).2 =
    tierOf d.config (Offender.bump (d.offenders.lookup ip) now).offenses := by
  have hself : (d.registryRoom order ip).lookup ip = d.offenders.lookup ip := CappedMap.lookup_makeRoom_self
  rw [← hself]
  simp only [recordOffence, registryRoom, CappedMap.makeRoom, evictOldest_eq]
  rfl

theorem lookup_recordOffence_self : (d.recordOffence order ip now).1.offenders.lookup ip =
    some (Offender.bump (d.offenders.lookup ip) now) := by
  rw [recordOffence_offenders, Finmap.lookup_insert, registryRoom, CappedMap.lookup_makeRoom_self]
  rfl

theorem lookup_recordOffence_of_ne {ip' : Ip} (h : ip' ≠ ip) :
    (d.recordOffence order ip now).1.offenders.lookup ip' = d.offenders.lookup ip' ∨
      (d.recordOffence order ip now).1.offenders.lookup ip' = none := by
  rw [recordOffence_offenders, Finmap.lookup_insert_of_ne _ h]
  exact CappedMap.lookup_makeRoom ip'

end Detector

namespace Escalation

/-- A ban decided on, with the source and the time of its call. -/
structure Crossing where
  ip : Ip
  now : UInt32

/-- What the run has seen, by caller: a crossing under a shard's lock, or an offence recorded under the
registry's lock, with its tier and whether it created the entry. -/
inductive Event where
  | crossed (caller : Nat) (crossing : Crossing)
  | recorded (caller : Nat) (crossing : Crossing) (tier : UInt32) (created : Bool)

def Event.caller : Event → Nat
  | .crossed caller _ => caller
  | .recorded caller _ _ _ => caller

theorem caller_crossed (caller : Nat) (crossing : Crossing) : (Event.crossed caller crossing).caller = caller := rfl

theorem caller_recorded (caller : Nat) (crossing : Crossing) (tier : UInt32) (created : Bool) :
    (Event.recorded caller crossing tier created).caller = caller := rfl

/-- The detector and its callers. A caller between its two sections holds a crossing. -/
structure State where
  detector : Detector
  waiting : Nat → Option Crossing
  log : List Event

/-- A caller runs one of its sections, or an entry of a shard is evicted. -/
inductive Action where
  | score (caller : Nat) (order : HashOrder) (call : Call)
  | record (caller : Nat) (order : HashOrder)
  | evict (ip : Ip)

namespace State

def init (config : Config) : State := ⟨Detector.new config, fun _ => none, []⟩

/-- One section of one caller. A caller that holds a crossing is not done with its call, and one that
holds none has nothing to record. -/
def step (s : State) : Action → State
  | .score caller order call =>
      match s.waiting caller with
      | some _ => s
      | none =>
          let (d, ban) := s.detector.underShard order call.ip call.now (call.signal.apply s.detector.config call.now)
          if ban then
            { detector := d
              waiting := Function.update s.waiting caller (some ⟨call.ip, call.now⟩)
              log := s.log ++ [.crossed caller ⟨call.ip, call.now⟩] }
          else { s with detector := d }
  | .record caller order =>
      match s.waiting caller with
      | none => s
      | some crossing =>
          let created := decide (crossing.ip ∉ s.detector.offenders)
          let (d, tier) := s.detector.recordOffence order crossing.ip crossing.now
          { detector := d
            waiting := Function.update s.waiting caller none
            log := s.log ++ [.recorded caller crossing tier created] }
  | .evict ip =>
      { s with detector.shards :=
          setShard Detector.shardOf s.detector.shards ip ((s.detector.shards (Detector.shardOf ip)).erase ip) }

theorem step_record {s : State} {caller : Nat} (order : HashOrder) {crossing : Crossing}
    (hheld : s.waiting caller = some crossing) : s.step (.record caller order) =
      ⟨(s.detector.recordOffence order crossing.ip crossing.now).1, Function.update s.waiting caller none,
        s.log ++ [.recorded caller crossing (s.detector.recordOffence order crossing.ip crossing.now).2
          (decide (crossing.ip ∉ s.detector.offenders))]⟩ := by
  rw [step, hheld]

theorem step_record_none (s : State) {caller : Nat} (order : HashOrder) (hidle : s.waiting caller = none) :
    s.step (.record caller order) = s := by
  rw [step, hidle]

def run (config : Config) (actions : List Action) : State := actions.foldl step (init config)

theorem run_append_singleton (config : Config) (actions : List Action) (action : Action) :
    run config (actions ++ [action]) = (run config actions).step action := List.foldl_concat _ _ _ _

end State

/-- How many offences of a source were recorded since its registry entry was created. -/
def rank (ip : Ip) (log : List Event) : Nat :=
  log.foldl (fun k event =>
    match event with
    | .recorded _ crossing _ created => if crossing.ip = ip then (if created then 1 else k + 1) else k
    | .crossed _ _ => k) 0

theorem rank_crossed (ip : Ip) (log : List Event) (caller : Nat) (crossing : Crossing) :
    rank ip (log ++ [.crossed caller crossing]) = rank ip log := List.foldl_concat _ _ _ _

theorem rank_recorded (ip : Ip) (log : List Event) (caller : Nat) (crossing : Crossing) (tier : UInt32)
    (created : Bool) : rank ip (log ++ [.recorded caller crossing tier created]) =
      if crossing.ip = ip then (if created then 1 else rank ip log + 1) else rank ip log := List.foldl_concat _ _ _ _

/-- What a step can do to the registry, the callers and the log. -/
inductive Moves (s : State) : State → Prop where
  | quiet (d : Detector) (config : d.config = s.detector.config) (offenders : d.offenders = s.detector.offenders) :
      Moves s { s with detector := d }
  | crosses (caller : Nat) (crossing : Crossing) (d : Detector) (config : d.config = s.detector.config)
      (offenders : d.offenders = s.detector.offenders) (idle : s.waiting caller = none) :
      Moves s ⟨d, Function.update s.waiting caller (some crossing), s.log ++ [.crossed caller crossing]⟩
  | records (caller : Nat) (crossing : Crossing) (order : HashOrder) (held : s.waiting caller = some crossing) :
      Moves s ⟨(s.detector.recordOffence order crossing.ip crossing.now).1, Function.update s.waiting caller none,
        s.log ++ [.recorded caller crossing (s.detector.recordOffence order crossing.ip crossing.now).2
          (decide (crossing.ip ∉ s.detector.offenders))]⟩

theorem moves_step (s : State) (action : Action) : Moves s (s.step action) := by
  cases action with
  | score caller order call =>
      rw [State.step]
      cases hidle : s.waiting caller with
      | some crossing => exact .quiet s.detector rfl rfl
      | none =>
          dsimp only
          split_ifs
          · exact .crosses caller ⟨call.ip, call.now⟩ _ rfl rfl hidle
          · exact .quiet _ rfl rfl
  | record caller order =>
      cases hheld : s.waiting caller with
      | none =>
          rw [State.step_record_none s order hheld]
          exact .quiet s.detector rfl rfl
      | some crossing =>
          rw [State.step_record order hheld]
          exact .records caller crossing order hheld
  | evict ip => exact .quiet _ rfl rfl

/-- The registry counts the offences of each source it holds. -/
structure Counts (config : Config) (s : State) : Prop where
  config : s.detector.config = config
  entry : ∀ ip offender, s.detector.offenders.lookup ip = some offender →
    1 ≤ rank ip s.log ∧ offender.offenses.toNat = min (rank ip s.log) (2 ^ 32 - 1)

/-- Each record in a log has the tier of its rank. -/
def Tiered (config : Config) (log : List Event) : Prop :=
  ∀ pre caller crossing tier created post, log = pre ++ .recorded caller crossing tier created :: post →
    1 ≤ rank crossing.ip (pre ++ [.recorded caller crossing tier created]) ∧
      tier.toNat = tierAt config (rank crossing.ip (pre ++ [.recorded caller crossing tier created]))

variable {config : Config} {s s' : State}

/-- An offence of a counted registry: the count goes on, or starts at one. -/
theorem Counts.bump (h : Counts config s) (ip : Ip) (now : UInt32) :
    (Offender.bump (s.detector.offenders.lookup ip) now).offenses.toNat =
      min (if ip ∉ s.detector.offenders then 1 else rank ip s.log + 1) (2 ^ 32 - 1) := by
  rw [Offender.bump, toNat_saturatingAdd, UInt32.toNat_one]
  cases hentry : s.detector.offenders.lookup ip with
  | none =>
      rw [if_pos (Finmap.lookup_eq_none.mp hentry)]
      rfl
  | some offender =>
      have hmem := Finmap.mem_of_lookup_eq_some hentry
      rw [if_neg (not_not.mpr hmem), Option.getD_some, (h.entry ip offender hentry).2]
      omega

theorem Counts.moves (h : Counts config s) (hmoves : Moves s s') : Counts config s' := by
  cases hmoves with
  | quiet d hconfig hoffenders => exact ⟨hconfig.trans h.config, by rw [hoffenders]; exact h.entry⟩
  | crosses caller crossing d hconfig hoffenders hidle =>
      refine ⟨hconfig.trans h.config, fun ip offender hentry => ?_⟩
      rw [rank_crossed]
      rw [hoffenders] at hentry
      exact h.entry ip offender hentry
  | records caller crossing order hheld =>
      refine ⟨h.config, fun ip offender hentry => ?_⟩
      rw [rank_recorded]
      by_cases hip : crossing.ip = ip
      · subst hip
        rw [Detector.lookup_recordOffence_self] at hentry
        cases hentry
        rw [h.bump, if_pos rfl]
        refine ⟨?_, by simp only [decide_eq_true_eq]⟩
        split_ifs <;> omega
      · rw [if_neg hip]
        rcases Detector.lookup_recordOffence_of_ne order s.detector crossing.ip crossing.now (Ne.symm hip) with
          hsame | hgone
        · rw [hsame] at hentry
          exact h.entry ip offender hentry
        · rw [hgone] at hentry
          cases hentry

/-- A log grows by one event at its end. -/
theorem Tiered.concat {log : List Event} (h : Tiered config log) {event : Event}
    (hlast : ∀ caller crossing tier created, event = .recorded caller crossing tier created →
      1 ≤ rank crossing.ip (log ++ [event]) ∧ tier.toNat = tierAt config (rank crossing.ip (log ++ [event]))) :
    Tiered config (log ++ [event]) := by
  intro pre caller crossing tier created post hsplit
  rcases List.eq_nil_or_concat post with rfl | ⟨front, last, rfl⟩
  · obtain ⟨rfl, hevent⟩ := List.append_inj' hsplit rfl
    cases hevent
    exact hlast caller crossing tier created rfl
  · rw [List.concat_eq_append, ← List.cons_append, ← List.append_assoc] at hsplit
    exact h pre caller crossing tier created front (List.append_inj' hsplit rfl).1

theorem Tiered.moves (h : Tiered config s.log) (hcounts : Counts config s) (hmoves : Moves s s') :
    Tiered config s'.log := by
  cases hmoves with
  | quiet d hconfig hoffenders => exact h
  | crosses caller crossing d hconfig hoffenders hidle => exact h.concat fun _ _ _ _ hevent => by cases hevent
  | records caller crossing order hheld =>
      refine h.concat fun caller' crossing' tier created hevent => ?_
      cases hevent
      have hbump := hcounts.bump crossing.ip crossing.now
      have hrank : rank crossing.ip (s.log ++ [.recorded caller crossing
          (s.detector.recordOffence order crossing.ip crossing.now).2 (decide (crossing.ip ∉ s.detector.offenders))]) =
          if crossing.ip ∉ s.detector.offenders then 1 else rank crossing.ip s.log + 1 := by
        rw [rank_recorded, if_pos rfl]
        simp only [decide_eq_true_eq]
      have hpos : 1 ≤ if crossing.ip ∉ s.detector.offenders then 1 else rank crossing.ip s.log + 1 := by
        split_ifs <;> omega
      rw [hrank, Detector.recordOffence_tier, hcounts.config]
      exact ⟨hpos, toNat_tierOf hpos hbump⟩

theorem counts_run (config : Config) (actions : List Action) : Counts config (State.run config actions) := by
  induction actions using List.reverseRecOn with
  | nil => exact ⟨rfl, fun ip offender hentry => by cases hentry⟩
  | append_singleton actions action ih =>
      rw [State.run_append_singleton]
      exact ih.moves (moves_step _ action)

theorem tiered_run (config : Config) (actions : List Action) : Tiered config (State.run config actions).log := by
  induction actions using List.reverseRecOn with
  | nil =>
      rintro pre caller crossing tier created post hsplit
      cases pre <;> cases hsplit
  | append_singleton actions action ih =>
      rw [State.run_append_singleton]
      exact ih.moves (counts_run config actions) (moves_step _ action)

/-- The events of a caller. -/
def eventsOf (caller : Nat) (log : List Event) : List Event := log.filter fun event => event.caller = caller

/-- An offence as a caller sees it: a crossing, and then its record. -/
structure Offence where
  crossing : Crossing
  tier : UInt32
  created : Bool

def Offence.events (caller : Nat) (o : Offence) : List Event :=
  [.crossed caller o.crossing, .recorded caller o.crossing o.tier o.created]

/-- Every crossing of a caller is followed by its record, but for one that it still holds. -/
def Paired (s : State) : Prop :=
  ∀ caller, ∃ offences : List Offence, eventsOf caller s.log =
    offences.flatMap (Offence.events caller) ++ (s.waiting caller).toList.map (.crossed caller)

theorem eventsOf_concat (caller : Nat) (log : List Event) (event : Event) :
    eventsOf caller (log ++ [event]) = eventsOf caller log ++ if event.caller = caller then [event] else [] := by
  rw [eventsOf, List.filter_append]
  by_cases h : event.caller = caller
  · rw [if_pos h, List.filter_cons_of_pos (by simpa using h)]
    rfl
  · rw [if_neg h, List.filter_cons_of_neg (by simpa using h)]
    rfl

theorem Paired.moves (h : Paired s) (hmoves : Moves s s') : Paired s' := by
  intro caller'
  obtain ⟨offences, heq⟩ := h caller'
  cases hmoves with
  | quiet d hconfig hoffenders => exact ⟨offences, heq⟩
  | crosses caller crossing d hconfig hoffenders hidle =>
      refine ⟨offences, ?_⟩
      dsimp only
      rw [eventsOf_concat, heq, caller_crossed]
      by_cases hcaller : caller = caller'
      · subst hcaller
        rw [if_pos rfl, hidle, Function.update_self, Option.toList_none, List.map_nil, List.append_nil]
        rfl
      · rw [if_neg hcaller, Function.update_of_ne (Ne.symm hcaller), List.append_nil]
  | records caller crossing order hheld =>
      by_cases hcaller : caller = caller'
      · -- the record completes the crossing the caller held
        subst hcaller
        refine ⟨offences ++ [⟨crossing, (s.detector.recordOffence order crossing.ip crossing.now).2,
          decide (crossing.ip ∉ s.detector.offenders)⟩], ?_⟩
        dsimp only
        rw [eventsOf_concat, heq, caller_recorded, if_pos rfl, hheld, Function.update_self, List.flatMap_append,
          List.flatMap_singleton, Option.toList_none, List.map_nil, List.append_nil, List.append_assoc]
        rfl
      · refine ⟨offences, ?_⟩
        dsimp only
        rw [eventsOf_concat, heq, caller_recorded, if_neg hcaller, Function.update_of_ne (Ne.symm hcaller),
          List.append_nil]

theorem paired_run (config : Config) (actions : List Action) : Paired (State.run config actions) := by
  induction actions using List.reverseRecOn with
  | nil => exact fun caller => ⟨[], rfl⟩
  | append_singleton actions action ih =>
      rw [State.run_append_singleton]
      exact ih.moves (moves_step _ action)

/-- Some events do not create the registry entry of a source anew. -/
def Continues (ip : Ip) (events : List Event) : Prop :=
  ∀ caller crossing tier, .recorded caller crossing tier true ∈ events → crossing.ip ≠ ip

theorem rank_le_append {ip : Ip} (log : List Event) {events : List Event} (h : Continues ip events) :
    rank ip log ≤ rank ip (log ++ events) := by
  induction events using List.reverseRecOn with
  | nil => rw [List.append_nil]
  | append_singleton events event ih =>
      have hpre := ih fun caller crossing tier hmem => h caller crossing tier (List.mem_append_left _ hmem)
      rw [← List.append_assoc]
      cases event with
      | crossed caller crossing => rwa [rank_crossed]
      | recorded caller crossing tier created =>
          rw [rank_recorded]
          split_ifs with hip hcreated
          · subst hcreated
            exact absurd hip (h caller crossing tier (List.mem_append_right _ (List.mem_singleton.mpr rfl)))
          · omega
          · exact hpre

/-- Some events record no offence of a source. -/
def Omits (ip : Ip) (events : List Event) : Prop :=
  ∀ caller crossing tier created, .recorded caller crossing tier created ∈ events → crossing.ip ≠ ip

theorem rank_append_of_omits {ip : Ip} (log : List Event) {events : List Event} (h : Omits ip events) :
    rank ip (log ++ events) = rank ip log := by
  induction events using List.reverseRecOn with
  | nil => rw [List.append_nil]
  | append_singleton events event ih =>
      have hpre := ih fun caller crossing tier created hmem =>
        h caller crossing tier created (List.mem_append_left _ hmem)
      rw [← List.append_assoc]
      cases event with
      | crossed caller crossing => rwa [rank_crossed]
      | recorded caller crossing tier created =>
          have hip := h caller crossing tier created (List.mem_append_right _ (List.mem_singleton.mpr rfl))
          rwa [rank_recorded, if_neg hip]

/-- Two offences of a source recorded one after the other, with no new entry of it created since the first. -/
structure Later (ip : Ip) (log : List Event) (tier : UInt32) (mid : List Event) (tier' : UInt32) : Prop where
  split : ∃ pre caller crossing created caller' crossing' post, crossing.ip = ip ∧ crossing'.ip = ip ∧
    log = pre ++ .recorded caller crossing tier created :: (mid ++ .recorded caller' crossing' tier' false :: post)
  continues : Continues ip mid

/-- A later offence has a later tier, and the very next one has the next tier or the last. -/
theorem Later.tier {ip : Ip} {log mid : List Event} {tier tier' : UInt32} (h : Later ip log tier mid tier')
    (htiered : Tiered config log) : tier ≤ tier' ∧
      (Omits ip mid → tier'.toNat = min (tier.toNat + 1) (max config.banTiers.toNat 1 - 1)) := by
  obtain ⟨⟨pre, caller, crossing, created, caller', crossing', post, rfl, hip, rfl⟩, hcontinues⟩ := h
  obtain ⟨hpos, htier⟩ := htiered pre caller crossing tier created _ rfl
  have hsplit : pre ++ .recorded caller crossing tier created ::
        (mid ++ .recorded caller' crossing' tier' false :: post) =
      ((pre ++ [.recorded caller crossing tier created]) ++ mid) ++
        .recorded caller' crossing' tier' false :: post := by
    rw [List.append_assoc, List.append_assoc]
    rfl
  obtain ⟨-, htier'⟩ := htiered _ caller' crossing' tier' false post hsplit
  rw [hip, rank_recorded, if_pos hip, if_neg Bool.false_ne_true] at htier'
  constructor
  · have hle := rank_le_append (pre ++ [.recorded caller crossing tier created]) hcontinues
    rw [UInt32.le_iff_toNat_le, htier, htier', tierAt, tierAt]
    omega
  · intro homits
    rw [rank_append_of_omits _ homits] at htier'
    rw [htier', htier, tierAt, tierAt]
    omega

/-- A caller that is not interrupted runs a whole call of the detector. -/
theorem run_uninterrupted (s : State) (caller : Nat) (order : HashOrder) (call : Call)
    (hidle : s.waiting caller = none) :
    ((s.step (.score caller order call)).step (.record caller order)).detector =
      (s.detector.exec order call).1 := by
  have hscore : s.step (.score caller order call) =
      if (s.detector.underShard order call.ip call.now (call.signal.apply s.detector.config call.now)).2 then
        { detector := (s.detector.underShard order call.ip call.now (call.signal.apply s.detector.config call.now)).1
          waiting := Function.update s.waiting caller (some ⟨call.ip, call.now⟩)
          log := s.log ++ [.crossed caller ⟨call.ip, call.now⟩] }
      else { s with detector :=
        (s.detector.underShard order call.ip call.now (call.signal.apply s.detector.config call.now)).1 } := by
    rw [State.step, hidle]
  rw [Detector.exec_eq, hscore]
  cases (s.detector.underShard order call.ip call.now (call.signal.apply s.detector.config call.now)).2 with
  | false =>
      rw [if_neg Bool.false_ne_true, State.step_record_none _ order (by exact hidle)]
      rfl
  | true =>
      rw [if_pos rfl, State.step_record order (Function.update_self caller (some ⟨call.ip, call.now⟩) s.waiting)]
      rfl

end Escalation
end Bluefrog
