import Bluefrog.L7.Escalation
import Bluefrog.Lib.History

/-!
What the registry remembers. A source that is recorded is in the registry from then on, until it makes room for another
one in a full registry, and its offences are counted from the first that it is there for. As long as no more sources
have offended than the registry holds, it forgets none of them, and the tier of an offence is that of its number among
all offences of its source.
-/

open Rust Sharded

namespace Bluefrog
namespace Escalation

/-- The offences recorded in a log, by source. -/
def recorded (log : List Event) : List (Ip × UInt32) :=
  log.filterMap fun
    | .recorded _ crossing tier _ => some (crossing.ip, tier)
    | .crossed _ _ => none

/-- The sources of some offences. -/
def sources (offences : List (Ip × UInt32)) : List Ip := offences.map Prod.fst

theorem recorded_crossed (log : List Event) (caller : Nat) (crossing : Crossing) :
    recorded (log ++ [.crossed caller crossing]) = recorded log := by
  rw [recorded, List.filterMap_append, ← recorded]
  exact List.append_nil _

theorem recorded_recorded (log : List Event) (caller : Nat) (crossing : Crossing) (tier : UInt32) (created : Bool) :
    recorded (log ++ [.recorded caller crossing tier created]) = recorded log ++ [(crossing.ip, tier)] := by
  rw [recorded, List.filterMap_append, ← recorded]
  rfl

theorem sources_recorded (log : List Event) (caller : Nat) (crossing : Crossing) (tier : UInt32) (created : Bool) :
    sources (recorded (log ++ [.recorded caller crossing tier created])) = sources (recorded log) ++ [crossing.ip] := by
  rw [recorded_recorded, sources, sources, List.map_append]
  rfl

/-- What a step does to the registry. Only a record changes it: its source is there afterwards, and another one makes
room for it only if it was not there and the registry was full. -/
inductive Registers (config : Config) (s s' : State) : Prop where
  | quiet (hrecorded : recorded s'.log = recorded s.log) (hsame : s'.detector.offenders = s.detector.offenders)
  | records (caller : Nat) (crossing : Crossing) (tier : UInt32) (order : HashOrder)
      (hlog : s'.log = s.log ++ [.recorded caller crossing tier (decide (crossing.ip ∉ s.detector.offenders))])
      (hpresent : crossing.ip ∈ s'.detector.offenders)
      (hadmits : CappedMap.Admits (Detector.sampleOf order s.detector.offenders) Detector.lastOffenceOf
        (max 1 config.maxOffenders) s.detector.offenders crossing.ip s'.detector.offenders)

/-- A source that is in the registry was not there once, and has been there ever since; its rank is the number of its
offences in the meantime. -/
def Standing (config : Config) (actions : List Action) : Prop :=
  ∀ ip, ip ∈ (State.run config actions).detector.offenders →
    ∃ pre action post, actions = pre ++ action :: post ∧ ip ∉ (State.run config pre).detector.offenders ∧
      (∀ mid, mid <+: post → ip ∈ (State.run config (pre ++ action :: mid)).detector.offenders) ∧
      (sources (recorded (State.run config actions).log)).count ip =
        (sources (recorded (State.run config pre).log)).count ip + rank ip (State.run config actions).log

variable {config : Config} {s s' : State}

theorem Moves.room (hmoves : Moves s s') (hconfig : s.detector.config = config)
    (h : s.detector.offenders.len ≤ max 1 config.maxOffenders) :
    s'.detector.offenders.len ≤ max 1 config.maxOffenders := by
  cases hmoves with
  | quiet d hsame hoffenders | crosses caller crossing d hsame hoffenders hidle => rwa [hoffenders]
  | records caller crossing order hheld =>
      rw [Detector.recordOffence_offenders]
      exact CappedMap.len_admit_le (by rw [hconfig]) (Detector.sample_sampleOf order _) h _

theorem room_run (config : Config) (actions : List Action) :
    (State.run config actions).detector.offenders.len ≤ max 1 config.maxOffenders := by
  induction actions using List.reverseRecOn with
  | nil => exact Nat.zero_le _
  | append_singleton actions action ih =>
      rw [State.run_append_singleton]
      exact (moves_step _ action).room (counts_run config actions).config ih

theorem Moves.registers (hmoves : Moves s s') (hconfig : s.detector.config = config)
    (h : s.detector.offenders.len ≤ max 1 config.maxOffenders) : Registers config s s' := by
  cases hmoves with
  | quiet d hsame hoffenders => exact .quiet rfl hoffenders
  | crosses caller crossing d hsame hoffenders hidle => exact .quiet (recorded_crossed _ _ _) hoffenders
  | records caller crossing order hheld =>
      refine .records caller crossing _ order rfl ?_ ?_
      · rw [Detector.recordOffence_offenders, Finmap.mem_insert]
        exact .inl rfl
      · rw [Detector.recordOffence_offenders]
        exact CappedMap.admits (by rw [hconfig]) (Detector.sample_sampleOf order _) h _

/-- A source that a step leaves in the registry is new there, with its first offence, or was there before, and its rank
grows by its offences. -/
theorem Moves.standing (hmoves : Moves s s') {ip : Ip} (h : ip ∈ s'.detector.offenders) :
    (ip ∉ s.detector.offenders ∧
        (sources (recorded s'.log)).count ip = (sources (recorded s.log)).count ip + rank ip s'.log) ∨
      ip ∈ s.detector.offenders ∧ ∃ k, rank ip s'.log = rank ip s.log + k ∧
        (sources (recorded s'.log)).count ip = (sources (recorded s.log)).count ip + k := by
  cases hmoves with
  | quiet d hsame hoffenders =>
      rw [hoffenders] at h
      exact .inr ⟨h, 0, rfl, rfl⟩
  | crosses caller crossing d hsame hoffenders hidle =>
      rw [hoffenders] at h
      exact .inr ⟨h, 0, rank_crossed ip _ _ _, by rw [recorded_crossed]; rfl⟩
  | records caller crossing order hheld =>
      rw [rank_recorded, sources_recorded, List.count_append, List.count_singleton]
      by_cases hip : crossing.ip = ip
      · subst hip
        rw [if_pos rfl, if_pos (beq_self_eq_true _)]
        by_cases hmem : crossing.ip ∈ s.detector.offenders
        · exact .inr ⟨hmem, 1, if_neg (by simpa using hmem), rfl⟩
        · exact .inl ⟨hmem, by rw [if_pos (decide_eq_true hmem)]⟩
      · rw [if_neg hip, if_neg (by simpa using hip)]
        refine .inr ⟨?_, 0, rfl, rfl⟩
        rw [← Finmap.lookup_isSome] at h ⊢
        rcases Detector.lookup_recordOffence_of_ne order s.detector crossing.ip crossing.now (Ne.symm hip) with
          hsame | hgone
        · rwa [hsame] at h
        · rw [hgone] at h
          cases h

theorem standing_run (config : Config) (actions : List Action) : Standing config actions := by
  induction actions using List.reverseRecOn with
  | nil => exact fun ip h => absurd h Finmap.notMem_empty
  | append_singleton actions action ih =>
      intro ip h
      have hnow := h
      rw [State.run_append_singleton] at h ⊢
      rcases (moves_step (State.run config actions) action).standing h with ⟨hnew, hcount⟩ | ⟨hmem, k, hrank, hcount⟩
      · refine ⟨actions, action, [], rfl, hnew, fun mid hmid => ?_, hcount⟩
        rwa [List.prefix_nil.mp hmid]
      · obtain ⟨pre, first, post, rfl, habsent, hpresent, hsince⟩ := ih ip hmem
        refine ⟨pre, first, post ++ [action], by rw [List.append_assoc, List.cons_append], habsent, fun mid hmid => ?_,
          by omega⟩
        rcases List.prefix_concat_iff.mp hmid with rfl | hmid
        · rwa [← List.cons_append, ← List.append_assoc]
        · exact hpresent mid hmid

/-- Each offence has the tier of its number among those of its source. -/
def Numbered (config : Config) (offences : List (Ip × UInt32)) : Prop :=
  History.AtEach (fun before o => o.2.toNat = tierAt config ((sources before).count o.1 + 1)) offences

/-- The registry has forgotten no source. -/
structure Remembers (config : Config) (s : State) : Prop where
  mem : ∀ ip, ip ∈ s.detector.offenders ↔ ip ∈ sources (recorded s.log)
  rank : ∀ ip, rank ip s.log = (sources (recorded s.log)).count ip
  numbered : Numbered config (recorded s.log)

theorem Remembers.moves (h : Remembers config s) (hcounts : Counts config s) (hmoves : Moves s s')
    (hroom : (sources (recorded s'.log)).toFinset.card ≤ config.maxOffenders) : Remembers config s' := by
  cases hmoves with
  | quiet d hconfig hoffenders => exact ⟨by rw [hoffenders]; exact h.mem, h.rank, h.numbered⟩
  | crosses caller crossing d hconfig hoffenders hidle =>
      refine ⟨?_, fun ip => ?_, ?_⟩
      · rw [hoffenders, recorded_crossed]
        exact h.mem
      · rw [rank_crossed, recorded_crossed]
        exact h.rank ip
      · rw [recorded_crossed]
        exact h.numbered
  | records caller crossing order hheld =>
      -- with room for the source, the registry only gains its entry
      rw [sources_recorded, ← hcounts.config] at hroom
      have hkept : s.detector.registryRoom order crossing.ip = s.detector.offenders := by
        by_cases hmem : crossing.ip ∈ s.detector.offenders
        · exact CappedMap.makeRoom_of_mem hmem
        · refine CappedMap.makeRoom_of_room
            (Nat.lt_of_lt_of_le (Finmap.len_lt_of_keys (fun ip hip => ?_) ?_ hmem) hroom)
          · exact List.mem_toFinset.mpr (List.mem_append_left _ ((h.mem ip).mp hip))
          · exact List.mem_toFinset.mpr (List.mem_append_right _ (List.mem_singleton.mpr rfl))
      have hnumber : (if crossing.ip ∉ s.detector.offenders then 1 else Escalation.rank crossing.ip s.log + 1) =
          (sources (recorded s.log)).count crossing.ip + 1 := by
        split_ifs with hmem
        · rw [h.rank]
        · rw [h.mem] at hmem
          rw [List.count_eq_zero.mpr hmem]
      refine ⟨fun ip => ?_, fun ip => ?_, ?_⟩
      · rw [sources_recorded, Detector.recordOffence_offenders, hkept, Finmap.mem_insert, List.mem_append,
          List.mem_singleton, h.mem, or_comm]
      · rw [rank_recorded, sources_recorded, List.count_append, List.count_singleton]
        by_cases hip : crossing.ip = ip
        · subst hip
          rw [if_pos rfl, if_pos (beq_self_eq_true _), ← hnumber]
          simp only [decide_eq_true_eq]
        · rw [if_neg hip, if_neg (by simpa using hip), h.rank, Nat.add_zero]
      · rw [recorded_recorded]
        refine (History.atEach_append_singleton _ _ _).mpr ⟨h.numbered, ?_⟩
        have hbump := hcounts.bump crossing.ip crossing.now
        rw [hnumber] at hbump
        rw [Detector.recordOffence_tier, hcounts.config]
        exact toNat_tierOf (Nat.le_add_left 1 _) hbump

/-- The sources of a log are those of any later one. -/
theorem Moves.sources_subset (hmoves : Moves s s') :
    (sources (recorded s.log)).toFinset ⊆ (sources (recorded s'.log)).toFinset := by
  cases hmoves with
  | quiet d hconfig hoffenders => exact Finset.Subset.refl _
  | crosses caller crossing d hconfig hoffenders hidle =>
      rw [recorded_crossed]
  | records caller crossing order hheld =>
      rw [sources_recorded, List.toFinset_append]
      exact Finset.subset_union_left

/-- As long as the registry has room for every source that has offended, it forgets none. -/
theorem remembers_run (config : Config) (actions : List Action)
    (hroom : (sources (recorded (State.run config actions).log)).toFinset.card ≤ config.maxOffenders) :
    Remembers config (State.run config actions) := by
  induction actions using List.reverseRecOn with
  | nil =>
      refine ⟨fun ip => ?_, fun ip => rfl, History.atEach_nil _⟩
      exact iff_of_false Finmap.notMem_empty List.not_mem_nil
  | append_singleton actions action ih =>
      rw [State.run_append_singleton] at hroom ⊢
      have hmoves := moves_step (State.run config actions) action
      exact (ih ((Finset.card_le_card hmoves.sources_subset).trans hroom)).moves (counts_run config actions)
        hmoves hroom

/-- **Escalation counts every ban.** -/
theorem escalation (config : Config) (actions : List Action) :
    let s := State.run config actions
    Paired s ∧
    Tiered config s.log ∧
    Standing config actions ∧
    (∀ action, Registers config s (s.step action)) ∧
    ((sources (recorded s.log)).toFinset.card ≤ config.maxOffenders → Numbered config (recorded s.log)) ∧
    (∀ caller order call, s.waiting caller = none →
      ((s.step (.score caller order call)).step (.record caller order)).detector = (s.detector.exec order call).1) ∧
    (∀ ip now, 1 ≤ (Offender.bump (s.detector.offenders.lookup ip) now).offenses) ∧
    ∀ sets : List String, ∀ h : sets ≠ [],
      (∀ tier, ∃ hlt : min tier (sets.length - 1) < sets.length,
        Nft.tierSet sets tier = .ok (sets.get ⟨min tier (sets.length - 1), hlt⟩)) ∧
      ∀ ip tier mid tier', Later ip s.log tier mid tier' →
        tier ≤ tier' ∧
        (Omits ip mid → tier'.toNat = min (tier.toNat + 1) (max config.banTiers.toNat 1 - 1)) ∧
        ∀ lifetime : String → Nat, (sets.Pairwise fun s s' => lifetime s ≤ lifetime s') →
          lifetime (Nft.setAt h tier.toNat) ≤ lifetime (Nft.setAt h tier'.toNat) := by
  intro s
  have htiered := tiered_run config actions
  have hregisters : ∀ action, Registers config s (s.step action) := fun action =>
    (moves_step s action).registers (counts_run config actions).config (room_run config actions)
  refine ⟨paired_run config actions, htiered, standing_run config actions, hregisters,
    fun hroom => (remembers_run config actions hroom).numbered,
    fun caller order call hidle => run_uninterrupted s caller order call hidle,
    fun ip now => one_le_bump _ now, fun sets h => ⟨fun tier => ?_, ?_⟩⟩
  · exact ⟨Nft.min_lt_length h tier, Nft.tierSet_eq h tier⟩
  · intro ip tier mid tier' hlater
    obtain ⟨hle, hnext⟩ := hlater.tier htiered
    exact ⟨hle, hnext, fun lifetime hsorted => Nft.lifetime_mono hsorted h (UInt32.le_iff_toNat_le.mp hle)⟩

/-- A source of two offences, each recorded by another caller, and evicted from its shard in between. -/
def offendingIp : Ip := .replicate _ 1

/-- The default tunables, with a weight that bans at once. -/
def strict : Config := { Config.default with weightConnid := 1000 }

noncomputable def offendingTwice : List Action :=
  [.score 0 HashOrder.arbitrary ⟨offendingIp, .connidMismatch, 1000⟩, .record 0 HashOrder.arbitrary,
    .evict offendingIp, .score 1 HashOrder.arbitrary ⟨offendingIp, .connidMismatch, 9000⟩,
    .record 1 HashOrder.arbitrary]

theorem log_offendingTwice : (State.run strict offendingTwice).log =
    [.crossed 0 ⟨offendingIp, 1000⟩, .recorded 0 ⟨offendingIp, 1000⟩ 0 true, .crossed 1 ⟨offendingIp, 9000⟩,
      .recorded 1 ⟨offendingIp, 9000⟩ 1 false] := rfl

/-- The sets of the sample configuration. -/
def sampleSets : List String := ["l7ban4", "l7ban4_24h", "l7ban4_7d"]

theorem sampleSets_ne_nil : sampleSets ≠ [] := List.cons_ne_nil _ _

/-- The two offences of the run, the first of which makes the entry that the second finds. -/
theorem escalation_offendingTwice :
    let s := State.run strict offendingTwice
    recorded s.log = [(offendingIp, 0), (offendingIp, 1)] ∧
    Paired s ∧ Numbered strict (recorded s.log) ∧
    (∀ action, Registers strict s (s.step action)) ∧
    (∃ mid, Later offendingIp s.log 0 mid 1 ∧ Omits offendingIp mid ∧
      (1 : UInt32).toNat = min ((0 : UInt32).toNat + 1) (max strict.banTiers.toNat 1 - 1)) ∧
    ∀ lifetime : String → Nat, (sampleSets.Pairwise fun s s' => lifetime s ≤ lifetime s') →
      lifetime (Nft.setAt sampleSets_ne_nil 0) ≤ lifetime (Nft.setAt sampleSets_ne_nil 1) := by
  intro s
  have hrecorded : recorded s.log = [(offendingIp, 0), (offendingIp, 1)] := rfl
  have hlater : Later offendingIp s.log 0 [.crossed 1 ⟨offendingIp, 9000⟩] 1 := by
    refine ⟨⟨[.crossed 0 ⟨offendingIp, 1000⟩], 0, ⟨offendingIp, 1000⟩, true, 1, ⟨offendingIp, 9000⟩, [], rfl, rfl,
      log_offendingTwice⟩, fun caller crossing tier hmem => ?_⟩
    cases List.mem_singleton.mp hmem
  have homits : Omits offendingIp [.crossed 1 ⟨offendingIp, 9000⟩] := by
    intro caller crossing tier created hmem
    cases List.mem_singleton.mp hmem
  obtain ⟨hpaired, -, -, hregisters, hnumbered, -, -, hsets⟩ := escalation strict offendingTwice
  obtain ⟨-, hnext, hlifetime⟩ := (hsets sampleSets sampleSets_ne_nil).2 offendingIp 0 _ 1 hlater
  exact ⟨hrecorded, hpaired, hnumbered (by rw [hrecorded]; decide), hregisters, ⟨_, hlater, homits, hnext homits⟩,
    hlifetime⟩

end Escalation
end Bluefrog
