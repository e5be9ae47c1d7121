import Bluefrog.L7.Escalation

/-!
Sources do not interfere. While no shard meets more sources than it holds and the registry holds every
banned source, nothing is evicted, and then the detector is one independent machine per source: the
verdicts on a source are those its own events alone would get.
-/

open Rust Sharded

namespace Bluefrog

/-- All that the detector keeps of one source. -/
structure Source where
  client : Option Client
  offender : Option Offender

namespace Source

/-- A source that is neither tracked nor remembered. -/
def unknown : Source := ⟨none, none⟩

/-- One event on its source, with the verdict. -/
def step (c : Config) (s : Source) (call : Call) : Source × Verdict :=
  let client := (clientStep c s.client call.signal call.now).1
  let offender := Offender.bump s.offender call.now
  if (clientStep c s.client call.signal call.now).2 then
    (⟨some client, some offender⟩, .ban c.banDuration (tierOf c offender.offenses))
  else (⟨some client, s.offender⟩, .allow)

def after (c : Config) (calls : List Call) : Source := calls.foldl (fun s call => (s.step c call).1) unknown

/-- The verdicts on the events of a source. -/
def verdicts (c : Config) (s : Source) : List Call → List Verdict
  | [] => []
  | call :: calls => (s.step c call).2 :: verdicts c (s.step c call).1 calls

variable (c : Config)

theorem after_append_singleton (calls : List Call) (call : Call) :
    after c (calls ++ [call]) = ((after c calls).step c call).1 := List.foldl_concat _ _ _ _

theorem verdicts_append_singleton (calls : List Call) (call : Call) :
    verdicts c unknown (calls ++ [call]) = verdicts c unknown calls ++ [((after c calls).step c call).2] := by
  unfold after
  generalize unknown = s
  induction calls generalizing s with
  | nil => rfl
  | cons head calls ih => exact congrArg (List.cons _) (ih _)

variable {c}

theorem step_of_ban {s : Source} {call : Call} (h : (clientStep c s.client call.signal call.now).2 = true) :
    s.step c call =
      (⟨some (clientStep c s.client call.signal call.now).1, some (Offender.bump s.offender call.now)⟩,
        .ban c.banDuration (tierOf c (Offender.bump s.offender call.now).offenses)) := if_pos h

theorem step_of_pass {s : Source} {call : Call} (h : (clientStep c s.client call.signal call.now).2 = false) :
    s.step c call = (⟨some (clientStep c s.client call.signal call.now).1, s.offender⟩, .allow) :=
  if_neg (Bool.eq_false_iff.mp h)

theorem step_client (s : Source) (call : Call) :
    (s.step c call).1.client = some (clientStep c s.client call.signal call.now).1 := by
  cases h : (clientStep c s.client call.signal call.now).2 with
  | true => rw [step_of_ban h]
  | false => rw [step_of_pass h]

theorem step_bans (s : Source) (call : Call) :
    (s.step c call).2.Bans ↔ (clientStep c s.client call.signal call.now).2 = true := by
  rw [Verdict.bans_iff]
  cases h : (clientStep c s.client call.signal call.now).2 with
  | true =>
      rw [step_of_ban h]
      exact ⟨fun _ => rfl, fun _ heq => by cases heq⟩
  | false =>
      rw [step_of_pass h]
      exact ⟨fun hne => absurd rfl hne, fun heq => by cases heq⟩

variable (c)

theorem after_client (calls : List Call) : (after c calls).client = clientRun c calls := by
  induction calls using List.reverseRecOn with
  | nil => rfl
  | append_singleton calls call ih => rw [after_append_singleton, step_client, ih, clientRun_append_singleton]

end Source

namespace Detector

/-- All that the detector keeps of a source. -/
def source (d : Detector) (ip : Ip) : Source := ⟨d.client ip, d.offenders.lookup ip⟩

/-- **One call is one step of its source.** -/
theorem exec_source (order : HashOrder) (d : Detector) (call : Call) :
    (d.exec order call).1.source call.ip = ((d.source call.ip).step d.config call).1 ∧
      (d.exec order call).2 = ((d.source call.ip).step d.config call).2 := by
  have hexec : d.exec order call =
      (d.underShard order call.ip call.now (call.signal.apply d.config call.now)).1.decide order call.ip
        (clientStep d.config (d.source call.ip).client call.signal call.now).2 call.now := by
    rw [exec_eq, underShard_ban]
    rfl
  have hclient := client_exec_self order d call
  rw [source, hclient]
  cases hban : (clientStep d.config (d.source call.ip).client call.signal call.now).2 with
  | true =>
      rw [hexec, hban, Source.step_of_ban hban, decide_ban, recordOffence_tier, lookup_recordOffence_self]
      exact ⟨rfl, rfl⟩
  | false =>
      rw [hexec, hban, Source.step_of_pass hban]
      exact ⟨rfl, rfl⟩

/-- The verdicts of some turns, each with the source it is returned for. -/
def returned (d : Detector) : List Turn → List (Ip × Verdict)
  | [] => []
  | turn :: turns => (turn.call.ip, d.verdictOf turn) :: returned (d.exec turn.order turn.call).1 turns

/-- The verdicts returned for a source. -/
def verdictsOf (d : Detector) (ip : Ip) (turns : List Turn) : List Verdict :=
  ((d.returned turns).filter fun v => v.1 = ip).map Prod.snd

/-- The sources banned during some turns. -/
def bannedSources (d : Detector) (turns : List Turn) : Finset Ip :=
  (((d.returned turns).filter fun v => v.2.Bans).map Prod.fst).toFinset

/-- The sources that a shard sees during some turns. -/
def seenBy (i : Fin detectorShards) (turns : List Turn) : Finset Ip :=
  (turns.map fun turn => turn.call.ip).toFinset.filter fun ip => shardOf ip = i

variable {config : Config} {d : Detector} {turns : List Turn} {turn : Turn} {ip : Ip}

theorem returned_append_singleton (d : Detector) (turns : List Turn) (turn : Turn) :
    d.returned (turns ++ [turn]) = d.returned turns ++ [(turn.call.ip, (d.after turns).verdictOf turn)] := by
  induction turns generalizing d with
  | nil => rfl
  | cons head turns ih => exact congrArg (List.cons _) (ih _)

theorem verdictsOf_append_singleton (d : Detector) (ip : Ip) (turns : List Turn) (turn : Turn) :
    d.verdictsOf ip (turns ++ [turn]) =
      d.verdictsOf ip turns ++ if turn.call.ip = ip then [(d.after turns).verdictOf turn] else [] := by
  rw [verdictsOf, returned_append_singleton, List.filter_append, List.map_append]
  by_cases h : turn.call.ip = ip
  · rw [if_pos h, List.filter_cons_of_pos (by simpa using h)]
    rfl
  · rw [if_neg h, List.filter_cons_of_neg (by simpa using h)]
    rfl

theorem mem_bannedSources : ip ∈ d.bannedSources turns ↔ ∃ v ∈ d.verdictsOf ip turns, v.Bans := by
  simp only [bannedSources, verdictsOf, List.mem_toFinset, List.mem_map, List.mem_filter, decide_eq_true_eq]
  constructor
  · rintro ⟨⟨ip', v⟩, ⟨hmem, hbans⟩, rfl⟩
    exact ⟨v, ⟨(ip', v), ⟨hmem, rfl⟩, rfl⟩, hbans⟩
  · rintro ⟨_, ⟨⟨ip', v⟩, ⟨hmem, rfl⟩, rfl⟩, hbans⟩
    exact ⟨(ip', v), ⟨hmem, hbans⟩, rfl⟩

theorem mem_seenBy {i : Fin detectorShards} : ip ∈ seenBy i turns ↔ shardOf ip = i ∧ ownTurns ip turns ≠ [] := by
  rw [seenBy, Finset.mem_filter, List.mem_toFinset, List.mem_map, and_comm]
  refine and_congr_right fun _ => ?_
  rw [ownTurns, ownCalls, Ne, List.filter_eq_nil_iff, List.forall_mem_map]
  simp only [decide_eq_true_eq, not_forall, not_not, exists_prop]

theorem ownTurns_self (turns : List Turn) (turn : Turn) : ownTurns turn.call.ip (turns ++ [turn]) ≠ [] := by
  rw [ownTurns_append_singleton, if_pos rfl]
  exact List.append_ne_nil_of_right_ne_nil _ (List.cons_ne_nil _ _)

theorem seenBy_mono (i : Fin detectorShards) (turns turns' : List Turn) :
    seenBy i turns ⊆ seenBy i (turns ++ turns') := by
  intro ip hip
  rw [mem_seenBy] at hip ⊢
  rw [ownTurns_append]
  exact ⟨hip.1, List.append_ne_nil_of_left_ne_nil hip.2 _⟩

/-- A shard only holds sources it has seen. -/
theorem mem_seenBy_of_mem {i : Fin detectorShards} (h : ip ∈ ((new config).after turns).shards i) :
    ip ∈ seenBy i turns := by
  induction turns using List.reverseRecOn with
  | nil => exact absurd h Finmap.notMem_empty
  | append_singleton turns turn ih =>
      rw [after_append_singleton] at h
      obtain ⟨client, hshards⟩ := (moved_exec turn.order ((new config).after turns) turn.call).shards
      rw [hshards, setShard, Function.update_apply] at h
      split_ifs at h with hi
      · rcases Finmap.mem_insert.mp h with rfl | hroom
        · exact mem_seenBy.mpr ⟨hi.symm, ownTurns_self turns turn⟩
        · obtain ⟨old, hold⟩ := Finmap.mem_iff.mp hroom
          rcases CappedMap.lookup_makeRoom ip with hsame | hgone
          · rw [shardRoom, hsame, ← hi] at hold
            exact seenBy_mono i turns [turn] (ih (Finmap.mem_of_lookup_eq_some hold))
          · rw [shardRoom, hgone] at hold
            cases hold
      · exact seenBy_mono i turns [turn] (ih h)

/-- No shard sees more sources than it holds. -/
def ShardsSuffice (config : Config) (turns : List Turn) : Prop :=
  ∀ i, (seenBy i turns).card ≤ (new config).perShardCap

theorem ShardsSuffice.of_append {post : List Turn} (h : ShardsSuffice config (turns ++ post)) :
    ShardsSuffice config turns :=
  fun i => (Finset.card_le_card (seenBy_mono i turns post)).trans (h i)

/-- A shard that suffices evicts nothing. -/
theorem ShardsSuffice.shardRoom_eq (h : ShardsSuffice config (turns ++ [turn])) :
    ((new config).after turns).shardRoom turn.order turn.call.ip =
      ((new config).after turns).shards (shardOf turn.call.ip) := by
  by_cases hmem : turn.call.ip ∈ ((new config).after turns).shards (shardOf turn.call.ip)
  · exact CappedMap.makeRoom_of_mem hmem
  · have hcap : ((new config).after turns).perShardCap = (new config).perShardCap := by
      rw [(bounded_after config turns).cap, after_config]
      rfl
    have hlt := Finmap.len_lt_of_keys (fun ip hip => seenBy_mono _ turns [turn] (mem_seenBy_of_mem hip))
      (mem_seenBy.mpr ⟨rfl, ownTurns_self turns turn⟩) hmem
    refine CappedMap.makeRoom_of_room ?_
    rw [hcap]
    exact Nat.lt_of_lt_of_le hlt (h _)

theorem ShardsSuffice.client_of_ne (h : ShardsSuffice config (turns ++ [turn])) (hip : turn.call.ip ≠ ip) :
    ((new config).after (turns ++ [turn])).client ip = ((new config).after turns).client ip := by
  obtain ⟨client, hshards⟩ := (moved_exec turn.order ((new config).after turns) turn.call).shards
  rw [after_append_singleton, Detector.client, hshards, h.shardRoom_eq, get_setShard_insert, if_neg (Ne.symm hip)]
  rfl

theorem ShardsSuffice.spared (h : ShardsSuffice config turns) (ip : Ip) : (new config).Spared turns ip := by
  rintro pre turn post rfl hsome
  have hpre : ShardsSuffice config (pre ++ [turn]) := by
    rw [← List.singleton_append, ← List.append_assoc] at h
    exact h.of_append
  by_cases hip : turn.call.ip = ip
  · rw [← hip, client_after_self]
    exact Option.some_ne_none _
  · rwa [hpre.client_of_ne hip]

/-- The ban decisions on a source follow from its own events. -/
theorem ShardsSuffice.mem_bannedSources (h : ShardsSuffice config turns) :
    ip ∈ (new config).bannedSources turns ↔
      ∃ v ∈ Source.verdicts config .unknown (ownTurns ip turns), v.Bans := by
  rw [Detector.mem_bannedSources]
  induction turns using List.reverseRecOn with
  | nil => rfl
  | append_singleton turns turn ih =>
      have hpre := ih h.of_append
      rw [verdictsOf_append_singleton, ownTurns_append_singleton]
      split_ifs with hip
      · subst hip
        have hlast : (((new config).after turns).verdictOf turn).Bans ↔
            ((Source.after config (ownTurns turn.call.ip turns)).step config turn.call).2.Bans := by
          have hclient := client_after (client_new config _) (h.of_append.spared turn.call.ip)
          rw [verdictOf_bans, after_config, hclient, Source.step_bans, Source.after_client]
          rfl
        rw [Source.verdicts_append_singleton]
        simp only [List.mem_append, List.mem_singleton, or_and_right, exists_or, exists_eq_left, hpre, hlast]
      · rw [List.append_nil, List.append_nil, hpre]

/-- Neither map is ever too small: no shard sees more sources than it holds, and the registry holds every
banned source. -/
structure Uncrowded (config : Config) (turns : List Turn) : Prop where
  shards : ShardsSuffice config turns
  offenders : ((new config).bannedSources turns).card ≤ config.maxOffenders

theorem bannedSources_append_singleton (d : Detector) (turns : List Turn) (turn : Turn) :
    d.bannedSources (turns ++ [turn]) =
      d.bannedSources turns ∪ if ((d.after turns).verdictOf turn).Bans then {turn.call.ip} else ∅ := by
  rw [bannedSources, returned_append_singleton, List.filter_append, List.map_append, List.toFinset_append]
  by_cases h : ((d.after turns).verdictOf turn).Bans
  · rw [if_pos h, List.filter_cons_of_pos (by simpa using h)]
    rfl
  · rw [if_neg h, List.filter_cons_of_neg (by simpa using h)]
    rfl

theorem Uncrowded.append_singleton (h : Uncrowded config (turns ++ [turn])) : Uncrowded config turns where
  shards := h.shards.of_append
  offenders := by
    have hcard := h.offenders
    rw [bannedSources_append_singleton] at hcard
    exact (Finset.card_le_card Finset.subset_union_left).trans hcard

/-- The registry after one turn: as before, or the source of the turn is banned and admitted. -/
theorem offenders_exec (d : Detector) (turn : Turn) :
    (d.exec turn.order turn.call).1.offenders = d.offenders ∨
      (d.verdictOf turn).Bans ∧ ∃ offender, (d.exec turn.order turn.call).1.offenders =
        (d.registryRoom turn.order turn.call.ip).insert turn.call.ip offender := by
  rw [Verdict.bans_iff, verdictOf, exec_eq, decide_ne_allow, decide_offenders]
  split_ifs with hban
  · exact .inr ⟨hban, _, recordOffence_offenders turn.order _ turn.call.ip turn.call.now⟩
  · exact .inl rfl

/-- The registry only remembers banned sources. -/
theorem mem_bannedSources_of_mem (h : ip ∈ ((new config).after turns).offenders) :
    ip ∈ (new config).bannedSources turns := by
  induction turns using List.reverseRecOn with
  | nil => exact absurd h Finmap.notMem_empty
  | append_singleton turns turn ih =>
      rw [bannedSources_append_singleton, Finset.mem_union]
      rw [after_append_singleton] at h
      rcases offenders_exec ((new config).after turns) turn with hsame | ⟨hbans, offender, hadmitted⟩
      · rw [hsame] at h
        exact .inl (ih h)
      · rw [hadmitted] at h
        rcases Finmap.mem_insert.mp h with rfl | hroom
        · refine .inr ?_
          rw [if_pos hbans]
          exact Finset.mem_singleton_self _
        · obtain ⟨old, hold⟩ := Finmap.mem_iff.mp hroom
          rcases CappedMap.lookup_makeRoom ip with hsame | hgone
          · rw [registryRoom, hsame] at hold
            exact .inl (ih (Finmap.mem_of_lookup_eq_some hold))
          · rw [registryRoom, hgone] at hold
            cases hold

theorem Uncrowded.offender_of_ne (h : Uncrowded config (turns ++ [turn])) (hip : turn.call.ip ≠ ip) :
    ((new config).after (turns ++ [turn])).offenders.lookup ip = ((new config).after turns).offenders.lookup ip := by
  rw [after_append_singleton]
  rcases offenders_exec ((new config).after turns) turn with hsame | ⟨hbans, offender, hadmitted⟩
  · rw [hsame]
  · have hroom : ((new config).after turns).registryRoom turn.order turn.call.ip =
        ((new config).after turns).offenders := by
      by_cases hmem : turn.call.ip ∈ ((new config).after turns).offenders
      · exact CappedMap.makeRoom_of_mem hmem
      · have hcard := h.offenders
        rw [bannedSources_append_singleton, if_pos hbans] at hcard
        have hlt := Finmap.len_lt_of_keys (fun ip hip => Finset.mem_union_left _ (mem_bannedSources_of_mem hip))
          (Finset.mem_union_right _ (Finset.mem_singleton_self _)) hmem
        refine CappedMap.makeRoom_of_room ?_
        rw [after_config]
        exact Nat.lt_of_lt_of_le hlt hcard
    rw [hadmitted, hroom, Finmap.lookup_insert_of_ne _ (Ne.symm hip)]

/-- **An uncrowded detector is one machine per source.** -/
theorem Uncrowded.source_after (h : Uncrowded config turns) (ip : Ip) :
    ((new config).after turns).source ip = Source.after config (ownTurns ip turns) := by
  induction turns using List.reverseRecOn with
  | nil => rw [source, after, List.foldl_nil, client_new]; rfl
  | append_singleton turns turn ih =>
      have hpre := ih h.append_singleton
      rw [ownTurns_append_singleton]
      by_cases hip : turn.call.ip = ip
      · subst hip
        rw [if_pos rfl, Source.after_append_singleton, ← hpre, after_append_singleton, (exec_source _ _ _).1,
          after_config]
        rfl
      · rw [if_neg hip, List.append_nil, ← hpre, source, h.shards.client_of_ne hip, h.offender_of_ne hip]
        rfl

theorem Uncrowded.verdictsOf_eq (h : Uncrowded config turns) (ip : Ip) :
    (new config).verdictsOf ip turns = Source.verdicts config .unknown (ownTurns ip turns) := by
  induction turns using List.reverseRecOn with
  | nil => rfl
  | append_singleton turns turn ih =>
      rw [verdictsOf_append_singleton, ownTurns_append_singleton, ih h.append_singleton]
      split_ifs with hip
      · subst hip
        rw [Source.verdicts_append_singleton, verdictOf, (exec_source _ _ _).2, after_config,
          h.append_singleton.source_after]
        rfl
      · rw [List.append_nil, List.append_nil]

/-- Leaving out sources, and interleaving the others in another way, crowds nothing. -/
theorem Uncrowded.of_own {turns' : List Turn} (h : Uncrowded config turns)
    (hown : ∀ ip, ownTurns ip turns' = ownTurns ip turns ∨ ownTurns ip turns' = []) : Uncrowded config turns' := by
  have hshards : ShardsSuffice config turns' := fun i => by
    refine (Finset.card_le_card fun ip hip => ?_).trans (h.shards i)
    rw [mem_seenBy] at hip ⊢
    rcases hown ip with hsame | hnone
    · rwa [hsame] at hip
    · exact absurd hnone hip.2
  refine ⟨hshards, (Finset.card_le_card fun ip hip => ?_).trans h.offenders⟩
  rw [hshards.mem_bannedSources] at hip
  rw [h.shards.mem_bannedSources]
  rcases hown ip with hsame | hnone
  · rwa [hsame] at hip
  · rw [hnone] at hip
    obtain ⟨v, hv, -⟩ := hip
    cases hv

/-- The turns of one source return verdicts for no other. -/
theorem map_snd_returned (d : Detector) (hown : ∀ turn ∈ turns, turn.call.ip = ip) :
    (d.returned turns).map Prod.snd = d.verdictsOf ip turns := by
  rw [verdictsOf, List.filter_eq_self.mpr]
  induction turns generalizing d with
  | nil => exact fun v hv => absurd hv List.not_mem_nil
  | cons turn turns ih =>
      intro v hv
      rcases List.mem_cons.mp hv with rfl | hv
      · exact decide_eq_true (hown turn List.mem_cons_self)
      · exact ih _ (fun turn hmem => hown turn (List.mem_cons_of_mem _ hmem)) v hv

/-- **Sources do not interfere.** -/
theorem sources_isolated (config : Config) (turns : List Turn)
    (hshards : ∀ i, (seenBy i turns).card ≤ (new config).perShardCap)
    (hoffenders : ((new config).bannedSources turns).card ≤ config.maxOffenders) :
    (∀ ip solo, solo.map Turn.call = ownTurns ip turns →
      (new config).verdictsOf ip turns = ((new config).returned solo).map Prod.snd) ∧
    ∀ turns', (∀ ip, ownTurns ip turns' = ownTurns ip turns) →
      ∀ ip, (new config).verdictsOf ip turns' = (new config).verdictsOf ip turns := by
  have h : Uncrowded config turns := ⟨hshards, hoffenders⟩
  constructor
  · intro ip solo hsolo
    have hips : ∀ turn ∈ solo, turn.call.ip = ip := fun turn hmem => by
      have hcall : turn.call ∈ solo.map Turn.call := List.mem_map_of_mem hmem
      rw [hsolo] at hcall
      exact of_decide_eq_true (List.mem_filter.mp hcall).2
    have hsame : ownTurns ip solo = ownTurns ip turns := by
      rw [ownTurns, hsolo, ownTurns, ownCalls, ownCalls, List.filter_filter]
      simp only [Bool.and_self]
    have hown : ∀ ip', ownTurns ip' solo = ownTurns ip' turns ∨ ownTurns ip' solo = [] := fun ip' => by
      by_cases hip : ip' = ip
      · exact .inl (hip ▸ hsame)
      · refine .inr (List.filter_eq_nil_iff.mpr (List.forall_mem_map.mpr fun turn hmem => ?_))
        simpa [hips turn hmem] using Ne.symm hip
    rw [map_snd_returned _ hips, h.verdictsOf_eq, (h.of_own hown).verdictsOf_eq, hsame]
  · intro turns' hown ip
    rw [h.verdictsOf_eq, (h.of_own fun ip => .inl (hown ip)).verdictsOf_eq, hown]

/-- Two sources that take turns at presenting a wrong connection id. -/
noncomputable def twoMismatching : List Turn :=
  (List.range 14).map fun k =>
    ⟨HashOrder.arbitrary, ⟨.replicate _ (if k % 2 = 0 then 1 else 2), .connidMismatch, 1000⟩⟩

noncomputable def oneMismatching : List Turn :=
  List.replicate 7 ⟨HashOrder.arbitrary, ⟨.replicate _ 1, .connidMismatch, 1000⟩⟩

theorem length_returned (d : Detector) (turns : List Turn) : (d.returned turns).length = turns.length := by
  induction turns generalizing d with
  | nil => rfl
  | cons turn turns ih => exact congrArg Nat.succ (ih _)

theorem sources_isolated_mismatching : (new .default).verdictsOf (.replicate _ 1) twoMismatching =
    ((new .default).returned oneMismatching).map Prod.snd := by
  refine (sources_isolated .default twoMismatching (fun i => ?_) ?_).1 (.replicate _ 1) oneMismatching rfl
  · calc (seenBy i twoMismatching).card
      _ ≤ (twoMismatching.map fun turn => turn.call.ip).toFinset.card := Finset.card_filter_le _ _
      _ ≤ (twoMismatching.map fun turn => turn.call.ip).length := List.toFinset_card_le _
      _ ≤ (new .default).perShardCap := by decide
  · calc ((new .default).bannedSources twoMismatching).card
      _ ≤ ((((new .default).returned twoMismatching).filter fun v => v.2.Bans).map Prod.fst).length :=
          List.toFinset_card_le _
      _ ≤ twoMismatching.length := by
          rw [List.length_map, ← length_returned (new .default) twoMismatching]
          exact List.length_filter_le _ _
      _ ≤ Config.default.maxOffenders := by decide

end Detector
end Bluefrog
