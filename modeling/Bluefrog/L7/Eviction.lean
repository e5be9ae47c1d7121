import Bluefrog.L7.Runs
import Bluefrog.Lib.CappedMap
import Mathlib.Algebra.Order.BigOperators.Group.Finset

/-!
The memory of the detector. Both of its maps are capped: a new source at a full map takes the place of one
that is the oldest of a sample, and no call evicts otherwise.
-/

open Rust Sharded

namespace Bluefrog
namespace Detector

/-- Number of currently-tracked sources. -/
def tracked (d : Detector) : Nat := ∑ i, (d.shards i).len

/-- Number of remembered offenders. -/
def offendersLen (d : Detector) : Nat := d.offenders.len

/-- The entries an eviction looks at. -/
def sampleOf (order : HashOrder) {V : Type} (m : HashMap Ip V) : List ((_ : Ip) × V) :=
  (order.toList m).take evictSample

theorem sample_sampleOf (order : HashOrder) {V : Type} (m : HashMap Ip V) :
    CappedMap.Sample m (sampleOf order m) where
  mem e he := by
    rw [← Finmap.mem_entries_iff, ← order.coe_toList m]
    exact Multiset.mem_coe.mpr (List.mem_of_mem_take he)
  nonempty h := by
    have hnil : order.toList m = [] := (List.take_eq_nil_iff.mp h).resolve_left (by decide)
    rw [Finmap.len, ← order.coe_toList m, hnil]
    rfl

/-- The time in an entry of a shard. -/
def lastSeenOf (e : (_ : Ip) × Client) : Nat := e.2.lastSeen.toNat

/-- The time in an entry of the registry. -/
def lastOffenceOf (e : (_ : Ip) × Offender) : Nat := e.2.last.toNat

theorem evictOldest_eq (order : HashOrder) {V : Type} (last : V → UInt32) (m : HashMap Ip V) :
    evictOldest order last m = CappedMap.evictOldest (sampleOf order m) (fun e => (last e.2).toNat) m := by
  rw [evictOldest, CappedMap.evictOldest, sampleOf]
  cases ((order.toList m).take evictSample).argmin fun e => (last e.2).toNat <;> rfl

/-- The shard of a source, with room for the source. -/
def shardRoom (d : Detector) (order : HashOrder) (ip : Ip) : ClientShard :=
  CappedMap.makeRoom (sampleOf order (d.shards (shardOf ip))) lastSeenOf d.perShardCap (d.shards (shardOf ip)) ip

/-- The registry, with room for a source. -/
def registryRoom (d : Detector) (order : HashOrder) (ip : Ip) : HashMap Ip Offender :=
  CappedMap.makeRoom (sampleOf order d.offenders) lastOffenceOf d.config.maxOffenders d.offenders ip

section Sections

variable (order : HashOrder) (d : Detector) (ip : Ip) (now : UInt32)

/-- The section under a shard's lock admits the source to its shard. -/
theorem underShard_shards (event : Client → Client) : (d.underShard order ip now event).1.shards =
    setShard shardOf d.shards ip ((d.shardRoom order ip).insert ip
      (crosses d.config (event (touched d.config now (d.client ip))) now).1) := by
  simp only [underShard, touch_client, shardRoom, CappedMap.makeRoom]
  simp only [touch, evictOldest_eq]
  rfl

/-- An offence admits the source to the registry. -/
theorem recordOffence_offenders : (d.recordOffence order ip now).1.offenders = (d.registryRoom order ip).insert ip
    ⟨saturatingAdd (((d.registryRoom order ip).lookup ip).getD ⟨0, 0⟩).offenses 1, now⟩ := by
  simp only [recordOffence, registryRoom, CappedMap.makeRoom, evictOldest_eq]
  rfl

theorem decide_offenders (ban : Bool) : (d.decide order ip ban now).1.offenders =
    if ban then (d.recordOffence order ip now).1.offenders else d.offenders := by
  cases ban <;> rfl

theorem decide_perShardCap (ban : Bool) : (d.decide order ip ban now).1.perShardCap = d.perShardCap := by
  cases ban <;> rfl

end Sections

/-- Both maps are within their caps. -/
structure Bounded (d : Detector) : Prop where
  cap : d.perShardCap = max (d.config.maxEntries / detectorShards) 1
  shards_len : ∀ i, (d.shards i).len ≤ d.perShardCap
  offenders_len : d.offenders.len ≤ max 1 d.config.maxOffenders

theorem bounded_new (config : Config) : (new config).Bounded where
  cap := rfl
  shards_len _ := Nat.zero_le _
  offenders_len := Nat.zero_le _

variable {d : Detector}

theorem Bounded.cap_eq (h : d.Bounded) : d.perShardCap = max 1 d.perShardCap := by
  rw [h.cap]
  omega

/-- One call, on both maps. -/
structure Moved (order : HashOrder) (d : Detector) (ip : Ip) (d' : Detector) : Prop where
  config : d'.config = d.config
  perShardCap : d'.perShardCap = d.perShardCap
  shards : ∃ client, d'.shards = setShard shardOf d.shards ip ((d.shardRoom order ip).insert ip client)
  offenders : d'.offenders = d.offenders ∨
    ∃ offender, d'.offenders = (d.registryRoom order ip).insert ip offender

theorem moved_exec (order : HashOrder) (d : Detector) (call : Call) :
    Moved order d call.ip (d.exec order call).1 := by
  have hshards := underShard_shards order d call.ip call.now (call.signal.apply d.config call.now)
  rw [← (decide_shards order _ call.ip _ call.now).1, ← exec_eq] at hshards
  refine ⟨exec_config order d call, ?_, ⟨_, hshards⟩, ?_⟩
  · rw [exec_eq, decide_perShardCap]
    rfl
  · rw [exec_eq, decide_offenders]
    split_ifs
    · exact .inr ⟨_, recordOffence_offenders order _ call.ip call.now⟩
    · exact .inl rfl

/-- A call keeps the maps within their caps. -/
theorem Moved.bounded {order : HashOrder} {ip : Ip} {d' : Detector} (hmoved : Moved order d ip d')
    (h : d.Bounded) : d'.Bounded := by
  obtain ⟨hconfig, hcap, ⟨client, hshards⟩, hoffenders⟩ := hmoved
  refine ⟨?_, fun i => ?_, ?_⟩
  · rw [hcap, hconfig, h.cap]
  · rw [hcap, hshards, setShard, Function.update_apply]
    split_ifs
    · exact CappedMap.len_admit_le h.cap_eq (sample_sampleOf order _) (h.shards_len _) client
    · exact h.shards_len i
  · rw [hconfig]
    rcases hoffenders with hsame | ⟨offender, hadmitted⟩
    · rw [hsame]
      exact h.offenders_len
    · rw [hadmitted]
      exact CappedMap.len_admit_le rfl (sample_sampleOf order _) h.offenders_len offender

/-- The section under a shard's lock keeps the maps within their caps, and so does the one under the registry's. -/
theorem Bounded.underShard (h : d.Bounded) (order : HashOrder) (ip : Ip) (now : UInt32) (event : Client → Client) :
    (d.underShard order ip now event).1.Bounded := by
  refine ⟨h.cap, fun i => ?_, h.offenders_len⟩
  change ((d.underShard order ip now event).1.shards i).len ≤ d.perShardCap
  rw [underShard_shards, setShard, Function.update_apply]
  split_ifs
  · exact CappedMap.len_admit_le h.cap_eq (sample_sampleOf order _) (h.shards_len _) _
  · exact h.shards_len i

theorem Bounded.recordOffence (h : d.Bounded) (order : HashOrder) (ip : Ip) (now : UInt32) :
    (d.recordOffence order ip now).1.Bounded := by
  refine ⟨h.cap, h.shards_len, ?_⟩
  change _ ≤ max 1 d.config.maxOffenders
  rw [recordOffence_offenders]
  exact CappedMap.len_admit_le rfl (sample_sampleOf order _) h.offenders_len _

/-- What a call evicts: at most one other source from the shard of its own, and one from the registry. -/
structure EvictsMinimally (order : HashOrder) (d : Detector) (ip : Ip) (d' : Detector) : Prop where
  present : ip ∈ d'.shards (shardOf ip)
  elsewhere : ∀ i, i ≠ shardOf ip → d'.shards i = d.shards i
  shard : CappedMap.Admits (sampleOf order (d.shards (shardOf ip))) lastSeenOf d.perShardCap (d.shards (shardOf ip))
    ip (d'.shards (shardOf ip))
  registry : CappedMap.Admits (sampleOf order d.offenders) lastOffenceOf (max 1 d.config.maxOffenders) d.offenders
    ip d'.offenders

theorem Moved.evictsMinimally {order : HashOrder} {ip : Ip} {d' : Detector} (hmoved : Moved order d ip d')
    (h : d.Bounded) : EvictsMinimally order d ip d' := by
  obtain ⟨-, -, ⟨client, hshards⟩, hoffenders⟩ := hmoved
  have hshard : d'.shards (shardOf ip) = (d.shardRoom order ip).insert ip client := by
    rw [hshards, setShard, Function.update_self]
  refine ⟨?_, fun i hi => ?_, ?_, ?_⟩
  · rw [hshard, Finmap.mem_insert]
    exact .inl rfl
  · rw [hshards, setShard, Function.update_of_ne hi]
  · rw [hshard]
    exact CappedMap.admits h.cap_eq (sample_sampleOf order _) (h.shards_len _) client
  · rcases hoffenders with hsame | ⟨offender, hadmitted⟩
    · rw [hsame]
      exact .kept fun _ _ => rfl
    · rw [hadmitted]
      exact CappedMap.admits rfl (sample_sampleOf order _) h.offenders_len offender

theorem bounded_after (config : Config) (turns : List Turn) : ((new config).after turns).Bounded := by
  induction turns using List.reverseRecOn with
  | nil => exact bounded_new config
  | append_singleton turns turn ih =>
      rw [after_append_singleton]
      exact (moved_exec turn.order _ turn.call).bounded ih

theorem Bounded.tracked_le (h : d.Bounded) : d.tracked ≤ max detectorShards d.config.maxEntries := by
  calc d.tracked
    _ ≤ ∑ _i : Fin detectorShards, d.perShardCap := Finset.sum_le_sum (fun i _ => h.shards_len i)
    _ = detectorShards * max (d.config.maxEntries / detectorShards) 1 := by
        rw [Finset.sum_const, Finset.card_univ, Fintype.card_fin, smul_eq_mul, h.cap]
    _ ≤ max detectorShards d.config.maxEntries := by
        have hdiv := Nat.div_mul_le_self d.config.maxEntries detectorShards
        change 16 * max (d.config.maxEntries / 16) 1 ≤ max 16 d.config.maxEntries
        change d.config.maxEntries / 16 * 16 ≤ d.config.maxEntries at hdiv
        omega

/-- **The detector's memory stays bounded, and it evicts minimally.** -/
theorem bounded_by_eviction (config : Config) (turns : List Turn) :
    ((new config).after turns).tracked ≤ max detectorShards config.maxEntries ∧
    ((new config).after turns).offendersLen ≤ max 1 config.maxOffenders ∧
    ((new config).after turns).config = config ∧
    ((new config).after turns).perShardCap = max (config.maxEntries / detectorShards) 1 ∧
    ∀ turn, EvictsMinimally turn.order ((new config).after turns) turn.call.ip
      ((new config).after (turns ++ [turn])) := by
  have h := bounded_after config turns
  have hconfig : ((new config).after turns).config = config := after_config _ _
  have htracked := h.tracked_le
  have hoffenders := h.offenders_len
  have hcap := h.cap
  rw [hconfig] at htracked hoffenders hcap
  refine ⟨htracked, hoffenders, hconfig, hcap, fun turn => ?_⟩
  rw [after_append_singleton]
  exact (moved_exec turn.order _ turn.call).evictsMinimally h

end Detector
end Bluefrog
