import Bluefrog.L7.Runs

/-!
When a source is banned. In a run that spares the source, an event bans it exactly when the score has
reached the threshold and no ban of it is younger than the cooldown. Nothing else re-arms a ban, and
times need not be ordered.
-/

open Rust

namespace Bluefrog

section Client

variable (c : Config) (client : Client) (now : UInt32)

theorem bannedUntil_announce (a : AnnounceInfo) : (client.announce c a now).bannedUntil = client.bannedUntil := by
  rw [announce_eq]
  rfl

theorem bannedUntil_apply (signal : Signal) : (signal.apply c now client).bannedUntil = client.bannedUntil := by
  cases signal with
  | announce a => exact bannedUntil_announce c client now a
  | connidMismatch => rfl
  | scrape hashes => rw [Signal.apply, scrape_eq]
  | connect => rw [Signal.apply, connect_eq]

theorem crosses_eq_true : (crosses c client now).2 = true ↔
    c.scoreBanThreshold ≤ client.score ∧ client.bannedUntil ≤ now := by
  unfold crosses
  split_ifs with hscore hbanned
  · exact ⟨fun h => (by cases h), fun h => absurd hscore (UInt32.not_lt.mpr h.1)⟩
  · exact ⟨fun h => (by cases h), fun h => absurd hbanned (UInt32.not_lt.mpr h.2)⟩
  · exact ⟨fun _ => ⟨UInt32.not_lt.mp hscore, UInt32.not_lt.mp hbanned⟩, fun _ => rfl⟩

end Client

/-- The end of the ban a source is under, from the time of its latest ban. -/
def bannedUntilOf (c : Config) : Option UInt32 → UInt32
  | none => 0
  | some t => saturatingAdd t c.rebanCooldown

theorem bannedUntil_touched (c : Config) (now : UInt32) (prev : Option Client) :
    (touched c now prev).bannedUntil = (prev.map Client.bannedUntil).getD 0 := by
  obtain ⟨drop, decayAt, lastGap, htouched⟩ := touched_eq c now prev
  rw [htouched]
  cases prev <;> rfl

/-- One event of the source: it bans exactly at the threshold with no ban running, and a ban runs for
the cooldown. -/
theorem clientStep_spec (c : Config) (prev : Option Client) (signal : Signal) (now : UInt32) :
    ((clientStep c prev signal now).2 = true ↔
      c.scoreBanThreshold ≤ (clientStep c prev signal now).1.score ∧ (prev.map Client.bannedUntil).getD 0 ≤ now) ∧
    (clientStep c prev signal now).1.bannedUntil =
      if (clientStep c prev signal now).2 = true then saturatingAdd now c.rebanCooldown
      else (prev.map Client.bannedUntil).getD 0 := by
  constructor
  · rw [clientStep, crosses_eq_true, bannedUntil_apply, bannedUntil_touched, crosses_fst]
  · rw [clientStep, crosses_fst, bannedUntil_apply, bannedUntil_touched]

namespace Detector

/-- The time of the latest ban of a source in a run. -/
def latestBan (d : Detector) (ip : Ip) (turns : List Turn) : Option UInt32 :=
  (turns.foldl (fun st turn =>
    let (d, v) := exec turn.order st.1 turn.call
    (d, if turn.call.ip = ip ∧ v.Bans then some turn.call.now else st.2)) (d, none)).2

variable {d : Detector} {turns : List Turn} {ip : Ip}

theorem latestBan_append_singleton (d : Detector) (ip : Ip) (turns : List Turn) (turn : Turn) :
    d.latestBan ip (turns ++ [turn]) =
      if turn.call.ip = ip ∧ ((d.after turns).verdictOf turn).Bans then some turn.call.now
      else d.latestBan ip turns := by
  have hfst : (turns.foldl (fun st turn =>
      let (d, v) := exec turn.order st.1 turn.call
      (d, if turn.call.ip = ip ∧ v.Bans then some turn.call.now else st.2)) (d, none)).1 = d.after turns := by
    induction turns using List.reverseRecOn with
    | nil => rfl
    | append_singleton turns turn ih => rw [List.foldl_concat, after_append_singleton, ← ih]
  rw [latestBan, List.foldl_concat, verdictOf, ← hfst]
  rfl

/-- The verdict of a turn of a source that was untracked and is spared, from its own events. -/
theorem verdictOf_bans_clientRun {turn : Turn} (hnew : d.client turn.call.ip = none)
    (hspared : d.Spared turns turn.call.ip) :
    ((d.after turns).verdictOf turn).Bans ↔
      (clientStep d.config (clientRun d.config (ownTurns turn.call.ip turns)) turn.call.signal
        turn.call.now).2 = true := by
  rw [verdictOf_bans, after_config, client_after hnew hspared]

/-- The state of a spared source knows its latest ban. -/
theorem bannedUntil_clientRun (hnew : d.client ip = none) (hspared : d.Spared turns ip) :
    ((clientRun d.config (ownTurns ip turns)).map Client.bannedUntil).getD 0 =
      bannedUntilOf d.config (d.latestBan ip turns) := by
  induction turns using List.reverseRecOn with
  | nil => rfl
  | append_singleton turns turn ih =>
      have hpre := hspared.append_singleton
      rw [ownTurns_append_singleton, latestBan_append_singleton]
      by_cases hip : turn.call.ip = ip
      · subst hip
        rw [if_pos rfl, clientRun_append_singleton, Option.map_some, Option.getD_some,
          (clientStep_spec d.config _ turn.call.signal turn.call.now).2, ih hpre]
        simp only [true_and, verdictOf_bans_clientRun hnew hpre]
        split_ifs <;> rfl
      · rw [if_neg hip, List.append_nil, ih hpre, if_neg fun h => hip h.1]

/-- A ban of a source is possible: it has none yet, or the latest is a cooldown ago. -/
def Rearmed (config : Config) (latest : Option UInt32) (now : UInt32) : Prop :=
  latest = none ∨ ∃ t, latest = some t ∧ t.toNat + config.rebanCooldown.toNat ≤ now.toNat

theorem rearmed_iff {config : Config} {latest : Option UInt32} (now : UInt32)
    (hfit : ∀ t, latest = some t → t.toNat + config.rebanCooldown.toNat ≤ u32Max.toNat) :
    Rearmed config latest now ↔ bannedUntilOf config latest ≤ now := by
  cases latest with
  | none => exact ⟨fun _ => UInt32.zero_le, fun _ => .inl rfl⟩
  | some t =>
      have hsum : t.toNat + config.rebanCooldown.toNat ≤ 2 ^ 32 - 1 := hfit t rfl
      rw [bannedUntilOf, UInt32.le_iff_toNat_le, toNat_saturatingAdd, Nat.min_eq_left hsum]
      constructor
      · rintro (h | ⟨t', ht, hle⟩)
        · cases h
        · cases ht
          exact hle
      · exact fun hle => .inr ⟨t, rfl, hle⟩

theorem latestBan_mem {t : UInt32} (h : d.latestBan ip turns = some t) :
    ∃ turn ∈ turns, turn.call.ip = ip ∧ turn.call.now = t := by
  induction turns using List.reverseRecOn with
  | nil => cases h
  | append_singleton turns turn ih =>
      rw [latestBan_append_singleton] at h
      split_ifs at h with hban
      · cases h
        exact ⟨turn, List.mem_append_right _ (List.mem_singleton.mpr rfl), hban.1, rfl⟩
      · obtain ⟨turn', hmem, hip, hnow⟩ := ih h
        exact ⟨turn', List.mem_append_left _ hmem, hip, hnow⟩

/-- The times at which a source acts leave room for a cooldown after them. -/
def LeavesRoom (config : Config) (ip : Ip) (turns : List Turn) : Prop :=
  ∀ turn ∈ turns, turn.call.ip = ip → turn.call.now.toNat + config.rebanCooldown.toNat ≤ u32Max.toNat

theorem LeavesRoom.of_append {config : Config} {post : List Turn} (h : LeavesRoom config ip (turns ++ post)) :
    LeavesRoom config ip turns := fun turn hmem => h turn (List.mem_append_left _ hmem)

/-- The verdict of one event of a spared source. -/
theorem verdictOf_bans_iff {pre : List Turn} {turn : Turn} (hnew : d.client turn.call.ip = none)
    (hspared : d.Spared pre turn.call.ip) (hfit : LeavesRoom d.config turn.call.ip pre) :
    ∃ client, (d.after (pre ++ [turn])).client turn.call.ip = some client ∧
      (((d.after pre).verdictOf turn).Bans ↔ d.config.scoreBanThreshold ≤ client.score ∧
        Rearmed d.config (d.latestBan turn.call.ip pre) turn.call.now) := by
  have hself := client_after_self d pre turn
  rw [client_after hnew hspared] at hself
  refine ⟨_, hself, ?_⟩
  rw [verdictOf_bans_clientRun hnew hspared, (clientStep_spec d.config _ turn.call.signal turn.call.now).1,
    bannedUntil_clientRun hnew hspared, rearmed_iff]
  intro t ht
  obtain ⟨turn', hmem, hip, hnow⟩ := latestBan_mem ht
  rw [← hnow]
  exact hfit turn' hmem hip

/-- A further ban comes a cooldown after the latest one. -/
theorem cooldown_of_bans {pre : List Turn} {turn : Turn} {t : UInt32} (hnew : d.client turn.call.ip = none)
    (hspared : d.Spared pre turn.call.ip) (hfit : LeavesRoom d.config turn.call.ip pre)
    (ht : d.latestBan turn.call.ip pre = some t) (hbans : ((d.after pre).verdictOf turn).Bans) :
    t.toNat + d.config.rebanCooldown.toNat ≤ turn.call.now.toNat := by
  obtain ⟨client, -, hiff⟩ := verdictOf_bans_iff hnew hspared hfit
  rcases (hiff.mp hbans).2 with hnone | ⟨t', ht', hcool⟩
  · rw [ht] at hnone
    cases hnone
  · rw [ht] at ht'
    cases ht'
    exact hcool

/-- After a ban, the latest ban is at least as late. -/
theorem latestBan_of_bans {pre : List Turn} {turn : Turn} {mid : List Turn} (hnew : d.client turn.call.ip = none)
    (hspared : d.Spared (pre ++ turn :: mid) turn.call.ip)
    (hfit : LeavesRoom d.config turn.call.ip (pre ++ turn :: mid)) (hban : ((d.after pre).verdictOf turn).Bans) :
    ∃ t, d.latestBan turn.call.ip (pre ++ turn :: mid) = some t ∧ turn.call.now.toNat ≤ t.toNat := by
  induction mid using List.reverseRecOn with
  | nil =>
      refine ⟨turn.call.now, ?_, Nat.le_refl _⟩
      rw [latestBan_append_singleton, if_pos ⟨rfl, hban⟩]
  | append_singleton mid last ih =>
      have hassoc : pre ++ turn :: (mid ++ [last]) = pre ++ turn :: mid ++ [last] := by
        rw [List.append_assoc, List.cons_append]
      rw [hassoc] at hspared hfit ⊢
      obtain ⟨t, ht, hle⟩ := ih hspared.append_singleton hfit.of_append
      rw [latestBan_append_singleton]
      split_ifs with hlast
      · obtain ⟨hip, hbans⟩ := hlast
        rw [← hip] at hnew hspared hfit ht
        have hcool := cooldown_of_bans hnew hspared.append_singleton hfit.of_append ht hbans
        exact ⟨last.call.now, rfl, by omega⟩
      · exact ⟨t, ht, hle⟩

/-- **Bans fire at the threshold, once a cooldown.** -/
theorem bans_once_per_cooldown (d : Detector) (turns : List Turn) (ip : Ip) (hnew : d.client ip = none)
    (hspared : d.Spared turns ip) (hfit : LeavesRoom d.config ip turns) :
    (∀ pre turn post, turns = pre ++ turn :: post → turn.call.ip = ip →
      ∃ client, (d.after (pre ++ [turn])).client ip = some client ∧
        (((d.after pre).verdictOf turn).Bans ↔
          d.config.scoreBanThreshold ≤ client.score ∧ Rearmed d.config (d.latestBan ip pre) turn.call.now)) ∧
    ∀ pre turn mid turn' post, turns = pre ++ turn :: (mid ++ turn' :: post) → turn.call.ip = ip →
      turn'.call.ip = ip → ((d.after pre).verdictOf turn).Bans →
        ((d.after (pre ++ turn :: mid)).verdictOf turn').Bans →
          turn.call.now.toNat + d.config.rebanCooldown.toNat ≤ turn'.call.now.toNat := by
  constructor
  · rintro pre turn post rfl rfl
    exact verdictOf_bans_iff hnew hspared.of_append hfit.of_append
  · rintro pre turn mid turn' post rfl rfl hip hban hban'
    have hassoc : pre ++ turn :: (mid ++ turn' :: post) = (pre ++ turn :: mid) ++ turn' :: post := by
      rw [List.append_assoc, List.cons_append]
    rw [hassoc] at hspared hfit
    obtain ⟨t, ht, hle⟩ := latestBan_of_bans hnew hspared.of_append hfit.of_append hban
    rw [← hip] at hnew hspared hfit ht
    have hcool := cooldown_of_bans hnew hspared.of_append hfit.of_append ht hban'
    omega

/-- A source that presents a wrong connection id ten times in a second, and once more an hour later. -/
def mismatchIp : Ip := .replicate _ 1

def mismatchAt (now : UInt32) : Call := ⟨mismatchIp, .connidMismatch, now⟩

def mismatches : List Call := (List.replicate 10 (1000 : UInt32) ++ [4600]).map mismatchAt

noncomputable def mismatchTurns (n : Nat) : List Turn :=
  (mismatches.take n).map fun call => ⟨HashOrder.arbitrary, call⟩

theorem call_mismatchTurns {n : Nat} {turn : Turn} (h : turn ∈ mismatchTurns n) :
    turn.call = mismatchAt 1000 ∨ turn.call = mismatchAt 4600 := by
  obtain ⟨call, hcall, rfl⟩ := List.mem_map.mp h
  obtain ⟨now, hnow, rfl⟩ := List.mem_map.mp (List.mem_of_mem_take hcall)
  rcases List.mem_append.mp hnow with h | h
  · exact .inl (congrArg mismatchAt (List.eq_of_mem_replicate h))
  · exact .inr (congrArg mismatchAt (List.mem_singleton.mp h))

theorem spared_mismatching (n : Nat) : (new .default).Spared (mismatchTurns n) mismatchIp :=
  spared_of_own fun turn hmem => by
    rcases call_mismatchTurns hmem with h | h <;> rw [h] <;> rfl

theorem ownTurns_mismatching (n : Nat) : ownTurns mismatchIp (mismatchTurns n) = mismatches.take n := by
  have hown : ∀ call ∈ mismatches, call.ip = mismatchIp := by decide
  rw [ownTurns, mismatchTurns, List.map_map, Function.comp_def, List.map_id']
  exact List.filter_eq_self.mpr fun call hmem => decide_eq_true (hown call (List.mem_of_mem_take hmem))

/-- Whether the next one bans. -/
theorem verdictOf_mismatching (n : Nat) (now : UInt32) :
    (((new .default).after (mismatchTurns n)).verdictOf ⟨HashOrder.arbitrary, mismatchAt now⟩).Bans ↔
      (clientStep .default (clientRun .default (mismatches.take n)) .connidMismatch now).2 = true := by
  have hspared : (new .default).Spared (mismatchTurns n) (mismatchAt now).ip := spared_mismatching n
  refine (@verdictOf_bans_clientRun _ _ ⟨HashOrder.arbitrary, mismatchAt now⟩ (client_new _ _) hspared).trans ?_
  exact iff_of_eq (congrArg (fun calls => (clientStep .default (clientRun .default calls) _ now).2 = true)
    (ownTurns_mismatching n))

/-- The seventh bans, those after it do not, and an hour later the source is banned again. -/
theorem bans_once_per_cooldown_mismatching :
    (((new .default).after (mismatchTurns 6)).verdictOf ⟨HashOrder.arbitrary, mismatchAt 1000⟩).Bans ∧
      ¬(((new .default).after (mismatchTurns 9)).verdictOf ⟨HashOrder.arbitrary, mismatchAt 1000⟩).Bans ∧
      (((new .default).after (mismatchTurns 10)).verdictOf ⟨HashOrder.arbitrary, mismatchAt 4600⟩).Bans := by
  have hroom : LeavesRoom (new .default).config mismatchIp (mismatchTurns 11) := fun turn hmem _ => by
    rcases call_mismatchTurns hmem with h | h <;> rw [h] <;> decide
  have hcool := (bans_once_per_cooldown (new .default) (mismatchTurns 11) mismatchIp (client_new _ _)
    (spared_mismatching 11) hroom).2
  have hseventh := (verdictOf_mismatching 6 1000).mpr (by decide +kernel)
  have hlast := (verdictOf_mismatching 10 4600).mpr (by decide +kernel)
  refine ⟨hseventh, fun hagain => ?_, hlast⟩
  have hsplit : mismatchTurns 11 = mismatchTurns 6 ++ ⟨HashOrder.arbitrary, mismatchAt 1000⟩ ::
      (List.replicate 2 ⟨HashOrder.arbitrary, mismatchAt 1000⟩ ++ ⟨HashOrder.arbitrary, mismatchAt 1000⟩ ::
        [⟨HashOrder.arbitrary, mismatchAt 4600⟩]) := rfl
  have hlate := hcool _ _ _ _ _ hsplit rfl rfl hseventh hagain
  exact absurd hlate (by decide)

end Detector
end Bluefrog
