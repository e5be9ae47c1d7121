import Bluefrog.L7.Detection

/-!
The score of an announce against the exact sum of what it fires. The score itself saturates, but what is
added to it was summed in 32 bits before, and that sum wraps around.
-/

open Rust

namespace Bluefrog

/-- The signals an announce fires on a client. -/
def Client.fired (c : Config) (a : AnnounceInfo) (now : UInt32) (client : Client) : List Charge :=
  Charge.all.filter (Charge.fires c a now client)

theorem Charge.mem_all (k : Charge) : k ∈ Charge.all := by cases k <;> decide

theorem weight_announce (c : Config) (a : AnnounceInfo) (now : UInt32) (client : Client) :
    (Signal.announce a).weight c now client = ((client.fired c a now).map fun k => (k.weight c).toNat).sum := rfl

/-- Firing more signals weighs no less. -/
theorem weight_announce_mono {c : Config} {a a' : AnnounceInfo} {now now' : UInt32} {client client' : Client}
    (h : client'.fired c a' now' ⊆ client.fired c a now) :
    (Signal.announce a').weight c now' client' ≤ (Signal.announce a).weight c now client := by
  have hfires : ∀ k, Charge.fires c a' now' client' k = true → Charge.fires c a now client k = true := fun k hk =>
    (List.mem_filter.mp (h (List.mem_filter.mpr ⟨k.mem_all, hk⟩))).2
  have hsub : (client'.fired c a' now').Sublist (client.fired c a now) :=
    List.monotone_filter_right Charge.all hfires
  rw [weight_announce, weight_announce]
  exact (hsub.map _).sum_le_sum fun _ _ => Nat.zero_le _

namespace Detector

/-- The client an event of a source is applied to: its entry, with what has decayed taken off. -/
def meets (d : Detector) (ip : Ip) (now : UInt32) : Client := touched d.config now (d.client ip)

/-- The exact weight of the signals that an announce fires. -/
def firedWeight (d : Detector) (ip : Ip) (a : AnnounceInfo) (now : UInt32) : Nat :=
  (((d.meets ip now).fired d.config a now).map fun k => (k.weight d.config).toNat).sum

/-- The score of a source after an announce of its own. -/
def scoreAfter (order : HashOrder) (d : Detector) (ip : Ip) (a : AnnounceInfo) (now : UInt32) : Option Nat :=
  ((d.onAnnounce order ip a now).1.client ip).map fun client => client.score.toNat

/-- Score addition does not wrap at an announce. -/
structure ScoreAdds (order : HashOrder) (d : Detector) (ip : Ip) (a : AnnounceInfo) (now : UInt32) : Prop where
  /-- All of what fired is added, as far as the score goes. -/
  exact_sum : d.scoreAfter order ip a now =
    some (min (2 ^ 32 - 1) ((d.meets ip now).score.toNat + d.firedWeight ip a now))
  never_lowers : ∀ score, d.scoreAfter order ip a now = some score → (d.meets ip now).score.toNat ≤ score
  /-- An announce that fires some of these signals, on a score no higher, leaves a score no higher. -/
  superset : ∀ (order' : HashOrder) (d' : Detector) (ip' : Ip) (a' : AnnounceInfo) (now' : UInt32),
    d'.config = d.config → (d'.meets ip' now').score ≤ (d.meets ip now).score →
    (d'.meets ip' now').fired d.config a' now' ⊆ (d.meets ip now).fired d.config a now →
    ∀ score score', d.scoreAfter order ip a now = some score → d'.scoreAfter order' ip' a' now' = some score' →
      score' ≤ score

variable (order : HashOrder) (d : Detector) (ip : Ip) (a : AnnounceInfo) (now : UInt32)

/-- What is added is the weight of the signals that fired, less what 32 bits do not hold. -/
theorem scoreAfter_eq : d.scoreAfter order ip a now =
    some (min (2 ^ 32 - 1) ((d.meets ip now).score.toNat + d.firedWeight ip a now % 2 ^ 32)) := by
  have hscore := score_exec order d ⟨ip, .announce a, now⟩
  rw [Signal.apply, announce_eq] at hscore
  have hmap := congrArg (Option.map UInt32.toNat) hscore
  rw [Option.map_map] at hmap
  calc d.scoreAfter order ip a now
    _ = some (saturatingAdd (d.meets ip now).score ((d.meets ip now).charged d.config a now)).toNat := hmap
    _ = some (min (2 ^ 32 - 1) ((d.meets ip now).score.toNat + d.firedWeight ip a now % 2 ^ 32)) := by
      rw [toNat_saturatingAdd, Client.charged, toNat_sum_map, Nat.min_comm]
      rfl

/-- **An announce adds the exact sum of what it fires exactly when that sum fits, or saturates all the same.** -/
theorem score_adds_iff : d.ScoreAdds order ip a now ↔
    d.firedWeight ip a now < 2 ^ 32 ∨
      2 ^ 32 - 1 ≤ (d.meets ip now).score.toNat + d.firedWeight ip a now % 2 ^ 32 := by
  have hafter := scoreAfter_eq order d ip a now
  have hmod := Nat.mod_le (d.firedWeight ip a now) (2 ^ 32)
  constructor
  · intro h
    have hsame := Option.some.inj (hafter.symm.trans h.exact_sum)
    by_contra hwraps
    rw [not_or, Nat.not_lt, Nat.not_le] at hwraps
    have hlt := Nat.mod_lt (d.firedWeight ip a now) (Nat.two_pow_pos 32)
    omega
  · intro h
    have hexact : d.scoreAfter order ip a now =
        some (min (2 ^ 32 - 1) ((d.meets ip now).score.toNat + d.firedWeight ip a now)) := by
      rw [hafter]
      rcases h with hfits | hfull
      · rw [Nat.mod_eq_of_lt hfits]
      · rw [Nat.min_eq_left hfull, Nat.min_eq_left (by omega)]
    refine ⟨hexact, ?_, ?_⟩
    · intro score hscore
      have hvalue := Option.some.inj (hscore.symm.trans hexact)
      have hle := toNat_le_u32Max (d.meets ip now).score
      omega
    · intro order' d' ip' a' now' hconfig hscore hfired score score' hnew hold
      have hvalue := Option.some.inj (hnew.symm.trans hexact)
      have hvalue' := Option.some.inj (hold.symm.trans (scoreAfter_eq order' d' ip' a' now'))
      have hmod' := Nat.mod_le (d'.firedWeight ip' a' now') (2 ^ 32)
      have hweight : d'.firedWeight ip' a' now' ≤ d.firedWeight ip a now := by
        unfold firedWeight
        rw [hconfig]
        exact weight_announce_mono hfired
      have hless := UInt32.le_iff_toNat_le.mp hscore
      omega

/-- Weights that 32 bits hold one by one, but not added up. -/
def heavyConfig : Config := { Config.default with weightBadKey := u32Max, weightPeerid := 1 }

/-- An announce with a trivial key and the peer id of no known client. -/
def trivialAnnounce : AnnounceInfo where
  infoHash := .replicate _ 0
  peerId := .replicate _ 0
  key := 0
  declaredIp := 0
  port := 6881
  left := 1
  downloaded := 0
  uploaded := 0
  numWant := 50
  sourceIsPublic := true
  swarmPeers := 5

theorem score_wraps_to_zero : (new heavyConfig).firedWeight (.replicate _ 1) trivialAnnounce 1000 = 2 ^ 32 ∧
    (new heavyConfig).scoreAfter HashOrder.arbitrary (.replicate _ 1) trivialAnnounce 1000 = some 0 ∧
    ¬(new heavyConfig).ScoreAdds HashOrder.arbitrary (.replicate _ 1) trivialAnnounce 1000 := by
  have hmeets : (new heavyConfig).meets (.replicate _ 1) 1000 = touched heavyConfig 1000 none := by
    rw [meets, client_new]
    rfl
  have hweight : (new heavyConfig).firedWeight (.replicate _ 1) trivialAnnounce 1000 = 2 ^ 32 := by
    rw [firedWeight, hmeets]
    decide +kernel
  have hscore : ((new heavyConfig).meets (.replicate _ 1) 1000).score.toNat = 0 := by
    rw [hmeets]
    decide +kernel
  have hafter := scoreAfter_eq HashOrder.arbitrary (new heavyConfig) (.replicate _ 1) trivialAnnounce 1000
  rw [hweight, hscore, Nat.mod_self] at hafter
  refine ⟨hweight, hafter, fun h => ?_⟩
  have hsum := hafter.symm.trans h.exact_sum
  rw [hweight, hscore] at hsum
  exact absurd (Option.some.inj hsum) (by decide)

end Detector
end Bluefrog
