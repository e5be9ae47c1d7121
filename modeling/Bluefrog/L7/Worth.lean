import Bluefrog.L7.Score

/-!
The most that an event can weigh, whatever is remembered of its source. A score never grows by more than that,
and an eviction only lowers it.
-/

open Rust

namespace Bluefrog

/-- Whether an announce may fire a signal. Where the memory of the source has a say, it may. -/
def Charge.mayFire (c : Config) (a : AnnounceInfo) : Charge → Bool
  | badKey => a.key = 0 ∨ a.key = u32Max
  | declaredIp => a.declaredIp ≠ 0 ∧ a.sourceIsPublic
  | badPort => a.port < 1024
  | fakeSeeder => a.left = 0 ∧ a.downloaded = 0 ∧ a.uploaded = 0
  | numwant => c.numwantAbuse < a.numWant
  | peerid => !isKnownClient a.peerId
  | interval | keyChurn | peeridChurn | emptySwarm | breadth => true

/-- The most that an event can weigh. -/
def Signal.most (c : Config) : Signal → Nat
  | .announce a => ((Charge.all.filter (Charge.mayFire c a)).map fun k => (k.weight c).toNat).sum
  | .connidMismatch => c.weightConnid.toNat
  | .scrape hashes => if c.scrapeVolumeThreshold ≤ hashes then c.weightScrapeVolume.toNat else 0
  | .connect => c.weightConnectSpam.toNat

theorem Charge.mayFire_of_fires {c : Config} {a : AnnounceInfo} {now : UInt32} {client : Client} {k : Charge}
    (h : k.fires c a now client = true) : k.mayFire c a = true := by
  cases k with
  | badPort | fakeSeeder | numwant =>
      simp only [fires, decide_eq_true_eq] at h
      simp only [mayFire, decide_eq_true_eq]
      exact h.2
  | interval | keyChurn | peeridChurn | emptySwarm | breadth => rfl
  | badKey | declaredIp | peerid => exact h

theorem weight_le_most (c : Config) (now : UInt32) (client : Client) (signal : Signal) :
    signal.weight c now client ≤ signal.most c := by
  cases signal with
  | announce a =>
      have hsub : (Charge.all.filter (Charge.fires c a now client)).Sublist (Charge.all.filter (Charge.mayFire c a)) :=
        List.monotone_filter_right Charge.all fun _ => Charge.mayFire_of_fires
      exact (hsub.map _).sum_le_sum fun _ _ => Nat.zero_le _
  | connidMismatch | scrape => exact Nat.le_refl _
  | connect =>
      rw [Signal.weight, Signal.most]
      split_ifs
      · exact Nat.le_refl _
      · exact Nat.zero_le _

/-- What 32 bits do not hold of the weights of an announce is lost, and never gained. -/
theorem score_apply_le (c : Config) (now : UInt32) (client : Client) (signal : Signal) :
    (signal.apply c now client).score.toNat ≤ client.score.toNat + signal.most c := by
  have hmost := weight_le_most c now client signal
  have hsaturated : ∀ w : UInt32, (saturatingAdd client.score w).toNat ≤ client.score.toNat + w.toNat := by
    intro w
    rw [toNat_saturatingAdd]
    exact Nat.min_le_left _ _
  cases signal with
  | announce a =>
      have hcharged : (client.charged c a now).toNat ≤ (Signal.announce a).weight c now client := by
        rw [Client.charged, toNat_sum_map, Signal.weight]
        exact Nat.mod_le _ _
      rw [Signal.apply, announce_eq]
      exact (hsaturated _).trans (Nat.add_le_add_left (hcharged.trans hmost) _)
  | connidMismatch => exact hsaturated _
  | scrape hashes =>
      rw [Signal.apply, scrape_eq, Signal.most]
      dsimp only
      split_ifs
      · exact hsaturated _
      · exact Nat.le_refl _
  | connect =>
      rw [Signal.apply, connect_eq]
      dsimp only
      split_ifs
      · exact hsaturated _
      · exact Nat.le_add_right _ _

namespace Detector

variable (order : HashOrder) (d : Detector)

/-- The score of a source. One that is not tracked has none. -/
def scoreOf (ip : Ip) : Nat := (d.client ip).elim 0 fun client => client.score.toNat

theorem scoreOf_new (config : Config) (ip : Ip) : (new config).scoreOf ip = 0 := by rw [scoreOf, client_new]; rfl

/-- A source that calls is met with no more than its score. -/
theorem score_meets_le (ip : Ip) (now : UInt32) : (d.meets ip now).score.toNat ≤ d.scoreOf ip := by
  obtain ⟨drop, decayAt, lastGap, htouched⟩ := touched_eq d.config now (d.client ip)
  rw [meets, htouched, scoreOf]
  dsimp only
  rw [toNat_saturatingSub]
  cases d.client ip with
  | none => exact Nat.sub_le _ _
  | some client => exact Nat.sub_le _ _

/-- The section under a shard's lock adds to no score but that of the source, and to that no more than the most
that the event weighs. -/
theorem scoreOf_underShard_le (call : Call) (ip : Ip) :
    (d.underShard order call.ip call.now (call.signal.apply d.config call.now)).1.scoreOf ip ≤
      d.scoreOf ip + if call.ip = ip then call.signal.most d.config else 0 := by
  by_cases hip : call.ip = ip
  · subst hip
    rw [if_pos rfl, scoreOf, client_underShard_self, crosses_fst]
    exact (score_apply_le _ _ _ _).trans (Nat.add_le_add_right (d.score_meets_le _ _) _)
  · rw [if_neg hip, Nat.add_zero, scoreOf]
    rcases client_underShard_of_ne order d (Ne.symm hip) call.now (call.signal.apply d.config call.now) with
      hsame | hgone
    · rw [hsame, scoreOf]
    · rw [hgone]
      exact Nat.zero_le _

/-- A source is only banned at the threshold. -/
theorem threshold_le_of_underShard {call : Call}
    (h : (d.underShard order call.ip call.now (call.signal.apply d.config call.now)).2 = true) :
    d.config.scoreBanThreshold.toNat ≤ d.scoreOf call.ip + call.signal.most d.config := by
  rw [underShard_ban, crosses_eq_true] at h
  have hscore := score_apply_le d.config call.now (d.meets call.ip call.now) call.signal
  have hmeets := d.score_meets_le call.ip call.now
  have hthreshold := UInt32.le_iff_toNat_le.mp h.1
  rw [meets] at hscore hmeets
  omega

end Detector
end Bluefrog
