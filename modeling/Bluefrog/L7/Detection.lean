import Bluefrog.L7.BanCooldown
import Bluefrog.L7.Decay
import Mathlib.Algebra.Order.BigOperators.Group.List

/-!
Detection measured by weight. The score of a source is its charged weight less what has decayed, and
decay takes off a fixed amount for each whole interval since the source was first seen. So a source is
never banned before its weight reaches the threshold, and is banned by the time its weight makes up for
the decay as well.
-/

open Rust Intervals

namespace Bluefrog

/-- The weight an event charges the source it meets, in exact integers. -/
def Signal.weight (c : Config) (now : UInt32) (client : Client) : Signal → Nat
  | .announce a => ((Charge.all.filter (Charge.fires c a now client)).map fun k => (k.weight c).toNat).sum
  | .connidMismatch => c.weightConnid.toNat
  | .scrape hashes => if c.scrapeVolumeThreshold ≤ hashes then c.weightScrapeVolume.toNat else 0
  | .connect => if c.connectBurst < saturatingAdd client.connects 1 then c.weightConnectSpam.toNat else 0

/-- No announce fires signals whose weights add up to more than 32 bits. -/
def Config.SumsFit (c : Config) : Prop :=
  ∀ (a : AnnounceInfo) (now : UInt32) (client : Client), (Signal.announce a).weight c now client ≤ u32Max.toNat

section Step

variable {c : Config} (now : UInt32) (client : Client)

theorem toNat_sum_map {α : Type} (w : α → UInt32) (l : List α) :
    (l.map w).sum.toNat = (l.map fun k => (w k).toNat).sum % 2 ^ 32 := by
  induction l with
  | nil => rfl
  | cons k l ih =>
      rw [List.map_cons, List.sum_cons, List.map_cons, List.sum_cons, UInt32.toNat_add, ih, Nat.add_mod_mod]

/-- An event adds its weight to the score, as far as the score goes. -/
theorem score_apply (hfit : c.SumsFit) (signal : Signal) :
    (signal.apply c now client).score.toNat = min (client.score.toNat + signal.weight c now client) (2 ^ 32 - 1) := by
  have hscore := toNat_le_u32Max client.score
  cases signal with
  | announce a =>
      have hlt : (Signal.announce a).weight c now client < 2 ^ 32 := Nat.lt_succ_of_le (hfit a now client)
      have hcharged : (client.charged c a now).toNat = (Signal.announce a).weight c now client := by
        rw [Client.charged, toNat_sum_map, ← Signal.weight, Nat.mod_eq_of_lt hlt]
      rw [Signal.apply, announce_eq]
      change (saturatingAdd client.score (client.charged c a now)).toNat = _
      rw [toNat_saturatingAdd, hcharged]
  | connidMismatch => exact toNat_saturatingAdd _ _
  | scrape hashes =>
      simp only [Signal.apply, scrape_eq, Signal.weight]
      split_ifs
      · exact toNat_saturatingAdd _ _
      · exact (Nat.min_eq_left hscore).symm
  | connect =>
      simp only [Signal.apply, Client.connect, Signal.weight]
      split_ifs
      · exact toNat_saturatingAdd _ _
      · exact (Nat.min_eq_left hscore).symm

/-- The books of a source first seen at a second and charged some weight since. -/
structure Tally (c : Config) (first : UInt32) (charged : Nat) (client : Client) : Prop where
  score_le : client.score.toNat ≤ charged
  /-- The decay has been anchored in whole intervals since the source was first seen. -/
  anchored : client.decayAt.toNat = advance (max c.decayInterval.toNat 1) first.toNat client.lastSeen.toNat

/-- No ban has been issued, and nothing but decay is missing from the score. -/
structure Owed (c : Config) (first : UInt32) (charged : Nat) (client : Client) : Prop where
  bannedUntil : client.bannedUntil = 0
  le_score : charged ≤ client.score.toNat +
    c.decayAmount.toNat * steps (max c.decayInterval.toNat 1) first.toNat client.lastSeen.toNat

variable {now client} {first : UInt32} {charged : Nat}

theorem touched_none_books (c : Config) (now : UInt32) :
    Tally c now 0 (touched c now none) ∧ Owed c now 0 (touched c now none) := by
  obtain ⟨hscore, hanchor⟩ := (Client.new now).decay_toNat now c.decayAmount c.decayInterval
  refine ⟨⟨?_, ?_⟩, ⟨?_, Nat.zero_le _⟩⟩
  · change ((Client.new now).decay now c.decayAmount c.decayInterval).score.toNat ≤ 0
    rw [hscore]
    exact Nat.sub_le _ _
  · rw [lastSeen_touched]
    exact hanchor
  · rw [bannedUntil_touched]
    rfl

theorem Tally.touched (h : Tally c first charged client) (hle : client.lastSeen ≤ now) :
    Tally c first charged (touched c now (some client)) := by
  have hi : 0 < max c.decayInterval.toNat 1 := Nat.le_max_right _ _
  obtain ⟨hscore, hanchor⟩ := client.decay_toNat now c.decayAmount c.decayInterval
  refine ⟨?_, ?_⟩
  · rw [Bluefrog.touched, hscore]
    exact Nat.le_trans (Nat.sub_le _ _) h.score_le
  · rw [lastSeen_touched, Bluefrog.touched, hanchor, h.anchored, advance_advance hi,
      Nat.max_eq_right (UInt32.le_iff_toNat_le.mp hle)]

theorem Owed.touched (h : Owed c first charged client) (htally : Tally c first charged client)
    (hle : client.lastSeen ≤ now) : Owed c first charged (touched c now (some client)) := by
  have hi : 0 < max c.decayInterval.toNat 1 := Nat.le_max_right _ _
  obtain ⟨hscore, -⟩ := client.decay_toNat now c.decayAmount c.decayInterval
  refine ⟨by rw [bannedUntil_touched]; exact h.bannedUntil, ?_⟩
  -- the intervals until the last event and those since are the intervals until now
  have hsteps := steps_advance hi first.toNat client.lastSeen.toNat now.toNat
  rw [← htally.anchored, Nat.max_eq_right (UInt32.le_iff_toNat_le.mp hle)] at hsteps
  have hdue := h.le_score
  rw [lastSeen_touched, Bluefrog.touched, hscore, ← hsteps, Nat.mul_add]
  omega

/-- An event keeps the books, and bans only at the threshold. -/
theorem Tally.step (h : Tally c first charged client) (hfit : c.SumsFit) (signal : Signal) (now : UInt32) :
    Tally c first (charged + signal.weight c now client) (crosses c (signal.apply c now client) now).1 ∧
      ((crosses c (signal.apply c now client) now).2 = true →
        c.scoreBanThreshold.toNat ≤ charged + signal.weight c now client) := by
  have hscore := score_apply now client hfit signal
  obtain ⟨hseen, hanchor⟩ := times_apply c now client signal
  have hle := h.score_le
  constructor
  · rw [crosses_fst]
    refine ⟨?_, ?_⟩
    · change (signal.apply c now client).score.toNat ≤ _
      omega
    · change (signal.apply c now client).decayAt.toNat = advance _ _ (signal.apply c now client).lastSeen.toNat
      rw [hanchor, hseen, h.anchored]
  · intro hban
    have hthreshold := UInt32.le_iff_toNat_le.mp ((crosses_eq_true c _ now).mp hban).1
    omega

/-- An event that does not ban leaves the score below the threshold, so it did not saturate either. -/
theorem Owed.step (h : Owed c first charged client) (hfit : c.SumsFit) (signal : Signal) (now : UInt32)
    (hban : (crosses c (signal.apply c now client) now).2 = false) :
    Owed c first (charged + signal.weight c now client) (crosses c (signal.apply c now client) now).1 ∧
      (crosses c (signal.apply c now client) now).1.score.toNat < c.scoreBanThreshold.toNat := by
  have hscore := score_apply now client hfit signal
  have hseen := (times_apply c now client signal).1
  have hbanned := bannedUntil_apply c client now signal
  have hlt : (signal.apply c now client).score.toNat < c.scoreBanThreshold.toNat := by
    by_contra hge
    have hcross : (crosses c (signal.apply c now client) now).2 = true := by
      rw [crosses_eq_true, hbanned, h.bannedUntil]
      exact ⟨UInt32.le_iff_toNat_le.mpr (Nat.not_lt.mp hge), UInt32.zero_le⟩
    rw [hban] at hcross
    cases hcross
  have hdue := h.le_score
  have hfits := toNat_le_u32Max c.scoreBanThreshold
  rw [crosses_fst, hban]
  refine ⟨⟨hbanned.trans h.bannedUntil, ?_⟩, hlt⟩
  change _ ≤ (signal.apply c now client).score.toNat +
    c.decayAmount.toNat * steps _ _ (signal.apply c now client).lastSeen.toNat
  rw [hseen]
  omega

end Step

namespace Detector

/-- The weight charged to a source over some turns. -/
def charged (d : Detector) (ip : Ip) : List Turn → Nat
  | [] => 0
  | turn :: turns =>
      (if turn.call.ip = ip then
        turn.call.signal.weight d.config turn.call.now (touched d.config turn.call.now (d.client ip)) else 0) +
        charged (d.exec turn.order turn.call).1 ip turns

/-- A turn of the source bans it. -/
def BannedIn (d : Detector) (ip : Ip) (turns : List Turn) : Prop :=
  ∃ pre turn post, turns = pre ++ turn :: post ∧ turn.call.ip = ip ∧ ((d.after pre).verdictOf turn).Bans

theorem charged_append_singleton (d : Detector) (ip : Ip) (turns : List Turn) (turn : Turn) :
    d.charged ip (turns ++ [turn]) = d.charged ip turns +
      if turn.call.ip = ip then
        turn.call.signal.weight d.config turn.call.now (touched d.config turn.call.now ((d.after turns).client ip))
      else 0 := by
  induction turns generalizing d with
  | nil => rw [List.nil_append, charged, charged, charged, Nat.add_comm]; rfl
  | cons head turns ih =>
      rw [List.cons_append, charged, charged, ih, exec_config, Nat.add_assoc]
      rfl

theorem BannedIn.append_singleton {d : Detector} {ip : Ip} {turns : List Turn} (h : d.BannedIn ip turns) (turn : Turn) :
    d.BannedIn ip (turns ++ [turn]) := by
  obtain ⟨pre, turn', post, rfl, hip, hban⟩ := h
  exact ⟨pre, turn', post ++ [turn], by rw [List.append_assoc, List.cons_append], hip, hban⟩

/-- What is known of a source after a run: nothing while it is untracked, and then its books. -/
def Booked (d : Detector) (ip : Ip) (turns : List Turn) : Prop :=
  match (d.after turns).client ip with
  | none => ownTurns ip turns = [] ∧ d.charged ip turns = 0
  | some client => ∃ first last, (ownTurns ip turns).head? = some first ∧ (ownTurns ip turns).getLast? = some last ∧
      client.lastSeen = last.now ∧ Tally d.config first.now (d.charged ip turns) client ∧
      (¬d.BannedIn ip turns → Owed d.config first.now (d.charged ip turns) client ∧
        client.score.toNat < d.config.scoreBanThreshold.toNat)

variable {d : Detector} {ip : Ip} {turns : List Turn} {turn : Turn}

/-- A turn of the source, on books that are open: it has been seen at `first`, and charged so much. -/
theorem booked_of_touched (hfit : d.config.SumsFit) (hip : turn.call.ip = ip) {first : Call} {charged : Nat}
    (hfirst : (ownTurns ip turns ++ [turn.call]).head? = some first) (hcharged : d.charged ip turns = charged)
    (htally : Tally d.config first.now charged (touched d.config turn.call.now ((d.after turns).client ip)))
    (howed : ¬d.BannedIn ip turns →
      Owed d.config first.now charged (touched d.config turn.call.now ((d.after turns).client ip))) :
    d.Booked ip (turns ++ [turn]) ∧ (((d.after turns).verdictOf turn).Bans →
      d.config.scoreBanThreshold.toNat ≤ d.charged ip (turns ++ [turn])) := by
  subst hip
  have hstep := htally.step hfit turn.call.signal turn.call.now
  have hsum : d.charged turn.call.ip (turns ++ [turn]) = charged + turn.call.signal.weight d.config turn.call.now
      (touched d.config turn.call.now ((d.after turns).client turn.call.ip)) := by
    rw [charged_append_singleton, hcharged, if_pos rfl]
  have hbans := verdictOf_bans (d.after turns) turn
  rw [after_config] at hbans
  rw [hsum, Booked, client_after_self]
  refine ⟨⟨first, turn.call, ?_, ?_, ?_, ?_, ?_⟩, fun h => hstep.2 (hbans.mp h)⟩
  · rw [ownTurns_append_singleton, if_pos rfl, hfirst]
  · rw [ownTurns_append_singleton, if_pos rfl, List.getLast?_concat]
  · exact lastSeen_clientStep _ _ _ _
  · rw [hsum]
    exact hstep.1
  · intro hfree
    have hbefore : ¬d.BannedIn turn.call.ip turns := fun h => hfree (h.append_singleton turn)
    have hallow : (clientStep d.config ((d.after turns).client turn.call.ip) turn.call.signal turn.call.now).2 =
        false := by
      rw [Bool.eq_false_iff]
      exact fun h => hfree ⟨turns, turn, [], rfl, rfl, hbans.mpr h⟩
    rw [hsum]
    exact (howed hbefore).step hfit turn.call.signal turn.call.now hallow

/-- Each turn keeps the books of a source whose events are ordered. -/
theorem Booked.append_singleton (h : d.Booked ip turns) (hfit : d.config.SumsFit)
    (hkept : d.Spared (turns ++ [turn]) ip)
    (hordered : (ownTurns ip (turns ++ [turn])).Pairwise fun e e' => e.now ≤ e'.now) :
    d.Booked ip (turns ++ [turn]) ∧ (turn.call.ip = ip → ((d.after turns).verdictOf turn).Bans →
      d.config.scoreBanThreshold.toNat ≤ d.charged ip (turns ++ [turn])) := by
  by_cases hip : turn.call.ip = ip
  · unfold Booked at h
    cases hclient : (d.after turns).client ip with
    | none =>
        rw [hclient] at h
        obtain ⟨hown, hcharged⟩ := h
        obtain ⟨htally, howed⟩ := touched_none_books d.config turn.call.now
        have hfirst : (ownTurns ip turns ++ [turn.call]).head? = some turn.call := by
          rw [hown]
          rfl
        obtain ⟨hbooked, hban⟩ := booked_of_touched hfit hip hfirst hcharged
          (by rw [hclient]; exact htally) fun _ => by rw [hclient]; exact howed
        exact ⟨hbooked, fun _ => hban⟩
    | some client =>
        rw [hclient] at h
        obtain ⟨first, last, hfirst, hlast, hseen, htally, howed⟩ := h
        rw [ownTurns_append_singleton, if_pos hip] at hordered
        have hle : client.lastSeen ≤ turn.call.now := by
          rw [hseen]
          exact (List.pairwise_append.mp hordered).2.2 last (List.mem_of_getLast? hlast) _ (List.mem_singleton.mpr rfl)
        have hfirst' : (ownTurns ip turns ++ [turn.call]).head? = some first := by
          rw [List.head?_append, hfirst]
          rfl
        obtain ⟨hbooked, hban⟩ := booked_of_touched hfit hip hfirst' rfl
          (by rw [hclient]; exact htally.touched hle)
          fun hfree => by rw [hclient]; exact (howed hfree).1.touched htally hle
        exact ⟨hbooked, fun _ => hban⟩
  · refine ⟨?_, fun h => absurd h hip⟩
    have hsum : d.charged ip (turns ++ [turn]) = d.charged ip turns := by
      rw [charged_append_singleton, if_neg hip, Nat.add_zero]
    rw [Booked, hkept.client_of_ne hip, ownTurns_append_singleton, if_neg hip, List.append_nil, hsum]
    unfold Booked at h
    cases hclient : (d.after turns).client ip with
    | none => rwa [hclient] at h
    | some client =>
        rw [hclient] at h
        obtain ⟨first, last, hfirst, hlast, hseen, htally, howed⟩ := h
        refine ⟨first, last, hfirst, hlast, hseen, htally, fun hfree => howed fun hban => ?_⟩
        exact hfree (hban.append_singleton turn)

theorem booked_after (hfit : d.config.SumsFit) (hnew : d.client ip = none) (hkept : d.Spared turns ip)
    (hordered : (ownTurns ip turns).Pairwise fun e e' => e.now ≤ e'.now) : d.Booked ip turns := by
  induction turns using List.reverseRecOn with
  | nil =>
      have hclient : (d.after []).client ip = none := hnew
      rw [Booked, hclient]
      exact ⟨rfl, rfl⟩
  | append_singleton turns turn ih =>
      have hpre : (ownTurns ip turns).Pairwise fun e e' => e.now ≤ e'.now := by
        rw [ownTurns_append_singleton] at hordered
        exact (List.pairwise_append.mp hordered).1
      exact ((ih hkept.append_singleton hpre).append_singleton hfit hkept hordered).1

/-- **Detection is sound and complete relative to the charged weight.** -/
theorem detection_by_weight (d : Detector) (turns : List Turn) (ip : Ip) (hfit : d.config.SumsFit)
    (hnew : d.client ip = none) (hkept : d.Spared turns ip)
    (hordered : (ownTurns ip turns).Pairwise fun e e' => e.now ≤ e'.now) :
    ∀ pre turn post, turns = pre ++ turn :: post → turn.call.ip = ip →
      (d.charged ip (pre ++ [turn]) < d.config.scoreBanThreshold.toNat → ¬((d.after pre).verdictOf turn).Bans) ∧
      ∀ first, (ownTurns ip (pre ++ [turn])).head? = some first →
        d.config.scoreBanThreshold.toNat + d.config.decayAmount.toNat *
            ((turn.call.now.toNat - first.now.toNat) / max d.config.decayInterval.toNat 1) ≤
          d.charged ip (pre ++ [turn]) →
        d.BannedIn ip (pre ++ [turn]) := by
  rintro pre turn post rfl hip
  have hassoc : pre ++ turn :: post = (pre ++ [turn]) ++ post := by rw [List.append_assoc, List.singleton_append]
  rw [hassoc] at hkept hordered
  rw [ownTurns_append] at hordered
  have hkept' := hkept.of_append
  have hordered' := (List.pairwise_append.mp hordered).1
  have hpre : (ownTurns ip pre).Pairwise fun e e' => e.now ≤ e'.now := by
    rw [ownTurns_append] at hordered'
    exact (List.pairwise_append.mp hordered').1
  obtain ⟨hbooked, hban⟩ := (booked_after hfit hnew hkept'.of_append hpre).append_singleton hfit hkept' hordered'
  constructor
  · intro hlow hbans
    exact absurd (hban hip hbans) (Nat.not_le.mpr hlow)
  · intro first hfirst hheavy
    by_contra hfree
    have hclient := client_after_self d pre turn
    rw [hip] at hclient
    rw [Booked, hclient] at hbooked
    obtain ⟨first', last, hfirst', hlast, hseen, -, howed⟩ := hbooked
    rw [ownTurns_append_singleton, if_pos hip] at hlast hfirst hfirst'
    rw [List.getLast?_concat] at hlast
    rw [hfirst] at hfirst'
    cases hfirst'
    cases hlast
    -- what the score lacks of the charged weight has decayed since the first event
    obtain ⟨hdue, hlow⟩ := howed hfree
    have hle := hdue.le_score
    rw [hseen] at hle
    unfold steps at hle
    omega

/-- The turns of a source that keeps presenting a wrong connection id. -/
noncomputable def mismatchingTurns (n : Nat) : List Turn :=
  List.replicate n ⟨HashOrder.arbitrary, ⟨.replicate _ 1, .connidMismatch, 1000⟩⟩

theorem sumsFit_default : Config.default.SumsFit := by
  intro a now client
  have hsub : ((Charge.all.filter (Charge.fires Config.default a now client)).map fun k =>
      (k.weight Config.default).toNat).Sublist (Charge.all.map fun k => (k.weight Config.default).toNat) :=
    List.filter_sublist.map _
  exact Nat.le_trans (hsub.sum_le_sum fun _ _ => Nat.zero_le _) (by decide)

theorem detection_by_weight_mismatching :
    ((new .default).charged (.replicate _ 1) (mismatchingTurns 6 ++ mismatchingTurns 1) <
        Config.default.scoreBanThreshold.toNat →
      ¬(((new .default).after (mismatchingTurns 6)).verdictOf
        ⟨HashOrder.arbitrary, ⟨.replicate _ 1, .connidMismatch, 1000⟩⟩).Bans) ∧
      ∀ first, (ownTurns (.replicate _ 1) (mismatchingTurns 6 ++ mismatchingTurns 1)).head? = some first →
        Config.default.scoreBanThreshold.toNat + Config.default.decayAmount.toNat *
            (((1000 : UInt32).toNat - first.now.toNat) / max Config.default.decayInterval.toNat 1) ≤
          (new .default).charged (.replicate _ 1) (mismatchingTurns 6 ++ mismatchingTurns 1) →
        (new .default).BannedIn (.replicate _ 1) (mismatchingTurns 6 ++ mismatchingTurns 1) := by
  have hturn : ∀ turn ∈ mismatchingTurns 7,
      turn = ⟨HashOrder.arbitrary, ⟨.replicate _ 1, .connidMismatch, 1000⟩⟩ := fun turn hmem =>
    List.eq_of_mem_replicate hmem
  refine detection_by_weight (new .default) (mismatchingTurns 7) (.replicate _ 1) sumsFit_default
    (client_new _ _) (spared_of_own fun turn hmem => by rw [hturn turn hmem]) ?_ (mismatchingTurns 6) _ [] rfl rfl
  refine List.Pairwise.filter _ (List.pairwise_map.mpr ?_)
  exact List.pairwise_of_forall_mem_list fun turn hmem turn' hmem' => by
    rw [hturn turn hmem, hturn turn' hmem']
    exact UInt32.le_refl _

end Detector
end Bluefrog
