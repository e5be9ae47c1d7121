import Bluefrog.L7.BanCooldown
import Bluefrog.L7.Breadth
import Bluefrog.L7.Churn

/-!
The rate gate and honest slow clients. A client announces in rounds: it connects, and announces with the
id it gets. The gate is meant to measure the gap between announces, but every event moves the time it
measures from, so what it measures is the gap between an announce and its own connect. A slow client
is safe as long as the announces that follow their connect closely show none of the gated signals.
-/

open Rust History

namespace Bluefrog

/-- A connect and the announce that uses its id. -/
structure Round where
  connectAt : UInt32
  announceAt : UInt32
  info : AnnounceInfo

namespace Round

/-- The events of a round. -/
def calls (ip : Ip) (r : Round) : List Call := [⟨ip, .connect, r.connectAt⟩, ⟨ip, .announce r.info, r.announceAt⟩]

/-- The announce comes shortly after its own connect. -/
def quick (c : Config) (r : Round) : Bool := saturatingSub r.announceAt r.connectAt < c.fastAnnounceGap

/-- A quick announce into a swarm of at most one peer. -/
def lonely (c : Config) (r : Round) : Bool := r.quick c && r.info.swarmPeers ≤ 1

end Round

/-- The rounds of an honest slow client: one identity, and never faster than the advertised intervals. -/
structure Honest (c : Config) (key : UInt32) (peerId : PeerId) (rounds : List Round) : Prop where
  ordered : ∀ r ∈ rounds, r.connectAt ≤ r.announceAt
  apart : rounds.IsChain fun r r' => r.announceAt ≤ r'.connectAt ∧
    r.announceAt.toNat + max c.fastAnnounceGap.toNat c.reannounceMinInterval.toNat ≤ r'.announceAt.toNat
  key_random : key ≠ 0 ∧ key ≠ u32Max
  client_known : isKnownClient peerId = true
  identity : ∀ r ∈ rounds, r.info.key = key ∧ r.info.peerId = peerId ∧ r.info.declaredIp = 0

section Gated

variable (c : Config)

/-- How many lonely announces in a row the rounds end with. -/
def streak (rounds : List Round) : Nat := (rounds.reverse.takeWhile (Round.lonely c)).length

/-- The torrents of the quick announces. -/
def quickHashes (rounds : List Round) : List InfoHash := (rounds.filter (Round.quick c)).map fun r => r.info.infoHash

/-- The gated signals an announce shows, whether or not it is quick. -/
def gated (before : List Round) (r : Round) : Charge → Bool
  | .badPort => r.info.port < 1024
  | .fakeSeeder => r.info.left = 0 ∧ r.info.downloaded = 0 ∧ r.info.uploaded = 0
  | .numwant => c.numwantAbuse < r.info.numWant
  | .emptySwarm => c.emptySwarmThreshold.toNat < min (streak c (before ++ [r])) (2 ^ 32 - 1)
  | .breadth => c.breadthThreshold.toNat ≤ (buckets (quickHashes c (before ++ [r]))).card
  | .badKey | .declaredIp | .interval | .keyChurn | .peeridChurn | .peerid => false

/-- The weights of the gated signals of a quick announce, added up in 32 bits. -/
def gatedWeight (before : List Round) (r : Round) : UInt32 :=
  if r.quick c then ((Charge.all.filter (gated c before r)).map (Charge.weight c)).sum else 0

theorem streak_append_singleton (rounds : List Round) (r : Round) :
    streak c (rounds ++ [r]) = if r.lonely c then streak c rounds + 1 else 0 := by
  rw [streak, List.reverse_append, List.reverse_singleton, List.singleton_append, List.takeWhile_cons]
  split_ifs <;> rfl

theorem quickHashes_append_singleton (rounds : List Round) (r : Round) : quickHashes c (rounds ++ [r]) =
    if r.quick c then quickHashes c rounds ++ [r.info.infoHash] else quickHashes c rounds := by
  rw [quickHashes, List.filter_append, List.map_append]
  split_ifs with h
  · rw [List.filter_cons_of_pos h]
    rfl
  · rw [List.filter_cons_of_neg h]
    exact List.append_nil _

end Gated

namespace Honest

variable {c : Config} {key : UInt32} {peerId : PeerId} {rounds : List Round} {r : Round}

theorem append_singleton (h : Honest c key peerId (rounds ++ [r])) : Honest c key peerId rounds where
  ordered r' hr' := h.ordered r' (List.mem_append_left _ hr')
  apart := (List.isChain_append.mp h.apart).1
  key_random := h.key_random
  client_known := h.client_known
  identity r' hr' := h.identity r' (List.mem_append_left _ hr')

/-- Every earlier announce is as far away as the one before. -/
theorem far (h : Honest c key peerId (rounds ++ [r])) {r' : Round} (hr' : r' ∈ rounds) :
    r'.announceAt.toNat + c.reannounceMinInterval.toNat ≤ r.announceAt.toNat := by
  have hchain : (rounds ++ [r]).IsChain fun r r' : Round =>
      r.announceAt.toNat + c.reannounceMinInterval.toNat ≤ r'.announceAt.toNat :=
    h.apart.imp fun a b hab => by omega
  have htrans : IsTrans Round fun r r' => r.announceAt.toNat + c.reannounceMinInterval.toNat ≤ r'.announceAt.toNat :=
    ⟨fun a b d hab hbd => by omega⟩
  exact (List.pairwise_append.mp (List.isChain_iff_pairwise.mp hchain)).2.2 r' hr' r (List.mem_singleton.mpr rfl)

end Honest
/-- What is left of an honest client after rounds that charged nothing. -/
structure Steady (c : Config) (rounds : List Round) (client : Client) : Prop where
  score : client.score = 0
  emptySwarms : client.emptySwarms.toNat = min (streak c rounds) (2 ^ 32 - 1)
  breadth : Fingerprints client.breadth (quickHashes c rounds)

section Step

variable {c : Config} {rounds : List Round} {client : Client}

theorem steady_new (c : Config) (now : UInt32) : Steady c [] (Client.new now) where
  score := rfl
  emptySwarms := rfl
  breadth := fingerprints_nil

theorem Steady.decay (h : Steady c rounds client) (now amount interval : UInt32) :
    Steady c rounds (client.decay now amount interval) := by
  obtain ⟨drop, decayAt, hdecay⟩ := client.decay_eq now amount interval
  rw [hdecay]
  exact ⟨by simp only [h.score, zero_saturatingSub], h.emptySwarms, h.breadth⟩

theorem Steady.withConnects (h : Steady c rounds client) (connects : UInt32) :
    Steady c rounds { client with connects } := ⟨h.score, h.emptySwarms, h.breadth⟩

theorem crosses_of_score {client : Client} (hscore : client.score = 0) (hthreshold : 0 < c.scoreBanThreshold)
    (now : UInt32) : crosses c client now = (client, false) := by
  rw [crosses, if_pos (by rw [hscore]; exact hthreshold)]

/-- A connect of a steady client with no other connect open is not charged. -/
theorem connect_step (h : Steady c rounds client) (hconnects : client.connects = 0)
    (hthreshold : 0 < c.scoreBanThreshold) (hburst : 1 ≤ c.connectBurst) (now : UInt32) :
    crosses c (client.connect c) now = ({ client with connects := 1 }, false) := by
  have hconnect : client.connect c = { client with connects := 1 } := by
    rw [Client.connect, hconnects, show saturatingAdd 0 1 = 1 from rfl, if_neg (UInt32.not_lt.mpr hburst)]
  rw [hconnect]
  exact crosses_of_score (h.withConnects 1).score hthreshold now

/-- What a round's announce is charged: the gated signals of a quick announce. -/
theorem fires_eq {key : UInt32} {peerId : PeerId} {r : Round} (hhonest : Honest c key peerId (rounds ++ [r]))
    (h : Steady c rounds client) (hgap : client.lastGap = saturatingSub r.announceAt r.connectAt)
    {hist : List Seen} (hring : client.Remembers hist)
    (hhist : ∀ seen ∈ hist, ∃ r' ∈ rounds, seen.time = r'.announceAt ∧ seen.key = r'.info.key ∧
      seen.peer = peerFingerprint r'.info.peerId) (k : Charge) :
    k.fires c r.info r.announceAt client = (r.quick c && gated c rounds r k) := by
  have hfast : client.fast c = r.quick c := by rw [Client.fast, hgap, Round.quick]
  have hr := hhonest.identity r (List.mem_append_right _ (List.mem_singleton.mpr rfl))
  have hmem : ∀ r' ∈ rounds, r' ∈ rounds ++ [r] := fun r' => List.mem_append_left _
  cases k with
  | badKey =>
      rw [gated, Bool.and_false, Charge.fires, hr.1]
      exact decide_eq_false fun hbad => hbad.elim hhonest.key_random.1 hhonest.key_random.2
  | declaredIp =>
      rw [gated, Bool.and_false, Charge.fires, hr.2.2]
      exact decide_eq_false fun hset => hset.1 rfl
  | badPort => rw [Charge.fires, hfast, gated, Bool.decide_and, Bool.decide_eq_true]
  | fakeSeeder => rw [Charge.fires, hfast, gated, Bool.decide_and, Bool.decide_eq_true]
  | numwant => rw [Charge.fires, hfast, gated, Bool.decide_and, Bool.decide_eq_true]
  | interval =>
      rw [gated, Bool.and_false, Bool.eq_false_iff, Ne, fires_interval hring]
      rintro ⟨seen, hseen, -, hclose⟩
      obtain ⟨r', hr', htime, -, -⟩ := hhist seen (List.mem_of_mem_take hseen)
      have hfar := hhonest.far hr'
      rw [htime, UInt32.lt_iff_toNat_lt, toNat_saturatingSub] at hclose
      omega
  | keyChurn =>
      rw [gated, Bool.and_false, Bool.eq_false_iff, Ne, fires_keyChurn hring]
      rintro ⟨seen, hseen, -, hne⟩
      obtain ⟨r', hr', -, hkey, -⟩ := hhist seen (List.mem_of_mem_take hseen)
      exact hne (by rw [hkey, hr.1, (hhonest.identity r' (hmem r' hr')).1])
  | peeridChurn =>
      rw [gated, Bool.and_false, Bool.eq_false_iff, Ne, fires_peeridChurn hring]
      rintro ⟨seen, hseen, -, hne⟩
      obtain ⟨r', hr', -, -, hpeer⟩ := hhist seen (List.mem_of_mem_take hseen)
      exact hne (by rw [hpeer, hr.2.1, (hhonest.identity r' (hmem r' hr')).2.1])
  | peerid =>
      rw [gated, Bool.and_false, Charge.fires, hr.2.1, hhonest.client_known]
      rfl
  | emptySwarm =>
      have hthreshold : c.emptySwarmThreshold < saturatingAdd client.emptySwarms 1 ↔
          c.emptySwarmThreshold.toNat < min (streak c rounds + 1) (2 ^ 32 - 1) := by
        rw [UInt32.lt_iff_toNat_lt, toNat_saturatingAdd, h.emptySwarms, UInt32.toNat_one]
        omega
      rw [Bool.eq_iff_iff, Charge.fires, gated, streak_append_singleton, hfast, Round.lonely]
      simp only [hthreshold, decide_eq_true_eq, Bool.and_eq_true]
      by_cases hswarm : r.quick c = true ∧ r.info.swarmPeers ≤ 1
      · simp only [hswarm, and_self, true_and, if_true]
      · simp only [hswarm, false_and, if_false, Nat.zero_min, Nat.not_lt_zero, and_false]
  | breadth =>
      have hthreshold : c.breadthThreshold ≤ countOnes (client.widen r.info.infoHash).breadth ↔
          c.breadthThreshold.toNat ≤ (buckets (quickHashes c rounds ++ [r.info.infoHash])).card := by
        rw [UInt32.le_iff_toNat_le, (h.breadth.widen r.info.infoHash).countOnes]
      rw [Bool.eq_iff_iff, Charge.fires, gated, quickHashes_append_singleton, hfast]
      simp only [hthreshold, decide_eq_true_eq, Bool.and_eq_true]
      refine and_congr_right fun hquick => ?_
      rw [if_pos hquick]

theorem charged_eq_gatedWeight {r : Round}
    (hfires : ∀ k : Charge, k.fires c r.info r.announceAt client = (r.quick c && gated c rounds r k)) :
    client.charged c r.info r.announceAt = gatedWeight c rounds r := by
  rw [Client.charged, gatedWeight, funext hfires]
  cases r.quick c with
  | false => simp
  | true => simp

/-- An announce that is charged nothing leaves the client steady. -/
theorem Steady.announce (h : Steady c rounds client) {r : Round}
    (hgap : client.lastGap = saturatingSub r.announceAt r.connectAt)
    (hzero : client.charged c r.info r.announceAt = 0) :
    Steady c (rounds ++ [r]) (client.announce c r.info r.announceAt) := by
  have hfast : client.fast c = r.quick c := by rw [Client.fast, hgap, Round.quick]
  rw [announce_eq]
  refine ⟨?_, ?_, ?_⟩
  · change saturatingAdd client.score (client.charged c r.info r.announceAt) = 0
    rw [h.score, hzero, zero_saturatingAdd]
  · change (client.emptySwarmsAfter c r.info).toNat = _
    rw [Client.emptySwarmsAfter, hfast, streak_append_singleton, Round.lonely]
    simp only [Bool.and_eq_true, decide_eq_true_eq]
    split_ifs
    · rw [toNat_saturatingAdd, h.emptySwarms, UInt32.toNat_one]
      omega
    · rfl
  · change Fingerprints (client.breadthAfter c r.info) _
    rw [Client.breadthAfter, hfast, quickHashes_append_singleton]
    split_ifs
    · exact h.breadth.widen r.info.infoHash
    · exact h.breadth

end Step

/-- The events of some rounds. -/
def roundCalls (ip : Ip) (rounds : List Round) : List Call := rounds.flatMap (Round.calls ip)

theorem roundCalls_append_singleton (ip : Ip) (rounds : List Round) (r : Round) :
    roundCalls ip (rounds ++ [r]) =
      roundCalls ip rounds ++ [⟨ip, .connect, r.connectAt⟩] ++ [⟨ip, .announce r.info, r.announceAt⟩] := by
  rw [roundCalls, List.flatMap_append, List.flatMap_singleton, List.append_assoc]
  rfl

theorem ip_of_mem_roundCalls {ip : Ip} {rounds : List Round} {call : Call} (h : call ∈ roundCalls ip rounds) :
    call.ip = ip := by
  obtain ⟨r, -, hmem⟩ := List.mem_flatMap.mp h
  rw [Round.calls, List.mem_cons, List.mem_singleton] at hmem
  rcases hmem with rfl | rfl <;> rfl

theorem ownCalls_roundCalls (ip : Ip) (rounds : List Round) :
    ownCalls ip (roundCalls ip rounds) = roundCalls ip rounds :=
  List.filter_eq_self.mpr fun _ h => decide_eq_true (ip_of_mem_roundCalls h)

theorem exists_of_mem_remembered {ip : Ip} {rounds : List Round} {seen : Seen}
    (h : seen ∈ remembered (roundCalls ip rounds)) : ∃ r ∈ rounds, seen.time = r.announceAt ∧
      seen.key = r.info.key ∧ seen.peer = peerFingerprint r.info.peerId := by
  rw [remembered, List.mem_reverse, List.mem_filterMap] at h
  obtain ⟨call, hcall, hseen⟩ := h
  obtain ⟨r, hr, hmem⟩ := List.mem_flatMap.mp hcall
  rw [Round.calls, List.mem_cons, List.mem_singleton] at hmem
  rcases hmem with rfl | rfl
  · cases hseen
  · cases hseen
    exact ⟨r, hr, rfl, rfl, rfl⟩

/-- An event neither bans its source nor leaves it a score. -/
def QuietStep (c : Config) (before : List Call) (call : Call) : Prop :=
  (clientStep c (clientRun c before) call.signal call.now).2 = false ∧
    (clientStep c (clientRun c before) call.signal call.now).1.score = 0

/-- The state of a source between two rounds, seen at any later time. -/
def Resting (c : Config) (rounds : List Round) (prev : Option Client) : Prop :=
  ∀ now, Steady c rounds (touched c now prev) ∧ (touched c now prev).connects = 0

theorem resting_none (c : Config) : Resting c [] none := by
  intro now
  have hdecay := (steady_new c now).decay now c.decayAmount c.decayInterval
  obtain ⟨drop, decayAt, heq⟩ := (Client.new now).decay_eq now c.decayAmount c.decayInterval
  refine ⟨⟨hdecay.score, hdecay.emptySwarms, hdecay.breadth⟩, ?_⟩
  rw [touched, heq]
  rfl

theorem resting_some {c : Config} {rounds : List Round} {client : Client} (h : Steady c rounds client)
    (hconnects : client.connects = 0) : Resting c rounds (some client) := by
  intro now
  refine ⟨h.decay now c.decayAmount c.decayInterval, ?_⟩
  obtain ⟨drop, decayAt, heq⟩ := client.decay_eq now c.decayAmount c.decayInterval
  rw [touched, heq]
  exact hconnects

section Rounds

variable {c : Config} {key : UInt32} {peerId : PeerId} {ip : Ip} {rounds : List Round} {r : Round}

/-- The connect of a round is free, and sets the time the gate measures from. -/
theorem connect_quiet (hthreshold : 0 < c.scoreBanThreshold) (hburst : 1 ≤ c.connectBurst)
    (h : Resting c rounds (clientRun c (roundCalls ip rounds))) (now : UInt32) :
    QuietStep c (roundCalls ip rounds) ⟨ip, .connect, now⟩ ∧
      ∃ connected, clientRun c (roundCalls ip rounds ++ [⟨ip, .connect, now⟩]) = some connected ∧
        Steady c rounds connected ∧ connected.lastSeen = now := by
  obtain ⟨hsteady, hconnects⟩ := h now
  have hseen : (touched c now (clientRun c (roundCalls ip rounds))).lastSeen = now := by
    cases clientRun c (roundCalls ip rounds) <;> rfl
  have hstep : clientStep c (clientRun c (roundCalls ip rounds)) .connect now =
      ({ touched c now (clientRun c (roundCalls ip rounds)) with connects := 1 }, false) :=
    connect_step hsteady hconnects hthreshold hburst now
  refine ⟨?_, _, clientRun_append_singleton c _ _, ?_⟩
  · rw [QuietStep, hstep]
    exact ⟨rfl, hsteady.score⟩
  · rw [hstep]
    exact ⟨hsteady.withConnects 1, hseen⟩

/-- The announce of a round costs its gated weight. -/
theorem announce_quiet (hthreshold : 0 < c.scoreBanThreshold) (hhonest : Honest c key peerId (rounds ++ [r]))
    {connected : Client} (hprev : clientRun c (roundCalls ip rounds ++ [⟨ip, .connect, r.connectAt⟩]) = some connected)
    (hsteady : Steady c rounds connected) (hseen : connected.lastSeen = r.connectAt) :
    (QuietStep c (roundCalls ip rounds ++ [⟨ip, .connect, r.connectAt⟩]) ⟨ip, .announce r.info, r.announceAt⟩ ↔
      gatedWeight c rounds r = 0) ∧
    (gatedWeight c rounds r = 0 → Resting c (rounds ++ [r]) (clientRun c (roundCalls ip (rounds ++ [r])))) := by
  have hring := touched_remembers c (roundCalls ip rounds ++ [⟨ip, .connect, r.connectAt⟩]) r.announceAt
  have htouched : Steady c rounds (touched c r.announceAt (some connected)) := hsteady.decay _ _ _
  have hgap : (touched c r.announceAt (some connected)).lastGap = saturatingSub r.announceAt r.connectAt := by
    obtain ⟨drop, decayAt, heq⟩ := connected.decay_eq r.announceAt c.decayAmount c.decayInterval
    rw [touched, heq, hseen]
  have hstep : clientStep c (clientRun c (roundCalls ip rounds ++ [⟨ip, .connect, r.connectAt⟩]))
      (.announce r.info) r.announceAt =
      crosses c ((touched c r.announceAt (some connected)).announce c r.info r.announceAt) r.announceAt := by
    rw [hprev]
    rfl
  rw [remembered_append_singleton, hprev] at hring
  generalize touched c r.announceAt (some connected) = client at hring htouched hgap hstep
  have hcharged := charged_eq_gatedWeight
    (fires_eq hhonest htouched hgap hring fun seen hmem => exists_of_mem_remembered hmem)
  have hscore : (client.announce c r.info r.announceAt).score = gatedWeight c rounds r := by
    rw [announce_eq]
    change saturatingAdd client.score (client.charged c r.info r.announceAt) = _
    rw [htouched.score, zero_saturatingAdd, hcharged]
  refine ⟨⟨?_, ?_⟩, ?_⟩
  · rintro ⟨-, hzero⟩
    rw [hstep, crosses_fst] at hzero
    exact hscore.symm.trans hzero
  · intro hzero
    rw [hzero] at hscore
    rw [QuietStep, hstep, crosses_of_score hscore hthreshold]
    exact ⟨rfl, hscore⟩
  · intro hzero
    rw [hzero] at hscore
    rw [roundCalls_append_singleton, clientRun_append_singleton, hstep, crosses_of_score hscore hthreshold]
    refine resting_some (htouched.announce hgap (hcharged.trans hzero)) ?_
    rw [announce_eq]

/-- Rounds are quiet exactly when no announce has a gated weight. -/
theorem quiet_iff (hthreshold : 0 < c.scoreBanThreshold) (hburst : 1 ≤ c.connectBurst)
    (hhonest : Honest c key peerId rounds) :
    (AtEach (QuietStep c) (roundCalls ip rounds) ↔ AtEach (fun before r => gatedWeight c before r = 0) rounds) ∧
      (AtEach (QuietStep c) (roundCalls ip rounds) → Resting c rounds (clientRun c (roundCalls ip rounds))) := by
  induction rounds using List.reverseRecOn with
  | nil => exact ⟨iff_of_true (atEach_nil _) (atEach_nil _), fun _ => resting_none c⟩
  | append_singleton rounds r ih =>
      obtain ⟨hiff, hresting⟩ := ih hhonest.append_singleton
      have hsplit := roundCalls_append_singleton ip rounds r
      constructor
      · rw [hsplit, atEach_append_singleton, atEach_append_singleton, atEach_append_singleton, and_assoc, ← hiff]
        refine and_congr_right fun hquiet => ?_
        obtain ⟨hconnect, connected, hprev, hsteady, hseen⟩ :=
          connect_quiet hthreshold hburst (hresting hquiet) r.connectAt
        rw [and_iff_right hconnect]
        exact (announce_quiet hthreshold hhonest hprev hsteady hseen).1
      · intro hquiet
        rw [hsplit, atEach_append_singleton, atEach_append_singleton] at hquiet
        obtain ⟨-, connected, hprev, hsteady, hseen⟩ :=
          connect_quiet hthreshold hburst (hresting hquiet.1.1) r.connectAt
        obtain ⟨hannounce, hnext⟩ := announce_quiet hthreshold hhonest hprev hsteady hseen
        exact hnext (hannounce.mp hquiet.2)

end Rounds
namespace Detector

/-- No event of the source bans it or leaves it a score. -/
def Unflagged (d : Detector) (ip : Ip) (turns : List Turn) : Prop :=
  AtEach (fun before (turn : Turn) => turn.call.ip = ip → (d.after before).verdictOf turn = .allow ∧
    ∃ client, (d.after (before ++ [turn])).client ip = some client ∧ client.score = 0) turns

/-- Whether a spared source is flagged is a matter of its own events. -/
theorem unflagged_iff_quiet {d : Detector} {ip : Ip} {turns : List Turn} (hnew : d.client ip = none)
    (hspared : d.Spared turns ip) :
    Unflagged d ip turns ↔ AtEach (QuietStep d.config) (ownTurns ip turns) := by
  induction turns using List.reverseRecOn with
  | nil => exact iff_of_true (atEach_nil _) (atEach_nil _)
  | append_singleton turns turn ih =>
      have hpre := hspared.append_singleton
      rw [Unflagged, atEach_append_singleton, ownTurns_append_singleton]
      by_cases hip : turn.call.ip = ip
      · subst hip
        rw [if_pos rfl, atEach_append_singleton, ← ih hpre]
        refine and_congr_right fun _ => ?_
        have hverdict := (verdictOf_bans_clientRun hnew hpre).not
        rw [Verdict.bans_iff, not_not, Bool.not_eq_true] at hverdict
        rw [hverdict, client_after_self, client_after hnew hpre]
        simp only [forall_const, QuietStep, Option.some_inj, exists_eq_left']
      · rw [if_neg hip, List.append_nil, ← ih hpre]
        exact and_iff_left fun h => absurd h hip

/-- **When an honest slow client is never flagged**: exactly if none of its announces has a gated weight, that
is, if those that follow their own connect within the gap show no gated signal that weighs anything. -/
theorem unflagged_iff (d : Detector) (turns : List Turn) (ip : Ip) (key : UInt32) (peerId : PeerId)
    (rounds : List Round) (hnew : d.client ip = none) (hspared : d.Spared turns ip)
    (hthreshold : 0 < d.config.scoreBanThreshold) (hburst : 1 ≤ d.config.connectBurst)
    (hrounds : ownTurns ip turns = roundCalls ip rounds) (hhonest : Honest d.config key peerId rounds) :
    Unflagged d ip turns ↔ AtEach (fun before r => gatedWeight d.config before r = 0) rounds := by
  rw [unflagged_iff_quiet hnew hspared, hrounds]
  exact (quiet_iff hthreshold hburst hhonest).1

/-- A client that seeds files it already had, behind a port that passes filters. -/
def seedingIp : Ip := .replicate _ 1

def seedingPeer : PeerId := ⟨ascii "-qB5000-abcdefghijkl", rfl⟩

/-- Its rounds: it connects and announces within a second. -/
def seedingRound (now : UInt32) : Round where
  connectAt := now
  announceAt := now
  info :=
    { infoHash := .replicate _ 1
      peerId := seedingPeer
      key := 12345678
      declaredIp := 0
      port := 443
      left := 0
      downloaded := 0
      uploaded := 0
      numWant := 50
      sourceIsPublic := true
      swarmPeers := 5 }

theorem honest_seeding : Honest .default 12345678 seedingPeer [seedingRound 1000, seedingRound 2800] where
  ordered := by decide
  apart := by decide
  key_random := by decide
  client_known := by decide
  identity := by decide

noncomputable def seedingTurns (rounds : List Round) : List Turn :=
  (roundCalls seedingIp rounds).map fun call => ⟨HashOrder.arbitrary, call⟩

theorem spared_seeding (rounds : List Round) : (new .default).Spared (seedingTurns rounds) seedingIp :=
  spared_of_own fun turn hturn => by
    obtain ⟨call, hcall, rfl⟩ := List.mem_map.mp hturn
    exact ip_of_mem_roundCalls hcall

theorem ownTurns_seeding (rounds : List Round) :
    ownTurns seedingIp (seedingTurns rounds) = roundCalls seedingIp rounds := by
  rw [ownTurns, seedingTurns, List.map_map, Function.comp_def, List.map_id']
  exact ownCalls_roundCalls seedingIp rounds

theorem unflagged_iff_seeding :
    Unflagged (new .default) seedingIp (seedingTurns [seedingRound 1000, seedingRound 2800]) ↔
      AtEach (fun before r => gatedWeight .default before r = 0) [seedingRound 1000, seedingRound 2800] :=
  unflagged_iff (new .default) _ seedingIp 12345678 seedingPeer _ (client_new _ _) (spared_seeding _) (by decide)
    (by decide) (ownTurns_seeding _) honest_seeding

/-- Two rounds half an hour apart, and a ban. -/
theorem seeding_is_banned :
    (new .default).Spared (seedingTurns [seedingRound 1000, seedingRound 2800]) seedingIp ∧
      Honest .default 12345678 seedingPeer [seedingRound 1000, seedingRound 2800] ∧
      (((new .default).after
        (seedingTurns [seedingRound 1000] ++ [⟨HashOrder.arbitrary, seedingIp, .connect, 2800⟩])).verdictOf
          ⟨HashOrder.arbitrary, seedingIp, .announce (seedingRound 2800).info, 2800⟩).Bans := by
  have hspared : (new .default).Spared
      (seedingTurns [seedingRound 1000] ++ [⟨HashOrder.arbitrary, seedingIp, .connect, 2800⟩]) seedingIp :=
    (spared_seeding [seedingRound 1000, seedingRound 2800]).append_singleton
  refine ⟨spared_seeding _, honest_seeding, ?_⟩
  refine (@verdictOf_bans_clientRun _ _ ⟨HashOrder.arbitrary, seedingIp, .announce (seedingRound 2800).info, 2800⟩
    (client_new _ _) hspared).mpr ?_
  rw [ownTurns_append_singleton, ownTurns_seeding]
  decide +kernel

end Detector
end Bluefrog
