import Bluefrog.L7.Churn

/-!
The signals of a source, from its whole history. The state kept of a source is bounded: a ring of eight
announces and two counters that saturate. Over fewer than `2 ^ 32 - 1` events it raises the signals that
all of the history would raise.
-/

open Rust

namespace Bluefrog

section History

/-- The announces of a history with their times, newest first. -/
def announces (hist : List Call) : List (AnnounceInfo × UInt32) :=
  (hist.filterMap fun call =>
    match call.signal with
    | .announce a => some (a, call.now)
    | _ => none).reverse

/-- What a ring remembers of an announce. -/
def seenOf (announce : AnnounceInfo × UInt32) : Seen :=
  ⟨announce.1.infoHash, announce.2, announce.1.key, peerFingerprint announce.1.peerId⟩

/-- The time of the latest event. -/
def latestTime (hist : List Call) : Option UInt32 := hist.getLast?.map Call.now

/-- The source was seen less than the gap ago. -/
def quickAfter (c : Config) (latest : Option UInt32) (now : UInt32) : Bool :=
  match latest with
  | none => false
  | some t => now.toNat - t.toNat < c.fastAnnounceGap.toNat

/-- The events of a history, each with the time of the one before it. -/
def withLatest (latest : Option UInt32) : List Call → List (Option UInt32 × Call)
  | [] => []
  | call :: hist => (latest, call) :: withLatest (some call.now) hist

/-- For each announce of a history, newest first, whether it was fast and found at most one peer. -/
def lonelyAnnounces (c : Config) (hist : List Call) : List Bool :=
  ((withLatest none hist).filterMap fun event =>
    match event.2.signal with
    | .announce a => some (quickAfter c event.1 event.2.now && decide (a.swarmPeers ≤ 1))
    | _ => none).reverse

/-- The event uses a connection id. -/
def Signal.usesId : Signal → Bool
  | .announce _ | .scrape _ => true
  | .connidMismatch | .connect => false

def Signal.isConnect : Signal → Bool
  | .connect => true
  | _ => false

/-- The connects since the latest announce or scrape. -/
def pendingConnects (hist : List Call) : Nat :=
  (hist.reverse.takeWhile fun call => !call.signal.usesId).countP fun call => call.signal.isConnect

theorem remembered_eq (hist : List Call) : remembered hist = (announces hist).map seenOf := by
  rw [remembered, announces, List.map_reverse, List.map_filterMap]
  congr 2
  funext call
  obtain ⟨ip, signal, now⟩ := call
  cases signal <;> rfl

theorem withLatest_append_singleton (latest : Option UInt32) (hist : List Call) (call : Call) :
    withLatest latest (hist ++ [call]) = withLatest latest hist ++ [((latestTime hist).or latest, call)] := by
  induction hist generalizing latest with
  | nil => rfl
  | cons head hist ih =>
      have hlatest : (latestTime (head :: hist)).or latest = (latestTime hist).or (some head.now) := by
        cases hist with
        | nil => rfl
        | cons next hist =>
            rw [latestTime, latestTime, List.getLast?_cons_cons]
            cases hlast : (next :: hist).getLast? with
            | none => exact absurd (List.getLast?_eq_none_iff.mp hlast) (List.cons_ne_nil _ _)
            | some last => rfl
      rw [List.cons_append, withLatest, withLatest, ih, hlatest, List.cons_append]

theorem lonelyAnnounces_append_singleton (c : Config) (hist : List Call) (call : Call) :
    lonelyAnnounces c (hist ++ [call]) =
      match call.signal with
      | .announce a =>
          (quickAfter c (latestTime hist) call.now && decide (a.swarmPeers ≤ 1)) :: lonelyAnnounces c hist
      | _ => lonelyAnnounces c hist := by
  rw [lonelyAnnounces, withLatest_append_singleton, Option.or_none, List.filterMap_append, List.reverse_append]
  obtain ⟨ip, signal, now⟩ := call
  cases signal <;> rfl

theorem lonelyAnnounces_announce (c : Config) (hist : List Call) (ip : Ip) (a : AnnounceInfo) (now : UInt32) :
    lonelyAnnounces c (hist ++ [⟨ip, .announce a, now⟩]) =
      (quickAfter c (latestTime hist) now && decide (a.swarmPeers ≤ 1)) :: lonelyAnnounces c hist :=
  lonelyAnnounces_append_singleton c hist _

theorem pendingConnects_append_singleton (hist : List Call) (call : Call) :
    pendingConnects (hist ++ [call]) =
      if call.signal.usesId then 0 else pendingConnects hist + if call.signal.isConnect then 1 else 0 := by
  rw [pendingConnects, List.reverse_append, List.reverse_singleton, List.singleton_append]
  obtain ⟨ip, signal, now⟩ := call
  cases signal with
  | connect => exact List.countP_cons_of_pos rfl
  | _ => rfl

end History

/-- The counters of a source against its history: exact until they saturate. -/
structure Counters (c : Config) (hist : List Call) (client : Client) : Prop where
  emptySwarms : client.emptySwarms.toNat = min ((lonelyAnnounces c hist).takeWhile id).length (2 ^ 32 - 1)
  connects : client.connects.toNat = min (pendingConnects hist) (2 ^ 32 - 1)

/-- A source before its next event: the counters, and the time of the latest event. -/
structure Recalls (c : Config) (hist : List Call) (now : UInt32) (client : Client) : Prop extends
    Counters c hist client where
  fast : client.fast c = quickAfter c (latestTime hist) now

section Step

variable {c : Config} {hist : List Call} {client : Client}

/-- One more, with saturation. -/
theorem min_succ (n : Nat) : min (min n (2 ^ 32 - 1) + 1) (2 ^ 32 - 1) = min (n + 1) (2 ^ 32 - 1) := by omega

theorem Recalls.announce {ip : Ip} {a : AnnounceInfo} {now : UInt32} (h : Recalls c hist now client) :
    Counters c (hist ++ [⟨ip, .announce a, now⟩]) (client.announce c a now) := by
  rw [announce_eq]
  refine ⟨?_, ?_⟩
  · rw [lonelyAnnounces_announce, ← h.fast]
    change (client.emptySwarmsAfter c a).toNat = _
    unfold Client.emptySwarmsAfter
    by_cases hlonely : client.fast c = true ∧ a.swarmPeers ≤ 1
    · rw [if_pos hlonely, toNat_saturatingAdd, h.emptySwarms, List.takeWhile_cons_of_pos (by simp [hlonely]),
        List.length_cons]
      exact min_succ _
    · rw [if_neg hlonely, List.takeWhile_cons_of_neg (by simpa using hlonely)]
      rfl
  · rw [pendingConnects_append_singleton]
    rfl

theorem Recalls.apply {call : Call} (h : Recalls c hist call.now client) :
    Counters c (hist ++ [call]) (call.signal.apply c call.now client) := by
  obtain ⟨ip, signal, now⟩ := call
  cases signal with
  | announce a => exact h.announce
  | connidMismatch =>
      refine ⟨?_, ?_⟩
      · rw [lonelyAnnounces_append_singleton]
        exact h.emptySwarms
      · rw [pendingConnects_append_singleton]
        exact h.connects
  | scrape hashes =>
      rw [Signal.apply, scrape_eq]
      refine ⟨?_, ?_⟩
      · rw [lonelyAnnounces_append_singleton]
        exact h.emptySwarms
      · rw [pendingConnects_append_singleton]
        rfl
  | connect =>
      rw [Signal.apply, connect_eq]
      refine ⟨?_, ?_⟩
      · rw [lonelyAnnounces_append_singleton]
        exact h.emptySwarms
      · rw [pendingConnects_append_singleton]
        change (saturatingAdd client.connects 1).toNat = min (pendingConnects hist + 1) (2 ^ 32 - 1)
        rw [toNat_saturatingAdd, h.connects]
        exact min_succ _

/-- **The state of a source recalls its history.** -/
theorem recalls_touched (c : Config) (hist : List Call) (now : UInt32) :
    Recalls c hist now (touched c now (clientRun c hist)) := by
  induction hist using List.reverseRecOn generalizing now with
  | nil =>
      obtain ⟨drop, decayAt, hdecay⟩ := (Client.new now).decay_eq now c.decayAmount c.decayInterval
      have hnever : ¬u32Max < c.fastAnnounceGap := by
        have hle := toNat_le_u32Max c.fastAnnounceGap
        rw [UInt32.lt_iff_toNat_lt, toNat_u32Max]
        omega
      rw [clientRun, List.foldl_nil, touched, hdecay]
      exact ⟨⟨rfl, rfl⟩, decide_eq_false hnever⟩
  | append_singleton hist call ih =>
      have hcounters := (ih call.now).apply
      have hseen := lastSeen_clientStep c (clientRun c hist) call.signal call.now
      rw [clientRun_append_singleton]
      obtain ⟨drop, decayAt, hdecay⟩ :=
        (clientStep c (clientRun c hist) call.signal call.now).1.decay_eq now c.decayAmount c.decayInterval
      rw [touched, hdecay]
      refine ⟨⟨?_, ?_⟩, ?_⟩
      · rw [clientStep, crosses_fst]
        exact hcounters.emptySwarms
      · rw [clientStep, crosses_fst]
        exact hcounters.connects
      · rw [latestTime, List.getLast?_concat, Client.fast, hseen]
        simp only [Option.map_some, quickAfter, UInt32.lt_iff_toNat_lt, toNat_saturatingSub]

end Step

section Fires

variable {c : Config} {hist : List Call} {now : UInt32} {client : Client}

/-- A run of flags at the front is counted by its length. -/
theorem take_eq_replicate_iff (flags : List Bool) (k : Nat) :
    flags.take k = List.replicate k true ↔ k ≤ (flags.takeWhile id).length := by
  induction flags generalizing k with
  | nil =>
      cases k with
      | zero => exact ⟨fun _ => Nat.le_refl 0, fun _ => rfl⟩
      | succ k => exact ⟨fun h => (by cases h), fun h => absurd h (Nat.not_succ_le_zero k)⟩
  | cons flag flags ih =>
      cases k with
      | zero => exact ⟨fun _ => Nat.zero_le _, fun _ => rfl⟩
      | succ k =>
          rw [List.take_succ_cons, List.replicate_succ, List.cons.injEq, ih]
          cases flag with
          | false => exact ⟨fun h => (by cases h.1), fun h => absurd h (Nat.not_succ_le_zero k)⟩
          | true =>
              rw [List.takeWhile_cons_of_pos rfl, List.length_cons, Nat.succ_le_succ_iff]
              exact ⟨And.right, And.intro rfl⟩

theorem length_withLatest (latest : Option UInt32) (hist : List Call) :
    (withLatest latest hist).length = hist.length := by
  induction hist generalizing latest with
  | nil => rfl
  | cons call hist ih => rw [withLatest, List.length_cons, List.length_cons, ih]

theorem length_lonelyAnnounces_le (c : Config) (hist : List Call) :
    (lonelyAnnounces c hist).length ≤ hist.length := by
  rw [lonelyAnnounces, List.length_reverse, ← length_withLatest none hist]
  exact List.length_filterMap_le _ _

theorem pendingConnects_le (hist : List Call) : pendingConnects hist ≤ hist.length := by
  calc pendingConnects hist
    _ ≤ (hist.reverse.takeWhile fun call => !call.signal.usesId).length := List.countP_le_length
    _ ≤ hist.reverse.length := (List.takeWhile_sublist _).length_le
    _ = hist.length := List.length_reverse

/-- One of the latest announces is for the torrent and meets a test. -/
def AmongLatest (hist : List Call) (hash : InfoHash) (p : AnnounceInfo × UInt32 → Prop) : Prop :=
  ∃ b ∈ (announces hist).take ringLen, b.1.infoHash = hash ∧ p b

/-- What the ring remembers of the latest announces decides as these do. -/
theorem exists_remembered_iff (hist : List Call) (hash : InfoHash) (p : Seen → Prop) :
    (∃ seen ∈ (remembered hist).take ringLen, seen.hash = hash ∧ p seen) ↔
      AmongLatest hist hash fun b => p (seenOf b) := by
  simp only [remembered_eq, ← List.map_take, List.mem_map, AmongLatest]
  constructor
  · rintro ⟨_, ⟨b, hmem, rfl⟩, hhash, hp⟩
    exact ⟨b, hmem, hhash, hp⟩
  · rintro ⟨b, hmem, hhash, hp⟩
    exact ⟨seenOf b, ⟨b, hmem, rfl⟩, hhash, hp⟩

theorem mem_announces {b : AnnounceInfo × UInt32} (h : b ∈ announces hist) : ∃ call ∈ hist, call.now = b.2 := by
  obtain ⟨⟨ip, signal, now⟩, hmem, hsome⟩ := List.mem_filterMap.mp (List.mem_reverse.mp h)
  cases signal with
  | announce a =>
      cases hsome
      exact ⟨_, hmem, rfl⟩
  | _ => cases hsome

/-- An announce is too early exactly when one of the latest announces for its torrent is too young. -/
theorem interval_iff (h : client.Remembers (remembered hist)) (hordered : ∀ call ∈ hist, call.now ≤ now)
    (a : AnnounceInfo) : Charge.interval.fires c a now client = true ↔
      AmongLatest hist a.infoHash fun b => now.toNat < b.2.toNat + c.reannounceMinInterval.toNat := by
  rw [fires_interval h, exists_remembered_iff]
  refine exists_congr fun b => and_congr_right fun hmem => and_congr_right fun _ => ?_
  obtain ⟨call, hcall, hnow⟩ := mem_announces (List.mem_of_mem_take hmem)
  have hle := UInt32.le_iff_toNat_le.mp (hordered call hcall)
  change saturatingSub now b.2 < _ ↔ now.toNat < b.2.toNat + _
  rw [UInt32.lt_iff_toNat_lt, toNat_saturatingSub, ← hnow]
  omega

theorem emptySwarm_iff (h : Recalls c hist now client) (ip : Ip) (a : AnnounceInfo)
    (hlen : hist.length + 1 < 2 ^ 32 - 1) : Charge.emptySwarm.fires c a now client = true ↔
      (lonelyAnnounces c (hist ++ [⟨ip, .announce a, now⟩])).take (c.emptySwarmThreshold.toNat + 1) =
        List.replicate (c.emptySwarmThreshold.toNat + 1) true := by
  have hbound : ((lonelyAnnounces c hist).takeWhile id).length ≤ hist.length :=
    (List.takeWhile_sublist _).length_le.trans (length_lonelyAnnounces_le c hist)
  rw [take_eq_replicate_iff, lonelyAnnounces_announce, ← h.fast, Charge.fires, decide_eq_true_iff]
  by_cases hlonely : client.fast c = true ∧ a.swarmPeers ≤ 1
  · have hflag : (client.fast c && decide (a.swarmPeers ≤ 1)) = true := by simpa using hlonely
    rw [hflag, List.takeWhile_cons_of_pos rfl, List.length_cons, UInt32.lt_iff_toNat_lt, toNat_saturatingAdd,
      h.emptySwarms]
    change _ ∧ c.emptySwarmThreshold.toNat < min (min _ _ + 1) _ ↔ _
    rw [and_iff_right hlonely]
    omega
  · have hflag : (client.fast c && decide (a.swarmPeers ≤ 1)) = false := by simpa using hlonely
    rw [hflag, List.takeWhile_cons_of_neg Bool.false_ne_true]
    exact ⟨fun hfires => absurd hfires.1 hlonely, fun hle => absurd hle (Nat.not_succ_le_zero _)⟩

theorem connectSpam_iff (h : Recalls c hist now client) (ip : Ip) (hlen : hist.length + 1 < 2 ^ 32 - 1) :
    client.connectSpam c = true ↔ c.connectBurst.toNat < pendingConnects (hist ++ [⟨ip, .connect, now⟩]) := by
  have hbound := pendingConnects_le hist
  rw [pendingConnects_append_singleton, Client.connectSpam, decide_eq_true_iff, UInt32.lt_iff_toNat_lt,
    toNat_saturatingAdd, h.connects]
  change c.connectBurst.toNat < min (min _ _ + 1) _ ↔ c.connectBurst.toNat < pendingConnects hist + 1
  omega

end Fires

namespace Detector

/-- The client an event is applied to: its source's entry, touched. -/
def met (d : Detector) (pre : List Turn) (call : Call) : Client :=
  touched d.config call.now ((d.after pre).client call.ip)

/-- The signals of an announce, from the history of its source. -/
structure AnnounceSignals (c : Config) (hist : List Call) (ip : Ip) (a : AnnounceInfo) (now : UInt32)
    (client : Client) : Prop where
  interval : Charge.interval.fires c a now client = true ↔
    AmongLatest hist a.infoHash fun b => now.toNat < b.2.toNat + c.reannounceMinInterval.toNat
  keyChurn : Charge.keyChurn.fires c a now client = true ↔
    AmongLatest hist a.infoHash fun b => b.1.key ≠ a.key
  peeridChurn : Charge.peeridChurn.fires c a now client = true ↔
    AmongLatest hist a.infoHash fun b => peerFingerprint b.1.peerId ≠ peerFingerprint a.peerId
  samePeerid : (∀ b ∈ announces hist, b.1.infoHash = a.infoHash → b.1.peerId = a.peerId) →
    Charge.peeridChurn.fires c a now client = false
  emptySwarm : Charge.emptySwarm.fires c a now client = true ↔
    (lonelyAnnounces c (hist ++ [⟨ip, .announce a, now⟩])).take (c.emptySwarmThreshold.toNat + 1) =
      List.replicate (c.emptySwarmThreshold.toNat + 1) true

theorem announceSignals {c : Config} {hist : List Call} {now : UInt32} (hordered : ∀ call ∈ hist, call.now ≤ now)
    (hlen : hist.length + 1 < 2 ^ 32 - 1) (ip : Ip) (a : AnnounceInfo) :
    AnnounceSignals c hist ip a now (touched c now (clientRun c hist)) := by
  have hremembers := touched_remembers c hist now
  have hpeer := (fires_peeridChurn hremembers c a now).trans (exists_remembered_iff _ _ _)
  refine ⟨interval_iff hremembers hordered a, ?_, hpeer, ?_, emptySwarm_iff (recalls_touched c hist now) ip a hlen⟩
  · exact (fires_keyChurn hremembers c a now).trans (exists_remembered_iff _ _ _)
  · intro hsame
    rw [Bool.eq_false_iff, Ne, hpeer]
    rintro ⟨b, hmem, hhash, hne⟩
    exact hne (congrArg peerFingerprint (hsame b (List.mem_of_mem_take hmem) hhash))

/-- The ring of an entry holds exactly the latest announces. -/
theorem ring_clientRun {c : Config} {hist : List Call} {client : Client} (h : clientRun c hist = some client) :
    client.ringPos < ringLen ∧
      client.ring.toList.reduceOption.Perm (((announces hist).take ringLen).map seenOf) := by
  obtain ⟨drop, decayAt, hdecay⟩ := client.decay_eq 0 c.decayAmount c.decayInterval
  have hremembers := touched_remembers c hist 0
  rw [h, touched, hdecay, remembered_eq] at hremembers
  have hholds : client.Remembers ((announces hist).map seenOf) := hremembers
  rw [List.map_take]
  exact ⟨hholds.pos_lt, hholds.perm⟩

/-- **The bounded state of a source raises the signals of its whole history.** -/
theorem signals_of_history (d : Detector) (turns : List Turn) (ip : Ip) (hnew : d.client ip = none)
    (hspared : d.Spared turns ip) (hordered : (ownTurns ip turns).Pairwise fun e e' => e.now ≤ e'.now)
    (hlen : (ownTurns ip turns).length < 2 ^ 32 - 1) :
    (∀ pre turn post, turns = pre ++ turn :: post → turn.call.ip = ip →
      (∀ a, turn.call.signal = .announce a →
        ((d.after (pre ++ [turn])).client ip).map Client.score =
          some (saturatingAdd (d.met pre turn.call).score ((d.met pre turn.call).charged d.config a turn.call.now)) ∧
        AnnounceSignals d.config (ownTurns ip pre) ip a turn.call.now (d.met pre turn.call)) ∧
      (turn.call.signal = .connect →
        ((d.after (pre ++ [turn])).client ip).map Client.score =
          some (if (d.met pre turn.call).connectSpam d.config = true then
            saturatingAdd (d.met pre turn.call).score d.config.weightConnectSpam else (d.met pre turn.call).score) ∧
        ((d.met pre turn.call).connectSpam d.config = true ↔
          d.config.connectBurst.toNat < pendingConnects (ownTurns ip (pre ++ [turn]))))) ∧
    ∀ pre post client, turns = pre ++ post → (d.after pre).client ip = some client →
      client.ringPos < ringLen ∧
        client.ring.toList.reduceOption.Perm (((announces (ownTurns ip pre)).take ringLen).map seenOf) := by
  constructor
  · rintro pre ⟨order, ip', signal, now⟩ post rfl hip
    change ip' = ip at hip
    subst hip
    have hown : ownTurns ip' (pre ++ [⟨order, ip', signal, now⟩]) = ownTurns ip' pre ++ [⟨ip', signal, now⟩] := by
      rw [ownTurns_append_singleton, if_pos rfl]
    have hsplit : ownTurns ip' (pre ++ ⟨order, ip', signal, now⟩ :: post) =
        ownTurns ip' pre ++ ⟨ip', signal, now⟩ :: ownTurns ip' post := by
      rw [← List.singleton_append, ← List.append_assoc, ownTurns_append, hown, List.append_assoc]
      rfl
    rw [hsplit] at hordered hlen
    have hbefore : ∀ call ∈ ownTurns ip' pre, call.now ≤ now := fun call hmem =>
      (List.pairwise_append.mp hordered).2.2 call hmem _ List.mem_cons_self
    have hshort : (ownTurns ip' pre).length + 1 < 2 ^ 32 - 1 := by
      rw [List.length_append, List.length_cons] at hlen
      omega
    have hmet : d.met pre ⟨ip', signal, now⟩ = touched d.config now (clientRun d.config (ownTurns ip' pre)) := by
      rw [met, client_after hnew hspared.of_append]
    have hscore : ((d.after (pre ++ [⟨order, ip', signal, now⟩])).client ip').map Client.score =
        some (signal.apply d.config now (d.met pre ⟨ip', signal, now⟩)).score := by
      have hself := score_exec order (d.after pre) ⟨ip', signal, now⟩
      rw [after_config] at hself
      rw [after_append_singleton]
      exact hself
    constructor
    · rintro a rfl
      rw [Signal.apply, announce_eq] at hscore
      refine ⟨hscore, ?_⟩
      rw [hmet]
      exact announceSignals hbefore hshort ip' a
    · rintro rfl
      rw [Signal.apply, connect_eq] at hscore
      refine ⟨hscore, ?_⟩
      rw [hmet, hown]
      exact connectSpam_iff (recalls_touched d.config _ now) ip' hshort
  · rintro pre post client rfl hclient
    rw [client_after hnew hspared.of_append] at hclient
    exact ring_clientRun hclient

theorem signals_of_history_restarting : (new .default).Spared restartingTurns restartingIp ∧
    ∀ client, ((new .default).after restartingTurns).client restartingIp = some client →
      client.ringPos < ringLen ∧
        client.ring.toList.reduceOption.Perm
          (((announces (ownTurns restartingIp restartingTurns)).take ringLen).map seenOf) := by
  refine ⟨spared_restarting, fun client hclient => (signals_of_history (new .default) restartingTurns restartingIp
    (client_new _ _) spared_restarting ?_ ?_).2 restartingTurns [] client (List.append_nil _).symm hclient⟩
  · rw [ownTurns_restarting]
    decide +kernel
  · rw [ownTurns_restarting]
    decide +kernel

end Detector

end Bluefrog
