import Bluefrog.Core.Swarm
import Bluefrog.L7.Charges
import Bluefrog.Main.Worker

/-!
The empty-swarm signal. The detector calls a swarm empty when the counts of the reply add up to at most
one, as if the announcer were always among them. A stopped announce takes the announcer out, so one other
peer then passes for nobody.
-/

open Rust

namespace Bluefrog

open Udp

/-- Seeding is decided by the bytes left alone. -/
theorem has_seeding_announceFlags (left : UInt64) (event : Event) :
    Flag.has (announceFlags left event) Flag.seeding = decide (left = 0) := by
  by_cases hleft : left = 0
  · rw [announceFlags, if_pos hleft, decide_eq_true hleft]
    cases event <;> rfl
  · rw [announceFlags, if_neg hleft, decide_eq_false hleft]
    cases event <;> rfl

theorem PeerList.has_seeding_mergedFlags {N : Nat} (p : PeerList N) (key : Bytes N) (flags : UInt8) :
    Flag.has (p.mergedFlags key flags) Flag.seeding = Flag.has flags Flag.seeding := by
  have hsanitize : Flag.has (sanitize flags) Flag.seeding = Flag.has flags Flag.seeding := by
    unfold sanitize
    split_ifs
    · exact Flag.has_seeding_clear_completed flags
    · rfl
  unfold mergedFlags
  split
  · rw [Flag.has_seeding_or_completed, hsanitize]
  · exact hsanitize

section Announce

variable (order : HashOrder) (store : Store) (r : PeerRef) (left : UInt64) (event : Event)

/-- The seeders of the torrent after an announce: the others and, unless it stopped, the announcer. -/
def seedersAfter : Nat :=
  ((store.others r).countP fun e => e.2.isSeed) + if event ≠ .stopped ∧ left = 0 then 1 else 0

/-- The leechers of the torrent after an announce. -/
def leechersAfter : Nat :=
  ((store.others r).countP fun e => !e.2.isSeed) + if event ≠ .stopped ∧ left ≠ 0 then 1 else 0

variable (numwant : Nat) (nowMin : UInt32) (out : List UInt8)

theorem others_announceOp :
    (store.step order (announceOp r left event numwant nowMin out)).others r = store.others r := by
  refine Store.others_congr fun r' hne => ?_
  unfold announceOp
  split_ifs
  · rw [Store.peer_remove, if_neg hne]
  · rw [Store.peer_announce, if_neg hne]

/-- An announce leaves the others and its own entry. -/
theorem recount_announceOp : (store.step order (announceOp r left event numwant nowMin out)).recount r.hash =
    (seedersAfter store r left event, leechersAfter store r left event) := by
  have hothers := others_announceOp order store r left event numwant nowMin out
  rw [Store.recount_eq, Store.swarm_eq_others, hothers, seedersAfter, leechersAfter]
  by_cases hstop : event = .stopped
  · rw [announceOp, if_pos hstop, Store.peer_remove, if_pos rfl]
    simp only [hstop, ne_eq, not_true_eq_false, false_and, if_false, Nat.add_zero]
  · rw [announceOp, if_neg hstop, Store.peer_announce, if_pos rfl]
    have hseed : PeerVal.isSeed ⟨(((store.get r.hash).getD Torrent.new).list r.family).mergedFlags r.key
        (announceFlags left event), nowMin⟩ = decide (left = 0) := by
      rw [PeerVal.isSeed_eq, PeerList.has_seeding_mergedFlags, has_seeding_announceFlags]
    simp only [ne_eq, hstop, not_false_eq_true, true_and]
    rw [Multiset.countP_cons, Multiset.countP_cons, hseed]
    simp only [decide_eq_true_eq, Bool.not_eq_true', decide_eq_false_iff_not]

/-- The counts show that somebody else is in the torrent, if somebody is. -/
def OthersShow : Prop :=
  store.others r = 0 ∨ 2 ≤ seedersAfter store r left event % 2 ^ 32 + leechersAfter store r left event % 2 ^ 32

theorem seedersAfter_add_leechersAfter : seedersAfter store r left event + leechersAfter store r left event =
    (store.others r).card + if event = .stopped then 0 else 1 := by
  have hsplit := Multiset.card_eq_countP_add_countP (fun e : PeerRef × PeerVal => e.2.isSeed = true) (store.others r)
  simp only [Bool.not_eq_true] at hsplit
  simp only [seedersAfter, leechersAfter, Bool.not_eq_true']
  by_cases hstop : event = .stopped
  · simp only [hstop, ne_eq, not_true_eq_false, false_and, if_false, if_true]
    omega
  · by_cases hleft : left = 0
    · simp only [hstop, hleft, ne_eq, not_true_eq_false, not_false_eq_true, and_self, and_false, if_true, if_false]
      omega
    · simp only [hstop, hleft, ne_eq, not_false_eq_true, and_self, and_false, if_true, if_false]
      omega

/-- In a swarm that fits the counters, only a stop next to a single other peer goes wrong. -/
theorem othersShow_iff (hfit : (store.others r).card + 1 < 2 ^ 32) :
    OthersShow store r left event ↔ ¬(event = .stopped ∧ (store.others r).card = 1) := by
  have hsum := seedersAfter_add_leechersAfter store r left event
  rw [OthersShow, ← Multiset.card_eq_zero]
  by_cases hstop : event = .stopped
  · rw [if_pos hstop] at hsum
    rw [Nat.mod_eq_of_lt (by omega), Nat.mod_eq_of_lt (by omega), and_iff_right hstop]
    omega
  · rw [if_neg hstop] at hsum
    rw [Nat.mod_eq_of_lt (by omega), Nat.mod_eq_of_lt (by omega)]
    refine iff_of_true (by omega) fun h => hstop h.1

end Announce
theorem saturatingAdd_le_one (x y : UInt32) : saturatingAdd x y ≤ 1 ↔ x.toNat + y.toNat ≤ 1 := by
  rw [UInt32.le_iff_toNat_le, toNat_saturatingAdd, UInt32.toNat_one]
  omega

theorem saturatingAdd_one_ne_zero (x : UInt32) : saturatingAdd x 1 ≠ 0 := by
  intro h
  have htoNat := congrArg UInt32.toNat h
  rw [toNat_saturatingAdd, UInt32.toNat_one, UInt32.toNat_zero] at htoNat
  omega

/-- What an announce leaves in the empty-swarm counter of a source seen shortly before. -/
theorem emptySwarms_onAnnounce (order : HashOrder) (d : Detector) (ip : Ip) (a : AnnounceInfo) (now : UInt32)
    {client : Client} (hclient : d.client ip = some client)
    (hfast : saturatingSub now client.lastSeen < d.config.fastAnnounceGap) :
    ∃ client', (d.onAnnounce order ip a now).1.client ip = some client' ∧
      client'.emptySwarms = if a.swarmPeers ≤ 1 then saturatingAdd client.emptySwarms 1 else 0 := by
  have hself := Detector.client_exec_self order d ⟨ip, .announce a, now⟩
  refine ⟨_, hself, ?_⟩
  have htouched : (touched d.config now (some client)).emptySwarms = client.emptySwarms ∧
      (touched d.config now (some client)).lastGap = saturatingSub now client.lastSeen := by
    obtain ⟨drop, decayAt, hdecay⟩ := client.decay_eq now d.config.decayAmount d.config.decayInterval
    rw [touched, hdecay]
    exact ⟨rfl, rfl⟩
  have hgate : (touched d.config now (some client)).fast d.config = true := by
    rw [Client.fast, htouched.2]
    exact decide_eq_true hfast
  simp only [hclient, clientStep, crosses_fst, Signal.apply, announce_eq, Client.emptySwarmsAfter, hgate, true_and,
    htouched.1]

/-- What an accepted announce leaves in the store and in the empty-swarm counter of its source. -/
theorem emptySwarms_udpWorker (blake3 : Blake3) (order order' : HashOrder) (ops : List Op) (connid : ConnId)
    (d : Detector) (peer : IpAddr) {buf : List UInt8} (now : UInt64) (interval : UInt32) (out : List UInt8)
    {a : Announce} (hparse : parse buf = some (.ok (.announce a)))
    (hid : connid.validate blake3 a.connectionId (ipTo16 (canonicalIp peer)).toList now = true)
    {client : Client} (hclient : d.client (ipTo16 (canonicalIp peer)) = some client)
    (hfast : saturatingSub (clampU32 now) client.lastSeen < d.config.fastAnnounceGap) :
    ∃ served client',
      udpWorker blake3 order true ⟨Store.run order' ops, connid⟩ d peer buf now interval out = some served ∧
      served.detector.client (ipTo16 (canonicalIp peer)) = some client' ∧
      served.handler.store.others (announcer a peer) = (Store.run order' ops).others (announcer a peer) ∧
      client'.emptySwarms =
        if seedersAfter (Store.run order' ops) (announcer a peer) a.left a.event % 2 ^ 32 +
            leechersAfter (Store.run order' ops) (announcer a peer) a.left a.event % 2 ^ 32 ≤ 1 then
          saturatingAdd client.emptySwarms 1
        else 0 := by
  obtain ⟨reply, hworker, hswarm⟩ := udpWorker_announce blake3 order ⟨Store.run order' ops, connid⟩ d peer now
    interval out hparse hid
  obtain ⟨client', hclient', hempty⟩ := emptySwarms_onAnnounce order d (ipTo16 (canonicalIp peer))
    (announceInfo a (canonicalIp peer) reply) (clampU32 now) hclient hfast
  refine ⟨_, client', hworker, hclient', others_announceOp order _ (announcer a peer) _ _ _ _ _, ?_⟩
  have hcounts := Store.scrape_eq_recount (Store.counted_step order' order ops
    (announceOp (announcer a peer) a.left a.event (numwant a.numWant (canonicalIp peer).isIpv4) (now / 60).toUInt32
      (List.replicate 20 0))) (announcer a peer).hash
  rw [recount_announceOp] at hcounts
  simp only [hempty, hswarm, saturatingAdd_le_one]
  rw [show a.infoHash = (announcer a peer).hash from rfl, hcounts.1, hcounts.2, UInt32.toNat_ofNat',
    UInt32.toNat_ofNat', Nat.add_comm]

/-- **When the empty-swarm signal is about other peers**: the counter of a source seen shortly before goes up
when nobody else is in the torrent and is reset otherwise, exactly if the reported counts show the others. -/
theorem empty_swarms_iff (blake3 : Blake3) (order order' : HashOrder) (ops : List Op) (connid : ConnId)
    (d : Detector) (peer : IpAddr) {buf : List UInt8} (now : UInt64) (interval : UInt32) (out : List UInt8)
    {a : Announce} (hparse : parse buf = some (.ok (.announce a)))
    (hid : connid.validate blake3 a.connectionId (ipTo16 (canonicalIp peer)).toList now = true)
    {client : Client} (hclient : d.client (ipTo16 (canonicalIp peer)) = some client)
    (hfast : saturatingSub (clampU32 now) client.lastSeen < d.config.fastAnnounceGap) :
    ∃ served client',
      udpWorker blake3 order true ⟨Store.run order' ops, connid⟩ d peer buf now interval out = some served ∧
      served.detector.client (ipTo16 (canonicalIp peer)) = some client' ∧
      ((client'.emptySwarms =
          if served.handler.store.others (announcer a peer) = 0 then saturatingAdd client.emptySwarms 1 else 0) ↔
        OthersShow (Store.run order' ops) (announcer a peer) a.left a.event) := by
  obtain ⟨served, client', hworker, hclient', hothers, hempty⟩ := emptySwarms_udpWorker blake3 order order' ops connid
    d peer now interval out hparse hid hclient hfast
  refine ⟨served, client', hworker, hclient', ?_⟩
  have hsum := seedersAfter_add_leechersAfter (Store.run order' ops) (announcer a peer) a.left a.event
  have hne := saturatingAdd_one_ne_zero client.emptySwarms
  have halone : (Store.run order' ops).others (announcer a peer) = 0 →
      seedersAfter (Store.run order' ops) (announcer a peer) a.left a.event % 2 ^ 32 +
        leechersAfter (Store.run order' ops) (announcer a peer) a.left a.event % 2 ^ 32 ≤ 1 := fun h => by
    rw [h, Multiset.card_zero] at hsum
    split_ifs at hsum <;> omega
  rw [hempty, hothers, OthersShow]
  split_ifs with hlow hzero hzero
  · exact iff_of_true rfl (.inl hzero)
  · exact iff_of_false hne fun h => h.elim hzero fun h => by omega
  · exact absurd (halone hzero) hlow
  · exact iff_of_true rfl (.inr (by omega))

/-- A peer of a torrent, one leecher in a store, and an announce by which the peer leaves. -/
def leavingPeer : IpAddr := .v4 ⟨[5, 6, 7, 8], rfl⟩

def stayingLeecher : List Op :=
  [.announce (peerOf (.replicate _ 1) (.v4 ⟨[1, 2, 3, 4], rfl⟩) 6881) 0 0 16 []]

def leavingConnid : ConnId := .new (.replicate _ 7) 120

def leaving : Announce where
  connectionId := leavingConnid.generate cutHash (ipTo16 (canonicalIp leavingPeer)).toList 1000
  transactionId := 1
  infoHash := .replicate _ 1
  peerId := .replicate _ 66
  downloaded := 10
  left := 100
  uploaded := 5
  event := .stopped
  declaredIp := 0
  key := 1
  numWant := 0
  port := 6881

/-- The detector, after the connect of the peer ten seconds earlier. -/
def leavingDetector (order : HashOrder) : Detector :=
  (Detector.new .default).after [⟨order, ipTo16 (canonicalIp leavingPeer), .connect, 990⟩]

theorem client_leavingDetector (order : HashOrder) : ∃ client : Client,
    (leavingDetector order).client (ipTo16 (canonicalIp leavingPeer)) = some client ∧ client.emptySwarms = 0 ∧
      saturatingSub (clampU32 1000) client.lastSeen < (leavingDetector order).config.fastAnnounceGap := by
  rw [leavingDetector]
  generalize ipTo16 (canonicalIp leavingPeer) = ip
  have hnew : ((Detector.new .default).after []).client ip = none := Detector.client_new _ _
  have hself := Detector.client_after_self (Detector.new .default) [] ⟨order, ip, .connect, 990⟩
  rw [hnew] at hself
  refine ⟨(clientStep .default none .connect 990).1, hself, rfl, ?_⟩
  rw [Detector.after_config]
  decide

theorem empty_swarms_iff_leaving : ∃ (client : Client) (served : Served) (client' : Client),
    udpWorker cutHash HashOrder.arbitrary true ⟨Store.run HashOrder.arbitrary stayingLeecher, leavingConnid⟩
      (leavingDetector HashOrder.arbitrary) leavingPeer (announceDatagram leaving 3 []) 1000 1800 [] = some served ∧
    served.detector.client (ipTo16 (canonicalIp leavingPeer)) = some client' ∧
    ((client'.emptySwarms =
        if served.handler.store.others (announcer leaving leavingPeer) = 0 then saturatingAdd client.emptySwarms 1
        else 0) ↔
      OthersShow (Store.run HashOrder.arbitrary stayingLeecher) (announcer leaving leavingPeer) leaving.left
        leaving.event) := by
  obtain ⟨client, hclient, -, hfast⟩ := client_leavingDetector HashOrder.arbitrary
  exact ⟨client, empty_swarms_iff cutHash HashOrder.arbitrary HashOrder.arbitrary stayingLeecher leavingConnid
    (leavingDetector HashOrder.arbitrary) leavingPeer 1000 1800 []
    (parse_announceDatagram (show Event.fromUdp 3 = leaving.event by decide) [])
    (ConnId.validate_generate cutHash leavingConnid _ _) hclient hfast⟩

/-- A peer leaves a torrent, another one stays, and the swarm passes for empty. -/
theorem leaving_next_to_a_leecher : ∃ (client : Client) (served : Served) (client' : Client),
    (leavingDetector HashOrder.arbitrary).client (ipTo16 (canonicalIp leavingPeer)) = some client ∧
    saturatingSub (clampU32 1000) client.lastSeen < Config.default.fastAnnounceGap ∧ client.emptySwarms = 0 ∧
    udpWorker cutHash HashOrder.arbitrary true ⟨Store.run HashOrder.arbitrary stayingLeecher, leavingConnid⟩
      (leavingDetector HashOrder.arbitrary) leavingPeer (announceDatagram leaving 3 []) 1000 1800 [] = some served ∧
    served.detector.client (ipTo16 (canonicalIp leavingPeer)) = some client' ∧
    (served.handler.store.others (announcer leaving leavingPeer)).card = 1 ∧ client'.emptySwarms = 1 := by
  obtain ⟨client, hclient, hzero, hfast⟩ := client_leavingDetector HashOrder.arbitrary
  obtain ⟨served, client', hworker, hclient', hothers, hempty⟩ := emptySwarms_udpWorker cutHash HashOrder.arbitrary
    HashOrder.arbitrary stayingLeecher leavingConnid (leavingDetector HashOrder.arbitrary) leavingPeer 1000 1800 []
    (parse_announceDatagram (show Event.fromUdp 3 = leaving.event by decide) [])
    (ConnId.validate_generate cutHash leavingConnid _ _) hclient hfast
  refine ⟨client, served, client', hclient, hfast, hzero, hworker, hclient', ?_, ?_⟩
  · rw [hothers]
    decide +kernel
  · rw [hempty, if_pos (by decide +kernel), hzero]
    decide

end Bluefrog
