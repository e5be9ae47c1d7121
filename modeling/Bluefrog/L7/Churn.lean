import Bluefrog.L7.Runs
import Bluefrog.Lib.History
import Bluefrog.Lib.Ring

/-!
Identity churn. The ring of a source holds its latest announces, whatever torrents they are for, and an
announce is compared with all of them. So a change of identity is charged again while an announce
from before it is in the ring, up to the length of the ring.
-/

open Rust History

namespace Bluefrog

/-- What a source's ring remembers of an event. -/
def Call.seen : Call → Option Seen
  | ⟨_, .announce a, now⟩ => some ⟨a.infoHash, now, a.key, peerFingerprint a.peerId⟩
  | _ => none

theorem seen_announce (ip : Ip) (a : AnnounceInfo) (now : UInt32) :
    Call.seen ⟨ip, .announce a, now⟩ = some ⟨a.infoHash, now, a.key, peerFingerprint a.peerId⟩ := rfl

/-- The announces among some events as a ring remembers them, newest first. -/
def remembered (calls : List Call) : List Seen := (calls.filterMap Call.seen).reverse

theorem remembered_append_singleton (calls : List Call) (call : Call) :
    remembered (calls ++ [call]) = call.seen.toList ++ remembered calls := by
  rw [remembered, List.filterMap_append, List.reverse_append]
  cases hseen : call.seen with
  | none => rw [List.filterMap_cons_none hseen]; rfl
  | some seen => rw [List.filterMap_cons_some hseen]; rfl

/-- The ring of a client holds the latest of a history. -/
def Client.Remembers (client : Client) (hist : List Seen) : Prop :=
  Ring.Holds ringLen client.ring.toList client.ringPos hist

section Client

variable (c : Config) (client : Client) (now : UInt32)

variable {client} {hist : List Seen}

theorem Client.Remembers.decay (h : client.Remembers hist) (amount interval : UInt32) :
    (client.decay now amount interval).Remembers hist := by
  obtain ⟨drop, decayAt, hdecay⟩ := client.decay_eq now amount interval
  rw [hdecay]
  exact h

theorem Client.Remembers.crosses (h : client.Remembers hist) : (crosses c client now).1.Remembers hist := by
  rw [crosses_fst]
  exact h

theorem Client.Remembers.apply (h : client.Remembers hist) (call : Call) :
    (call.signal.apply c call.now client).Remembers (call.seen.toList ++ hist) := by
  obtain ⟨ip, signal, now⟩ := call
  cases signal with
  | announce a =>
      simp only [Signal.apply, announce_eq]
      exact h.push _
  | connidMismatch => exact h
  | scrape hashes =>
      simp only [Signal.apply, scrape_eq]
      exact h
  | connect =>
      simp only [Signal.apply, connect_eq]
      exact h

end Client

theorem new_remembers (now : UInt32) : (Client.new now).Remembers [] :=
  Ring.holds_empty (n := ringLen) (by decide)

/-- **The ring of a source holds the latest of its own announces.** -/
theorem touched_remembers (c : Config) (calls : List Call) (now : UInt32) :
    (touched c now (clientRun c calls)).Remembers (remembered calls) := by
  induction calls using List.reverseRecOn generalizing now with
  | nil => exact (new_remembers now).decay now c.decayAmount c.decayInterval
  | append_singleton calls call ih =>
      have hpush := ((ih call.now).apply c call).crosses c call.now
      rw [clientRun_append_singleton, remembered_append_singleton]
      exact hpush.decay now c.decayAmount c.decayInterval

/-- The announce against a ring that holds a history. -/
theorem mem_same_iff {client : Client} {hist : List Seen} (h : client.Remembers hist) (p : Seen → Bool)
    (hash : InfoHash) :
    (client.ring.toList.reduceOption.filter fun seen => seen.hash = hash).any p = true ↔
      ∃ seen ∈ hist.take ringLen, seen.hash = hash ∧ p seen = true := by
  simp only [List.any_eq_true, List.mem_filter, h.mem_iff, decide_eq_true_eq, and_assoc]

theorem fires_interval {client : Client} {hist : List Seen} (h : client.Remembers hist) (c : Config)
    (a : AnnounceInfo) (now : UInt32) : Charge.interval.fires c a now client = true ↔
      ∃ seen ∈ hist.take ringLen, seen.hash = a.infoHash ∧
        saturatingSub now seen.time < c.reannounceMinInterval := by
  simp only [Charge.fires, Client.observed, Client.observe, mem_same_iff h, decide_eq_true_eq]

theorem fires_keyChurn {client : Client} {hist : List Seen} (h : client.Remembers hist) (c : Config)
    (a : AnnounceInfo) (now : UInt32) : Charge.keyChurn.fires c a now client = true ↔
      ∃ seen ∈ hist.take ringLen, seen.hash = a.infoHash ∧ seen.key ≠ a.key := by
  simp only [Charge.fires, Client.observed, Client.observe, mem_same_iff h, decide_eq_true_eq]

theorem fires_peeridChurn {client : Client} {hist : List Seen} (h : client.Remembers hist) (c : Config)
    (a : AnnounceInfo) (now : UInt32) : Charge.peeridChurn.fires c a now client = true ↔
      ∃ seen ∈ hist.take ringLen, seen.hash = a.infoHash ∧ seen.peer ≠ peerFingerprint a.peerId := by
  simp only [Charge.fires, Client.observed, Client.observe, mem_same_iff h, decide_eq_true_eq]

/-- The announce an event carries. -/
def Call.announced : Call → Option AnnounceInfo
  | ⟨_, .announce a, _⟩ => some a
  | _ => none

theorem announced_announce (ip : Ip) (a : AnnounceInfo) (now : UInt32) :
    Call.announced ⟨ip, .announce a, now⟩ = some a := rfl

namespace Detector

variable (d : Detector) (ip : Ip) (hash : InfoHash) (k : Charge)

/-- The announces of a source for a torrent. -/
def announcesFor (turns : List Turn) : List AnnounceInfo :=
  ((ownTurns ip turns).filterMap Call.announced).filter fun a => a.infoHash = hash

/-- An event announces the torrent for the source and fires a signal. -/
def chargesFor (d : Detector) (call : Call) : Bool :=
  match call.signal with
  | .announce a => call.ip = ip ∧ a.infoHash = hash ∧
      k.fires d.config a call.now (touched d.config call.now (d.client ip))
  | _ => false

/-- How many announces of the source for the torrent fire a signal. -/
def charges (d : Detector) : List Turn → Nat
  | [] => 0
  | turn :: turns =>
      (if chargesFor ip hash k d turn.call then 1 else 0) + charges (d.exec turn.order turn.call).1 turns

theorem charges_append_singleton (turns : List Turn) (turn : Turn) :
    charges ip hash k d (turns ++ [turn]) =
      charges ip hash k d turns + if chargesFor ip hash k (d.after turns) turn.call then 1 else 0 := by
  induction turns generalizing d with
  | nil => exact Nat.add_comm _ _
  | cons head turns ih =>
      rw [List.cons_append, charges, ih, ← Nat.add_assoc]
      rfl

section Identity

variable {β : Type} (val : Seen → β) (field : AnnounceInfo → β)

theorem values_remembered (hval : ∀ a now, val ⟨a.infoHash, now, a.key, peerFingerprint a.peerId⟩ = field a)
    (turns : List Turn) : values (fun seen : Seen => seen.hash = hash) val (remembered (ownTurns ip turns)) =
      ((announcesFor ip hash turns).map field).reverse := by
  rw [values, remembered, List.filter_reverse, List.map_reverse, announcesFor]
  congr 1
  induction ownTurns ip turns with
  | nil => rfl
  | cons call calls ih =>
      obtain ⟨ip', signal, now⟩ := call
      cases signal with
      | announce a =>
          rw [List.filterMap_cons_some (seen_announce ip' a now),
            List.filterMap_cons_some (announced_announce ip' a now)]
          by_cases h : a.infoHash = hash
          · rw [List.filter_cons_of_pos (by simpa using h), List.filter_cons_of_pos (by simpa using h),
              List.map_cons, List.map_cons, hval, ih]
          · rw [List.filter_cons_of_neg (by simpa using h), List.filter_cons_of_neg (by simpa using h), ih]
      | _ => exact ih

variable {d ip hash k} [DecidableEq β]

/-- The charges for a torrent are the flags of a window as long as the ring. -/
theorem charges_eq_flags (hval : ∀ a now, val ⟨a.infoHash, now, a.key, peerFingerprint a.peerId⟩ = field a)
    (hfires : ∀ {client hist}, Client.Remembers client hist → ∀ a now, k.fires d.config a now client = true ↔
      ∃ seen ∈ hist.take ringLen, seen.hash = a.infoHash ∧ val seen ≠ field a)
    {turns : List Turn} (hnew : d.client ip = none) (hspared : d.Spared turns ip) :
    charges ip hash k d turns =
      flags ringLen (fun seen => seen.hash = hash) val (remembered (ownTurns ip turns)) := by
  induction turns using List.reverseRecOn with
  | nil => rfl
  | append_singleton turns turn ih =>
      have hpre := hspared.append_singleton
      have htouched := touched_remembers d.config (ownTurns ip turns) turn.call.now
      rw [charges_append_singleton, ih hpre, ownTurns_append_singleton]
      obtain ⟨order, ip', signal, now⟩ := turn
      by_cases hip : ip' = ip
      · rw [if_pos hip, remembered_append_singleton]
        cases signal with
        | announce a =>
            have hflag : chargesFor ip hash k (d.after turns) ⟨ip', .announce a, now⟩ =
                flagged ringLen (fun seen : Seen => seen.hash = hash) val
                  ⟨a.infoHash, now, a.key, peerFingerprint a.peerId⟩ (remembered (ownTurns ip turns)) := by
              rw [Bool.eq_iff_iff, flagged_iff]
              simp only [chargesFor, decide_eq_true_eq, after_config, client_after hnew hpre, hip, true_and, hval,
                hfires htouched]
              refine and_congr_right fun hhash => ?_
              rw [hhash]
            rw [hflag, Nat.add_comm]
            rfl
        | _ => rfl
      · have hother : chargesFor ip hash k (d.after turns) ⟨ip', signal, now⟩ = false := by
          cases signal with
          | announce a => exact decide_eq_false fun h => hip h.1
          | _ => rfl
        rw [if_neg hip, List.append_nil, hother]
        rfl

end Identity

/-- **A change of identity is charged at most once for each slot of the ring.** -/
theorem churn_charges_le (d : Detector) (turns : List Turn) (ip : Ip) (hash : InfoHash) (hnew : d.client ip = none)
    (hspared : d.Spared turns ip) :
    charges ip hash .keyChurn d turns ≤
        ringLen * changes ((announcesFor ip hash turns).map AnnounceInfo.key) ∧
      charges ip hash .peeridChurn d turns ≤
        ringLen * changes ((announcesFor ip hash turns).map AnnounceInfo.peerId) := by
  have hkeys : charges ip hash .keyChurn d turns = _ :=
    charges_eq_flags Seen.key AnnounceInfo.key (fun _ _ => rfl) (fun h a now => fires_keyChurn h d.config a now)
      hnew hspared
  have hpeers : charges ip hash .peeridChurn d turns = _ :=
    charges_eq_flags Seen.peer (fun a => peerFingerprint a.peerId) (fun _ _ => rfl)
      (fun h a now => fires_peeridChurn h d.config a now) hnew hspared
  constructor
  · rw [hkeys, ← changes_reverse, ← values_remembered ip hash Seen.key AnnounceInfo.key fun _ _ => rfl]
    exact flags_le _
  · rw [hpeers]
    refine (flags_le _).trans (Nat.mul_le_mul_left _ ?_)
    -- the ring keeps fingerprints, and these change no more often than the peer ids
    calc changes (values _ Seen.peer (remembered (ownTurns ip turns)))
      _ = changes ((announcesFor ip hash turns).map fun a => peerFingerprint a.peerId) := by
          rw [values_remembered ip hash Seen.peer (fun a => peerFingerprint a.peerId) fun _ _ => rfl, changes_reverse]
      _ = changes (((announcesFor ip hash turns).map AnnounceInfo.peerId).map peerFingerprint) := by
          rw [List.map_map, Function.comp_def]
      _ ≤ changes ((announcesFor ip hash turns).map AnnounceInfo.peerId) := changes_map_le _ _

/-- A source, and the torrent it announces. -/
def restartingIp : Ip := .replicate _ 1

def restartingHash : InfoHash := .replicate _ 1

/-- A client that announces one torrent every hour and restarts once, after its first announce. -/
def restarting : List Call :=
  (List.range 9).map fun hour =>
    { ip := restartingIp
      signal := .announce
        { infoHash := restartingHash
          peerId := ⟨ascii (if hour = 0 then "-qB5000-abcdefghijkl" else "-qB5000-mnopqrstuvwx"), by split_ifs <;> rfl⟩
          key := if hour = 0 then 1 else 2
          declaredIp := 0
          port := 6881
          left := 100
          downloaded := 10
          uploaded := 5
          numWant := 50
          sourceIsPublic := true
          swarmPeers := 5 }
      now := 3600 * UInt32.ofNat hour }

/-- The turns of the client that restarts once. -/
noncomputable def restartingTurns : List Turn := restarting.map fun call => ⟨HashOrder.arbitrary, call⟩

theorem ip_restarting {call : Call} (h : call ∈ restarting) : call.ip = restartingIp := by
  obtain ⟨hour, -, rfl⟩ := List.mem_map.mp h
  rfl

theorem spared_restarting : (new .default).Spared restartingTurns restartingIp :=
  spared_of_own fun turn hturn => by
    obtain ⟨call, hcall, rfl⟩ := List.mem_map.mp hturn
    exact ip_restarting hcall

theorem ownTurns_restarting : ownTurns restartingIp restartingTurns = restarting := by
  rw [ownTurns, restartingTurns, List.map_map, Function.comp_def, List.map_id']
  exact List.filter_eq_self.mpr fun call hcall => decide_eq_true (ip_restarting hcall)

theorem churn_charges_le_restarting :
    charges restartingIp restartingHash .keyChurn (new .default) restartingTurns ≤
        ringLen * changes ((announcesFor restartingIp restartingHash restartingTurns).map AnnounceInfo.key) ∧
      charges restartingIp restartingHash .peeridChurn (new .default) restartingTurns ≤
        ringLen * changes ((announcesFor restartingIp restartingHash restartingTurns).map AnnounceInfo.peerId) :=
  churn_charges_le (new .default) restartingTurns restartingIp restartingHash (client_new _ _) spared_restarting

/-- One restart, eight charges. -/
theorem restarting_charged_again :
    (new .default).Spared restartingTurns restartingIp ∧
      (charges restartingIp restartingHash .keyChurn (new .default) restartingTurns = 8 ∧
        changes ((announcesFor restartingIp restartingHash restartingTurns).map AnnounceInfo.key) = 1) ∧
      charges restartingIp restartingHash .peeridChurn (new .default) restartingTurns = 8 ∧
        changes ((announcesFor restartingIp restartingHash restartingTurns).map AnnounceInfo.peerId) = 1 := by
  refine ⟨spared_restarting, ⟨?_, ?_⟩, ?_, ?_⟩
  · rw [charges_eq_flags Seen.key AnnounceInfo.key (fun _ _ => rfl) (fun h a now => fires_keyChurn h .default a now)
      (client_new _ _) spared_restarting, ownTurns_restarting]
    decide +kernel
  · rw [announcesFor, ownTurns_restarting]
    decide +kernel
  · rw [charges_eq_flags Seen.peer (fun a => peerFingerprint a.peerId) (fun _ _ => rfl)
      (fun h a now => fires_peeridChurn h .default a now) (client_new _ _) spared_restarting, ownTurns_restarting]
    decide +kernel
  · rw [announcesFor, ownTurns_restarting]
    decide +kernel

end Detector
end Bluefrog
