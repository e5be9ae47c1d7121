import Bluefrog.L7.Breadth
import Bluefrog.L7.Signals

/-!
The breadth of a source, from its whole history. A fast announce folds its torrent into the fingerprint, so
the fingerprint never counts more torrents than the source has announced fast.
-/

open Rust

namespace Bluefrog

/-- The torrent an event folds into the fingerprint: that of a fast announce. -/
def foldedIn (c : Config) (latest : Option UInt32) (call : Call) : Option InfoHash :=
  match call.signal with
  | .announce a => if quickAfter c latest call.now then some a.infoHash else none
  | _ => none

/-- The torrents of the fast announces of a history. -/
def fastHashes (c : Config) (hist : List Call) : List InfoHash :=
  (withLatest none hist).filterMap fun event => foldedIn c event.1 event.2

theorem fastHashes_append_singleton (c : Config) (hist : List Call) (call : Call) :
    fastHashes c (hist ++ [call]) = fastHashes c hist ++ (foldedIn c (latestTime hist) call).toList := by
  rw [fastHashes, withLatest_append_singleton, Option.or_none, List.filterMap_append]
  rfl

/-- Folding a torrent in twice adds nothing. -/
theorem Fingerprints.widen_of_mem {client : Client} {hashes : List InfoHash} (h : Fingerprints client.breadth hashes)
    {hash : InfoHash} (hmem : hash ∈ hashes) : (client.widen hash).breadth = client.breadth := by
  apply UInt64.toNat_inj.mp
  apply Nat.eq_of_testBit_eq
  intro i
  rw [Bool.eq_iff_iff, h.widen hash i, h i]
  simp only [buckets, List.mem_toFinset, List.map_append, List.mem_append, List.map_singleton, List.mem_singleton]
  exact or_iff_left_of_imp fun hi => hi ▸ List.mem_map_of_mem hmem

/-- **The fingerprint never counts more torrents than were folded in.** -/
theorem Fingerprints.countOnes_le {breadth : UInt64} {hashes : List InfoHash} (h : Fingerprints breadth hashes) :
    (Bluefrog.countOnes breadth).toNat ≤ hashes.toFinset.card := by
  have himage : buckets hashes = hashes.toFinset.image bucket := by
    ext i
    simp only [buckets, List.mem_toFinset, List.mem_map, Finset.mem_image]
  calc (Bluefrog.countOnes breadth).toNat
    _ = (hashes.toFinset.image bucket).card := by rw [h.countOnes, himage]
    _ ≤ hashes.toFinset.card := Finset.card_image_le

theorem Fingerprints.countOnes_mono {breadth breadth' : UInt64} {hashes hashes' : List InfoHash}
    (h : Fingerprints breadth hashes) (h' : Fingerprints breadth' hashes') (hsub : hashes ⊆ hashes') :
    Bluefrog.countOnes breadth ≤ Bluefrog.countOnes breadth' := by
  rw [UInt32.le_iff_toNat_le, h.countOnes, h'.countOnes]
  apply Finset.card_le_card
  intro i hi
  exact List.mem_toFinset.mpr (List.map_subset bucket hsub (List.mem_toFinset.mp hi))

section Step

variable {c : Config} {hist : List Call} {now : UInt32} {client : Client}

theorem breadth_touched (c : Config) (now : UInt32) (prev : Option Client) :
    (touched c now prev).breadth = (prev.map Client.breadth).getD 0 := by
  obtain ⟨drop, decayAt, lastGap, htouched⟩ := touched_eq c now prev
  rw [htouched]
  cases prev <;> rfl

theorem breadth_apply (c : Config) (now : UInt32) (client : Client) (signal : Signal) :
    (signal.apply c now client).breadth =
      match signal with
      | .announce a => client.breadthAfter c a
      | _ => client.breadth := by
  cases signal with
  | announce a => rw [Signal.apply, announce_eq]
  | connidMismatch => rfl
  | scrape hashes => rw [Signal.apply, scrape_eq]
  | connect => rw [Signal.apply, connect_eq]

/-- What a history has folded in stays. -/
theorem fastHashes_subset_append (c : Config) (hist hist' : List Call) :
    fastHashes c hist ⊆ fastHashes c (hist ++ hist') := by
  induction hist' using List.reverseRecOn with
  | nil =>
      rw [List.append_nil]
      exact List.Subset.refl _
  | append_singleton hist' call ih =>
      rw [← List.append_assoc, fastHashes_append_singleton]
      exact List.subset_append_of_subset_left _ ih

/-- One event folds in what the history says, and a torrent already there changes nothing. -/
theorem fingerprints_apply (hfast : client.fast c = quickAfter c (latestTime hist) now)
    (h : Fingerprints client.breadth (fastHashes c hist)) (ip : Ip) (signal : Signal) :
    Fingerprints (signal.apply c now client).breadth (fastHashes c (hist ++ [⟨ip, signal, now⟩])) ∧
      ∀ a, signal = .announce a → a.infoHash ∈ fastHashes c hist →
        (signal.apply c now client).breadth = client.breadth := by
  rw [breadth_apply, fastHashes_append_singleton]
  cases signal with
  | announce a =>
      rw [foldedIn, ← hfast]
      simp only [Client.breadthAfter]
      split_ifs
      · exact ⟨h.widen a.infoHash, fun _ heq hmem => by cases heq; exact h.widen_of_mem hmem⟩
      · exact ⟨by rw [Option.toList_none, List.append_nil]; exact h, fun _ _ _ => rfl⟩
  | _ => exact ⟨by rw [foldedIn, Option.toList_none, List.append_nil]; exact h, fun _ _ _ => rfl⟩

theorem breadth_clientStep (c : Config) (prev : Option Client) (signal : Signal) (now : UInt32) :
    (clientStep c prev signal now).1.breadth = (signal.apply c now (touched c now prev)).breadth := by
  rw [clientStep, crosses_fst]

/-- **The fingerprint of a source is that of the torrents it has announced fast.** -/
theorem fingerprints_touched (c : Config) (hist : List Call) (now : UInt32) :
    Fingerprints (touched c now (clientRun c hist)).breadth (fastHashes c hist) := by
  induction hist using List.reverseRecOn generalizing now with
  | nil =>
      rw [breadth_touched]
      exact fingerprints_nil
  | append_singleton hist call ih =>
      rw [clientRun_append_singleton, breadth_touched, Option.map_some, Option.getD_some, breadth_clientStep]
      exact (fingerprints_apply (recalls_touched c hist call.now).fast (ih call.now) call.ip call.signal).1

theorem fingerprints_clientRun (h : clientRun c hist = some client) :
    Fingerprints client.breadth (fastHashes c hist) := by
  have htouched := fingerprints_touched c hist 0
  rw [h, breadth_touched] at htouched
  exact htouched

end Step

namespace Detector

/-- An announce that is charged for breadth, in the history of its source. -/
structure BreadthCharge (c : Config) (hist : List Call) (call : Call) (a : AnnounceInfo) : Prop where
  /-- The announce is itself fast. -/
  folded : foldedIn c (latestTime hist) call = some a.infoHash
  distinct : c.breadthThreshold.toNat ≤ (fastHashes c (hist ++ [call])).toFinset.card

theorem breadthCharge_of_fires {c : Config} {hist : List Call} {ip : Ip} {a : AnnounceInfo} {now : UInt32}
    (h : Charge.breadth.fires c a now (touched c now (clientRun c hist)) = true) :
    BreadthCharge c hist ⟨ip, .announce a, now⟩ a := by
  have hfast := (recalls_touched c hist now).fast
  rw [Charge.fires, decide_eq_true_iff] at h
  obtain ⟨hgate, hcount⟩ := h
  have hfolded : foldedIn c (latestTime hist) ⟨ip, .announce a, now⟩ = some a.infoHash := by
    rw [foldedIn, ← hfast]
    exact if_pos hgate
  have hprint := (fingerprints_touched c hist now).widen a.infoHash
  refine ⟨hfolded, ?_⟩
  rw [fastHashes_append_singleton, hfolded]
  exact (UInt32.le_iff_toNat_le.mp hcount).trans hprint.countOnes_le

/-- **Breadth never over-counts.** -/
theorem breadth_never_overcounts (d : Detector) (turns : List Turn) (ip : Ip) (hnew : d.client ip = none)
    (hspared : d.Spared turns ip) :
    (∀ pre turn post, turns = pre ++ turn :: post → turn.call.ip = ip → ∀ a, turn.call.signal = .announce a →
      ((d.after (pre ++ [turn])).client ip).map Client.score =
          some (saturatingAdd (d.met pre turn.call).score ((d.met pre turn.call).charged d.config a turn.call.now)) ∧
        (Charge.breadth.fires d.config a turn.call.now (d.met pre turn.call) = true →
          BreadthCharge d.config (ownTurns ip pre) turn.call a) ∧
        ∀ client client', (d.after pre).client ip = some client → (d.after (pre ++ [turn])).client ip = some client' →
          a.infoHash ∈ fastHashes d.config (ownTurns ip pre) → client'.breadth = client.breadth) ∧
    (∀ pre post client, turns = pre ++ post → (d.after pre).client ip = some client →
      (countOnes client.breadth).toNat ≤ (fastHashes d.config (ownTurns ip pre)).toFinset.card) ∧
    (∀ pre mid post client client', turns = pre ++ mid ++ post → (d.after pre).client ip = some client →
      (d.after (pre ++ mid)).client ip = some client' → countOnes client.breadth ≤ countOnes client'.breadth) ∧
    ∀ hash, (breadthBit hash).toNat < 64 := by
  refine ⟨?_, ?_, ?_, bucket_lt⟩
  · rintro pre ⟨order, ip', signal, now⟩ post rfl hip a hsignal
    cases hip
    cases hsignal
    have hrun := client_after hnew hspared.of_append
    have hmet : d.met pre ⟨ip', .announce a, now⟩ = touched d.config now (clientRun d.config (ownTurns ip' pre)) := by
      rw [met, hrun]
    refine ⟨?_, ?_, ?_⟩
    · have hscore := score_exec order (d.after pre) ⟨ip', .announce a, now⟩
      rw [Signal.apply, announce_eq, after_config] at hscore
      rw [after_append_singleton]
      exact hscore
    · intro hfires
      rw [hmet] at hfires
      exact breadthCharge_of_fires hfires
    · intro client client' hclient hclient' hmem
      have hself := client_after_self d pre ⟨order, ip', .announce a, now⟩
      rw [hclient'] at hself
      have hagain := (fingerprints_apply (recalls_touched d.config (ownTurns ip' pre) now).fast
        (fingerprints_touched d.config (ownTurns ip' pre) now) ip' (.announce a)).2 a rfl hmem
      rw [← hrun, hclient, breadth_touched] at hagain
      rw [Option.some.inj hself, breadth_clientStep, hclient]
      exact hagain
  · rintro pre post client rfl hclient
    rw [client_after hnew hspared.of_append] at hclient
    exact (fingerprints_clientRun hclient).countOnes_le
  · rintro pre mid post client client' rfl hclient hclient'
    rw [client_after hnew hspared.of_append] at hclient'
    rw [client_after hnew hspared.of_append.of_append] at hclient
    refine (fingerprints_clientRun hclient).countOnes_mono (fingerprints_clientRun hclient') ?_
    rw [ownTurns_append]
    exact fastHashes_subset_append d.config _ _

/-- A source that announces three torrents, ten seconds apart. -/
def browsingIp : Ip := .replicate _ 1

def browsingAnnounce (torrent : UInt8) : AnnounceInfo where
  infoHash := .replicate _ torrent
  peerId := ⟨ascii "-TR3000-abcdefghijkl", rfl⟩
  key := 1
  declaredIp := 0
  port := 6881
  left := 100
  downloaded := 10
  uploaded := 5
  numWant := 50
  sourceIsPublic := true
  swarmPeers := 5

def browsing : List Call :=
  [(1, 0), (2, 10), (3, 20), (3, 30)].map fun (torrent, now) => ⟨browsingIp, .announce (browsingAnnounce torrent), now⟩

noncomputable def browsingTurns (n : Nat) : List Turn :=
  (browsing.take n).map fun call => ⟨HashOrder.arbitrary, call⟩

/-- A tracker that tolerates one torrent a source. -/
def narrowConfig : Config := { Config.default with breadthThreshold := 2 }

theorem spared_browsing (n : Nat) : (new narrowConfig).Spared (browsingTurns n) browsingIp := by
  refine spared_of_own fun turn hmem => ?_
  obtain ⟨call, hcall, rfl⟩ := List.mem_map.mp hmem
  obtain ⟨torrent, -, rfl⟩ := List.mem_map.mp (List.mem_of_mem_take hcall)
  rfl

/-- The second of two fast torrents is charged, and so it is when announced again. -/
theorem breadth_never_overcounts_browsing :
    BreadthCharge narrowConfig (browsing.take 3) ⟨browsingIp, .announce (browsingAnnounce 3), 30⟩
      (browsingAnnounce 3) := by
  have hown : ownTurns browsingIp (browsingTurns 3) = browsing.take 3 := by
    rw [ownTurns, browsingTurns, List.map_map, Function.comp_def, List.map_id']
    exact List.filter_eq_self.mpr (by decide +kernel)
  have hcharge := ((breadth_never_overcounts (new narrowConfig) (browsingTurns 4) browsingIp (client_new _ _)
    (spared_browsing 4)).1 (browsingTurns 3) ⟨HashOrder.arbitrary, browsingIp, .announce (browsingAnnounce 3), 30⟩ []
      rfl rfl (browsingAnnounce 3) rfl).2.1
  rw [met, client_after (client_new _ _) (spared_browsing 3), hown] at hcharge
  exact hcharge (by decide +kernel)

end Detector
end Bluefrog
