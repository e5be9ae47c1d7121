import Bluefrog.Core.Types
import Bluefrog.Lib.Integers
import Bluefrog.Lib.Text
import Mathlib.Data.List.ReduceOption
import Mathlib.Tactic.SplitIfs

/-!
What the detector remembers of one source, and what each kind of event does to it. Sums of weights
wrap around, as the release build has them; only the score itself saturates.
-/

open Rust

namespace Bluefrog

/-- How many recent announces are remembered of a source. -/
def ringLen : Nat := 8

/-- The prefixes of the peer ids of well-known clients. -/
def knownClientPrefixes : List (List UInt8) :=
  ["-qB", "-TR", "-LT", "-lt", "-DE", "-UT", "-UM", "-AZ", "-BT", "-BL", "-TX", "-FD", "-D5", "-DE", "-KT", "-XL",
    "-WW", "M4-", "M5-"].map ascii

def isKnownClient (peerId : PeerId) : Bool := knownClientPrefixes.any fun p => p.isPrefixOf peerId.toList

/-- The announce fields the detector inspects. -/
structure AnnounceInfo where
  infoHash : InfoHash
  peerId : PeerId
  key : UInt32
  declaredIp : UInt32
  port : UInt16
  left : UInt64
  downloaded : UInt64
  uploaded : UInt64
  numWant : Int32
  sourceIsPublic : Bool
  swarmPeers : UInt32
  deriving DecidableEq

/-- The tunables of the detector. -/
structure Config where
  reannounceMinInterval : UInt32
  scoreBanThreshold : UInt32
  banDuration : UInt32
  maxEntries : Nat
  weightInterval : UInt32
  weightConnid : UInt32
  weightPeerid : UInt32
  decayAmount : UInt32
  decayInterval : UInt32
  weightBadKey : UInt32
  weightDeclaredIp : UInt32
  weightBadPort : UInt32
  weightFakeSeeder : UInt32
  weightKeyChurn : UInt32
  weightPeeridChurn : UInt32
  weightNumwant : UInt32
  numwantAbuse : Int32
  weightBreadth : UInt32
  breadthThreshold : UInt32
  weightEmptySwarm : UInt32
  emptySwarmThreshold : UInt32
  weightScrapeVolume : UInt32
  scrapeVolumeThreshold : Nat
  weightConnectSpam : UInt32
  connectBurst : UInt32
  maxOffenders : Nat
  banTiers : UInt32
  rebanCooldown : UInt32
  fastAnnounceGap : UInt32

def Config.default : Config where
  reannounceMinInterval := 60
  scoreBanThreshold := 100
  banDuration := 3600
  maxEntries := 1000000
  weightInterval := 20
  weightConnid := 15
  weightPeerid := 5
  decayAmount := 1
  decayInterval := 60
  weightBadKey := 40
  weightDeclaredIp := 60
  weightBadPort := 30
  weightFakeSeeder := 50
  weightKeyChurn := 35
  weightPeeridChurn := 35
  weightNumwant := 10
  numwantAbuse := 100
  weightBreadth := 60
  breadthThreshold := 32
  weightEmptySwarm := 40
  emptySwarmThreshold := 8
  weightScrapeVolume := 15
  scrapeVolumeThreshold := 32
  weightConnectSpam := 25
  connectBurst := 8
  maxOffenders := 5000000
  banTiers := 4
  rebanCooldown := 3600
  fastAnnounceGap := 300

/-- One remembered announce. -/
structure Seen where
  hash : InfoHash
  time : UInt32
  key : UInt32
  peer : UInt32
  deriving DecidableEq

/-- The state kept of one source. -/
structure Client where
  score : UInt32
  lastSeen : UInt32
  decayAt : UInt32
  bannedUntil : UInt32
  lastGap : UInt32
  breadth : UInt64
  connects : UInt32
  emptySwarms : UInt32
  ring : List.Vector (Option Seen) ringLen
  ringPos : Nat

/-- A fingerprint of the random tail of a peer id. -/
def peerFingerprint (peerId : PeerId) : UInt32 :=
  ((peerId.toList.drop 8).take 12).foldl (fun acc b => acc * 31 + b.toUInt32) 0

/-- The breadth bucket of an info-hash, one of 64. -/
def breadthBit (hash : InfoHash) : UInt32 :=
  let x := UInt64.ofNat (leNat (hash.toList.take 8))
  ((x * 0x9E3779B97F4A7C15) >>> 58).toUInt32

/-- `x.count_ones()`. -/
def countOnes (x : UInt64) : UInt32 := UInt32.ofNat ((List.range 64).countP fun i => x.toNat.testBit i)

namespace Client

def new (now : UInt32) : Client where
  score := 0
  lastSeen := now
  decayAt := now
  bannedUntil := 0
  lastGap := u32Max
  breadth := 0
  connects := 0
  emptySwarms := 0
  ring := List.Vector.replicate ringLen none
  ringPos := 0

/-- Decays the score in whole intervals and notes the time. -/
def decay (client : Client) (now amount interval : UInt32) : Client :=
  let client := { client with lastGap := saturatingSub now client.lastSeen }
  let interval := max interval 1
  let steps := saturatingSub now client.decayAt / interval
  let client :=
    if 0 < steps then
      { client with
        score := saturatingSub client.score (saturatingMul steps amount)
        decayAt := saturatingAdd client.decayAt (saturatingMul steps interval) }
    else client
  { client with lastSeen := now }

/-- Decaying lowers the score, and leaves everything but the times as it was. -/
theorem decay_eq (client : Client) (now amount interval : UInt32) : ∃ drop decayAt,
    client.decay now amount interval =
      { client with
        score := saturatingSub client.score drop
        lastSeen := now
        decayAt
        lastGap := saturatingSub now client.lastSeen } := by
  rw [decay]
  split_ifs
  · exact ⟨_, _, rfl⟩
  · exact ⟨0, client.decayAt, by rw [saturatingSub_zero]⟩

/-- What an announce is found to be against the remembered announces of its torrent. -/
structure Observed where
  interval : Bool
  keyChurn : Bool
  peerChurn : Bool
  deriving DecidableEq

/-- Writes a value at the cursor of the ring. The slots are an array, so their number stays. -/
def remember (client : Client) (seen : Seen) : Client :=
  { client with
    ring := ⟨client.ring.toList.set client.ringPos (some seen), by rw [List.length_set, client.ring.toList_length]⟩
    ringPos := (client.ringPos + 1) % ringLen }

/-- Compares an announce with the remembered ones for the same torrent, and remembers it. -/
def observe (client : Client) (a : AnnounceInfo) (now floor peer : UInt32) : Client × Observed :=
  let same := client.ring.toList.reduceOption.filter fun seen => seen.hash = a.infoHash
  (client.remember ⟨a.infoHash, now, a.key, peer⟩,
    { interval := same.any fun seen => saturatingSub now seen.time < floor
      keyChurn := same.any fun seen => seen.key ≠ a.key
      peerChurn := same.any fun seen => seen.peer ≠ peer })

/-- Folds a torrent into the breadth fingerprint. -/
def widen (client : Client) (hash : InfoHash) : Client :=
  { client with breadth := client.breadth ||| (1 <<< (breadthBit hash).toUInt64) }

end Client

/-- The checks of a single announce that need no state. -/
def statelessScore (c : Config) (a : AnnounceInfo) (fast : Bool) : UInt32 :=
  let score : UInt32 := 0
  let score := if a.key = 0 ∨ a.key = u32Max then score + c.weightBadKey else score
  let score := if a.declaredIp ≠ 0 ∧ a.sourceIsPublic then score + c.weightDeclaredIp else score
  let score := if fast ∧ a.port < 1024 then score + c.weightBadPort else score
  let score := if fast ∧ a.left = 0 ∧ a.downloaded = 0 ∧ a.uploaded = 0 then score + c.weightFakeSeeder else score
  if fast ∧ c.numwantAbuse < a.numWant then score + c.weightNumwant else score

/-- Whether the score bans the source now. A ban suppresses further ones until the cooldown is over. -/
def crosses (c : Config) (client : Client) (now : UInt32) : Client × Bool :=
  if client.score < c.scoreBanThreshold then (client, false)
  else if now < client.bannedUntil then (client, false)
  else ({ client with bannedUntil := saturatingAdd now c.rebanCooldown }, true)

/-- Crossing into a ban starts its cooldown and changes nothing else. -/
theorem crosses_fst (c : Config) (client : Client) (now : UInt32) : (crosses c client now).1 =
    { client with
      bannedUntil := if (crosses c client now).2 then saturatingAdd now c.rebanCooldown else client.bannedUntil } := by
  by_cases hscore : client.score < c.scoreBanThreshold
  · rw [crosses, if_pos hscore]
    rfl
  · by_cases hbanned : now < client.bannedUntil
    · rw [crosses, if_neg hscore, if_pos hbanned]
      rfl
    · rw [crosses, if_neg hscore, if_neg hbanned]
      rfl

namespace Client

/-- What an announce does to its source, between `touch` and `crosses`. -/
def announce (c : Config) (a : AnnounceInfo) (now : UInt32) (client : Client) : Client :=
  let peer := peerFingerprint a.peerId
  let client := { client with connects := 0 }
  let (client, seen) := client.observe a now c.reannounceMinInterval peer
  let fast := decide (client.lastGap < c.fastAnnounceGap)
  let add := statelessScore c a fast
  let add := if seen.interval then add + c.weightInterval else add
  let add := if seen.keyChurn then add + c.weightKeyChurn else add
  let add := if seen.peerChurn then add + c.weightPeeridChurn else add
  let add := if !isKnownClient a.peerId then add + c.weightPeerid else add
  let (client, add) :=
    if fast ∧ a.swarmPeers ≤ 1 then
      let client := { client with emptySwarms := saturatingAdd client.emptySwarms 1 }
      (client, if c.emptySwarmThreshold < client.emptySwarms then add + c.weightEmptySwarm else add)
    else ({ client with emptySwarms := 0 }, add)
  let (client, add) :=
    if fast then
      let client := client.widen a.infoHash
      (client, if c.breadthThreshold ≤ countOnes client.breadth then add + c.weightBreadth else add)
    else (client, add)
  { client with score := saturatingAdd client.score add }

/-- What a connection-id mismatch does to its source. -/
def connidMismatch (c : Config) (client : Client) : Client :=
  { client with score := saturatingAdd client.score c.weightConnid }

/-- What a scrape of a number of info-hashes does to its source. -/
def scrape (c : Config) (hashes : Nat) (client : Client) : Client :=
  let client := { client with connects := 0 }
  if c.scrapeVolumeThreshold ≤ hashes then
    { client with score := saturatingAdd client.score c.weightScrapeVolume }
  else client

/-- What a connect does to its source. -/
def connect (c : Config) (client : Client) : Client :=
  let client := { client with connects := saturatingAdd client.connects 1 }
  if c.connectBurst < client.connects then
    { client with score := saturatingAdd client.score c.weightConnectSpam }
  else client

/-- Whether a connect counts as connect spam. -/
def connectSpam (c : Config) (client : Client) : Bool := c.connectBurst < saturatingAdd client.connects 1

end Client

section Events

variable (c : Config) (client : Client)

/-- **What a scrape does.** -/
theorem scrape_eq (hashes : Nat) : client.scrape c hashes =
    { client with
      connects := 0
      score := if c.scrapeVolumeThreshold ≤ hashes then saturatingAdd client.score c.weightScrapeVolume
        else client.score } := by
  simp only [Client.scrape]
  split_ifs <;> rfl

/-- **What a connect does.** -/
theorem connect_eq : client.connect c =
    { client with
      connects := saturatingAdd client.connects 1
      score := if client.connectSpam c then saturatingAdd client.score c.weightConnectSpam else client.score } := by
  simp only [Client.connect, Client.connectSpam, decide_eq_true_eq]
  split_ifs <;> rfl

end Events
end Bluefrog
