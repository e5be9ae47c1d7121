import Bluefrog.L7.Client
import Bluefrog.Lib.Sharded
import Mathlib.Data.List.MinMax

/-!
The behavioural detector: per-source state in a bounded sharded map, and a bounded registry of
offenders. An event runs in two sections, one under the lock of a shard and one under the lock of the
registry.
-/

open Rust Sharded

namespace Bluefrog

/-- How many entries are sampled to evict one from a full map. -/
def evictSample : Nat := 8

/-- The number of shards of the per-source map. -/
def detectorShards : Nat := 16

abbrev Ip := Bytes 16

abbrev ClientShard := HashMap Ip Client

inductive Verdict where
  | allow
  | ban (duration tier : UInt32)
  deriving DecidableEq

/-- The ban history of a source. -/
structure Offender where
  offenses : UInt32
  last : UInt32
  deriving DecidableEq

structure Detector where
  config : Config
  shards : Shards detectorShards Ip Client
  perShardCap : Nat
  offenders : HashMap Ip Offender

/-- Drops the oldest of the first few entries an iterator visits. -/
def evictOldest {V : Type} (order : HashOrder) (last : V → UInt32) (m : HashMap Ip V) : HashMap Ip V :=
  match ((order.toList m).take evictSample).argmin fun e => (last e.2).toNat with
  | some oldest => m.erase oldest.1
  | none => m

namespace Detector

def new (config : Config) : Detector where
  config
  shards := fun _ => ∅
  perShardCap := max (config.maxEntries / detectorShards) 1
  offenders := ∅

/-- The shard of a source: the last byte of its address. -/
def shardOf (ip : Ip) : Fin detectorShards := ⟨(ip.get 15).toNat % 16, Nat.mod_lt _ (by decide)⟩

variable (order : HashOrder)

/-- Inserts or gets a client, at a full shard evicting another, and decays its score. Returns the shard
without the changes to the client that the caller goes on to make. -/
def touch (c : Config) (perShardCap : Nat) (shard : ClientShard) (ip : Ip) (now : UInt32) : ClientShard × Client :=
  let firstSighting := decide (ip ∉ shard)
  let shard :=
    if ip ∉ shard ∧ perShardCap ≤ shard.len then evictOldest order Client.lastSeen shard else shard
  let client := (shard.lookup ip).getD (Client.new now)
  let client := client.decay now c.decayAmount c.decayInterval
  let client := if firstSighting then { client with lastGap := u32Max } else client
  (shard, client)

/-- The section under a shard's lock: touches the client, applies an event to it, and tells whether it is
to be banned. -/
def underShard (d : Detector) (ip : Ip) (now : UInt32) (event : Client → Client) : Detector × Bool :=
  let (shard, client) := touch order d.config d.perShardCap (d.shards (shardOf ip)) ip now
  let (client, ban) := crosses d.config (event client) now
  ({ d with shards := setShard shardOf d.shards ip (shard.insert ip client) }, ban)

/-- Counts an offence and returns the escalation tier. -/
def recordOffence (d : Detector) (ip : Ip) (now : UInt32) : Detector × UInt32 :=
  let reg :=
    if ip ∉ d.offenders ∧ d.config.maxOffenders ≤ d.offenders.len then
      evictOldest order Offender.last d.offenders
    else d.offenders
  let entry := (reg.lookup ip).getD ⟨0, 0⟩
  let offenses := saturatingAdd entry.offenses 1
  ({ d with offenders := reg.insert ip ⟨offenses, now⟩ },
    min (offenses - 1) (saturatingSub d.config.banTiers 1))

/-- The section under the registry's lock: turns a ban decision into a verdict. -/
def decide (d : Detector) (ip : Ip) (ban : Bool) (now : UInt32) : Detector × Verdict :=
  if ban then
    let (d, tier) := d.recordOffence order ip now
    (d, .ban d.config.banDuration tier)
  else (d, .allow)

def onAnnounce (d : Detector) (ip : Ip) (a : AnnounceInfo) (now : UInt32) : Detector × Verdict :=
  let (d, ban) := d.underShard order ip now (Client.announce d.config a now)
  d.decide order ip ban now

def onConnidMismatch (d : Detector) (ip : Ip) (now : UInt32) : Detector × Verdict :=
  let (d, ban) := d.underShard order ip now (Client.connidMismatch d.config)
  d.decide order ip ban now

def onScrape (d : Detector) (ip : Ip) (hashes : Nat) (now : UInt32) : Detector × Verdict :=
  let (d, ban) := d.underShard order ip now (Client.scrape d.config hashes)
  d.decide order ip ban now

def onConnect (d : Detector) (ip : Ip) (now : UInt32) : Detector × Verdict :=
  let (d, ban) := d.underShard order ip now (Client.connect d.config)
  d.decide order ip ban now

end Detector
end Bluefrog
