import Bluefrog.Core.Types
import Bluefrog.Lib.Integers
import Bluefrog.Lib.Sharded

/-!
The in-memory torrent store. Torrents are spread over 1024 shards by the top ten bits of the
info-hash; each torrent keeps one peer list a family, keyed by the compact peer. The two families
run the same code on peers of 6 and 18 bytes, so the operations take the family as a parameter and
the four entry points are their instances.

`seeders` counts entries of a table and is a natural number here, with truncated subtraction where
the source subtracts; `Store.Underflows` names the calls at which the two would differ.
-/

open Rust Sharded

namespace Bluefrog

def shardCount : Nat := 1024

/-- Minutes of inactivity after which a peer is dropped. -/
def peerTimeoutMinutes : UInt32 := 45

/-- Minutes of inactivity after which an empty torrent is collected. -/
def torrentTimeoutMinutes : UInt32 := 24 * 60

/-- The swarm counters of a torrent, over both families. -/
structure Counts where
  complete : UInt32
  incomplete : UInt32
  downloaded : UInt32
  deriving DecidableEq, Repr

def Counts.default : Counts := ⟨0, 0, 0⟩

/-- The totals over every tracked torrent. -/
structure Totals where
  torrents : UInt64
  seeders : UInt64
  leechers : UInt64
  deriving DecidableEq, Repr

structure PeerVal where
  flags : UInt8
  seen : UInt32
  deriving DecidableEq, Repr

/-- Whether a stored peer has the complete torrent. -/
def PeerVal.isSeed (v : PeerVal) : Bool := Flag.has v.flags Flag.seeding

theorem PeerVal.isSeed_eq (v : PeerVal) : v.isSeed = Flag.has v.flags Flag.seeding := rfl

/-- The peers of one family, by compact peer of `N` bytes. -/
structure PeerList (N : Nat) where
  peers : HashMap (Bytes N) PeerVal
  seeders : Nat
  downloaded : UInt64
  deriving DecidableEq

namespace PeerList

variable {N : Nat}

def new : PeerList N := ⟨∅, 0, 0⟩

def leechers (p : PeerList N) : Nat := p.peers.len - p.seeders

/-- The first rule of `announce`: a completed bit without the seeding bit is cleared. -/
def sanitize (flags : UInt8) : UInt8 :=
  if Flag.has flags Flag.completed && !Flag.has flags Flag.seeding then flags &&& ~~~Flag.completed
  else flags

/-- Adds or refreshes a peer. Once a peer is completed it stays so. -/
def announce (p : PeerList N) (key : Bytes N) (flags : UInt8) (now : UInt32) : PeerList N :=
  let flags := sanitize flags
  let isSeed := Flag.has flags Flag.seeding
  match p.peers.lookup key with
  | some old =>
      let wasSeed := Flag.has old.flags Flag.seeding
      { peers := p.peers.insert key ⟨flags ||| (old.flags &&& Flag.completed), now⟩
        seeders :=
          if isSeed && !wasSeed then p.seeders + 1
          else if !isSeed && wasSeed then p.seeders - 1
          else p.seeders
        downloaded :=
          if Flag.has flags Flag.completed && !Flag.has old.flags Flag.completed then p.downloaded + 1
          else p.downloaded }
  | none =>
      { peers := p.peers.insert key ⟨flags, now⟩
        seeders := if isSeed then p.seeders + 1 else p.seeders
        downloaded := if Flag.has flags Flag.completed then p.downloaded + 1 else p.downloaded }

/-- Removes a peer that stopped. -/
def remove (p : PeerList N) (key : Bytes N) : PeerList N :=
  match p.peers.lookup key with
  | some old =>
      { p with
        peers := p.peers.erase key
        seeders := if Flag.has old.flags Flag.seeding then p.seeders - 1 else p.seeders }
  | none => p

/-- One pass of `writeCompact`: the entries that seed or do not, while the budget lasts. -/
def writePass (wantSeed : Bool) : List ((_ : Bytes N) × PeerVal) → Nat × List UInt8 → Nat × List UInt8
  | [], acc => acc
  | e :: rest, (remaining, out) =>
      if remaining = 0 then (remaining, out)
      else if Flag.has e.2.flags Flag.seeding == wantSeed then
        writePass wantSeed rest (remaining - 1, out ++ e.1.toList)
      else writePass wantSeed rest (remaining, out)

/-- Appends up to `numwant` compact peers, leechers before seeders. -/
def writeCompact (order : HashOrder) (p : PeerList N) (numwant : Nat) (out : List UInt8) : List UInt8 :=
  let entries := order.toList p.peers
  (writePass true entries (writePass false entries (numwant, out))).2

/-- Drops the peers unseen for `timeout` minutes and recounts the seeders. -/
def expire (p : PeerList N) (now timeout : UInt32) : PeerList N :=
  let peers := p.peers.retain fun v => if saturatingSub now v.seen < timeout then some v else none
  { p with peers, seeders := peers.countVals fun v => Flag.has v.flags Flag.seeding }

end PeerList

/-- The address family of a peer. -/
inductive Family where
  | v4
  | v6
  deriving DecidableEq, Repr

/-- The length of a compact peer: the address and two bytes of port. -/
def Family.keyLen : Family → Nat
  | .v4 => 6
  | .v6 => 18

structure Torrent where
  v4 : PeerList 6
  v6 : PeerList 18
  base : UInt32
  deriving DecidableEq

namespace Torrent

def new : Torrent := ⟨.new, .new, 0⟩

/-- The peer list of a family. -/
def list (t : Torrent) : (f : Family) → PeerList f.keyLen
  | .v4 => t.v4
  | .v6 => t.v6

/-- Replaces the peer list of a family. -/
def setList (t : Torrent) : (f : Family) → PeerList f.keyLen → Torrent
  | .v4, p => { t with v4 := p }
  | .v6, p => { t with v6 := p }

def counts (t : Torrent) : Counts where
  complete := UInt32.ofNat (t.v4.seeders + t.v6.seeders)
  incomplete := UInt32.ofNat (t.v4.leechers + t.v6.leechers)
  downloaded := (t.v4.downloaded + t.v6.downloaded).toUInt32

def isEmpty (t : Torrent) : Bool :=
  t.v4.peers.len == 0 && t.v6.peers.len == 0 && t.v4.downloaded == 0 && t.v6.downloaded == 0

/-- The closure of `gc`: expires the peers, then drops the torrent if it is empty and long idle. -/
def sweep (now : UInt32) (t : Torrent) : Option Torrent :=
  let t := { t with
    v4 := t.v4.expire now peerTimeoutMinutes
    v6 := t.v6.expire now peerTimeoutMinutes }
  if t.isEmpty && decide (torrentTimeoutMinutes ≤ saturatingSub now t.base) then none else some t

/-- What an announce does to its torrent. -/
def withAnnounce (t : Torrent) (f : Family) (key : Bytes f.keyLen) (flags : UInt8) (now : UInt32) : Torrent :=
  let t := { t with base := now }
  t.setList f ((t.list f).announce key flags now)

/-- What a stop does to its torrent. -/
def withRemove (t : Torrent) (f : Family) (key : Bytes f.keyLen) (now : UInt32) : Torrent :=
  let t := { t with base := now }
  t.setList f ((t.list f).remove key)

@[simp] theorem list_setList (t : Torrent) (f : Family) (p : PeerList f.keyLen) :
    (t.setList f p).list f = p := by cases f <;> rfl

theorem list_setList_of_ne (t : Torrent) {f f' : Family} (h : f' ≠ f) (p : PeerList f.keyLen) :
    (t.setList f p).list f' = t.list f' := by
  cases f <;> cases f' <;> first | rfl | exact absurd rfl h

@[simp] theorem list_withBase (t : Torrent) (now : UInt32) (f : Family) :
    ({ t with base := now } : Torrent).list f = t.list f := by cases f <;> rfl

end Torrent

/-- The sharded torrent store. -/
structure Store where
  shards : Shards shardCount InfoHash Torrent

namespace Store

def new : Store := ⟨fun _ => ∅⟩

/-- The shard of an info-hash: its top ten bits. -/
def shardIndex (hash : InfoHash) : Fin shardCount :=
  ⟨beNat (hash.toList.take 4) / 2 ^ (32 - 10), by
    have h := beNat_lt (hash.toList.take 4)
    rw [List.length_take, hash.toList_length] at h
    exact Nat.div_lt_of_lt_mul h⟩

/-- The torrent tracked under an info-hash. -/
def get (s : Store) (hash : InfoHash) : Option Torrent := Sharded.get shardIndex s.shards hash

/-- Stores a torrent in the shard of its info-hash. -/
def put (s : Store) (hash : InfoHash) (t : Torrent) : Store :=
  ⟨setShard shardIndex s.shards hash ((s.shards (shardIndex hash)).insert hash t)⟩

def torrentCount (s : Store) : Nat := ((List.finRange shardCount).map fun i => (s.shards i).len).sum

/-- One torrent's share of the totals. -/
def addTotals (totals : Totals) (t : Torrent) : Totals :=
  { totals with
    seeders := totals.seeders + UInt64.ofNat (t.v4.seeders + t.v6.seeders)
    leechers := totals.leechers + UInt64.ofNat (t.v4.leechers + t.v6.leechers) }

/-- The totals, in a single pass over the store. -/
def totals (order : HashOrder) (s : Store) : Totals :=
  (List.finRange shardCount).foldl (fun totals i =>
    let shard := s.shards i
    let totals := { totals with torrents := totals.torrents + UInt64.ofNat shard.len }
    (order.toList shard).foldl (fun totals e => addTotals totals e.2) totals) ⟨0, 0, 0⟩

/-- Registers or refreshes a peer of a family. Returns the swarm counts and the output buffer, with
up to `numwant` compact peers of the family appended. -/
def announce (order : HashOrder) (s : Store) (f : Family) (hash : InfoHash) (key : Bytes f.keyLen)
    (flags : UInt8) (numwant : Nat) (now : UInt32) (peersOut : List UInt8) :
    Store × Counts × List UInt8 :=
  let t := ((s.get hash).getD Torrent.new).withAnnounce f key flags now
  (s.put hash t, t.counts, (t.list f).writeCompact order numwant peersOut)

def announceV4 (order : HashOrder) (s : Store) (hash : InfoHash) (key : Bytes 6) (flags : UInt8)
    (numwant : Nat) (now : UInt32) (peersOut : List UInt8) : Store × Counts × List UInt8 :=
  announce order s .v4 hash key flags numwant now peersOut

def announceV6 (order : HashOrder) (s : Store) (hash : InfoHash) (key : Bytes 18) (flags : UInt8)
    (numwant : Nat) (now : UInt32) (peersOut : List UInt8) : Store × Counts × List UInt8 :=
  announce order s .v6 hash key flags numwant now peersOut

/-- Removes a peer that stopped. An unknown torrent is not created and counts as zeros. -/
def remove (s : Store) (f : Family) (hash : InfoHash) (key : Bytes f.keyLen) (now : UInt32) :
    Store × Counts :=
  match s.get hash with
  | some t =>
      let t := t.withRemove f key now
      (s.put hash t, t.counts)
  | none => (s, Counts.default)

def removeV4 (s : Store) (hash : InfoHash) (key : Bytes 6) (now : UInt32) : Store × Counts :=
  remove s .v4 hash key now

def removeV6 (s : Store) (hash : InfoHash) (key : Bytes 18) (now : UInt32) : Store × Counts :=
  remove s .v6 hash key now

/-- The counts of a torrent; zeros if unknown. -/
def scrape (s : Store) (hash : InfoHash) : Counts :=
  match s.get hash with
  | some t => t.counts
  | none => Counts.default

/-- Expires stale peers and collects empty, long-idle torrents. -/
def gc (s : Store) (now : UInt32) : Store := ⟨fun i => (s.shards i).retain (Torrent.sweep now)⟩

end Store
end Bluefrog
