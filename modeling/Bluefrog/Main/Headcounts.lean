import Bluefrog.Main.EmptySwarm
import Bluefrog.Main.Moments

/-!
What the counts of an answer count. What a peer has said follows it through the history, one call after the other;
the seeders and leechers that anybody is told of are the peers whose last word stands, by what it was.
-/

open Rust Tasks

namespace Bluefrog

open Udp

/-- What a call makes of the last word of a peer: when it was, and whether the peer had all of the torrent. -/
def Op.said (r : PeerRef) (last : Option (UInt32 × Bool)) : Op → Option (UInt32 × Bool)
  | .announce r' flags _ now _ => if r' = r then some (now, Flag.has flags Flag.seeding) else last
  | .remove r' _ => if r' = r then none else last
  | .gc now => last.filter fun word => saturatingSub now word.1 < peerTimeoutMinutes

/-- The last word of a peer after a history, if it still stands. -/
def lastWord (ops : List Op) (r : PeerRef) : Option (UInt32 × Bool) := ops.foldl (fun last op => op.said r last) none

/-- The counts are those of the peers whose last word stands, in 32 bits. -/
def Headcount (ops : List Op) (hash : InfoHash) (c : Counts) : Prop :=
  ∃ seeders leechers : Finset PeerRef,
    (∀ r, r ∈ seeders ↔ r.hash = hash ∧ ∃ t, lastWord ops r = some (t, true)) ∧
    (∀ r, r ∈ leechers ↔ r.hash = hash ∧ ∃ t, lastWord ops r = some (t, false)) ∧
    c.complete = UInt32.ofNat seeders.card ∧ c.incomplete = UInt32.ofNat leechers.card

theorem lastWord_append_singleton (ops : List Op) (op : Op) (r : PeerRef) :
    lastWord (ops ++ [op]) r = op.said r (lastWord ops r) := List.foldl_concat _ _ _ _

namespace Store

/-- What the store keeps of a peer. -/
def wordOf (s : Store) (r : PeerRef) : Option (UInt32 × Bool) := (s.peer r).map fun v => (v.seen, v.isSeed)

theorem wordOf_step (order : HashOrder) (s : Store) (op : Op) (r : PeerRef) :
    (s.step order op).wordOf r = op.said r (s.wordOf r) := by
  cases op with
  | announce r' flags numwant now peersOut =>
      rw [wordOf, peer_announce, Op.said]
      by_cases hr : r' = r
      · rw [if_pos hr, if_pos hr.symm, Option.map_some, PeerVal.isSeed_eq, PeerList.has_seeding_mergedFlags]
      · rw [if_neg hr, if_neg (Ne.symm hr), wordOf]
  | remove r' now =>
      rw [wordOf, peer_remove, Op.said]
      by_cases hr : r' = r
      · rw [if_pos hr, if_pos hr.symm, Option.map_none]
      · rw [if_neg hr, if_neg (Ne.symm hr), wordOf]
  | gc now =>
      change (s.gc now).wordOf r = _
      rw [wordOf, peer_gc, Op.said, wordOf]
      cases s.peer r with
      | none => rfl
      | some v =>
          rw [Option.bind_some, Option.map_some, Option.filter_some]
          simp only [decide_eq_true_eq]
          split_ifs <;> rfl

/-- The store keeps the last word of every peer. -/
theorem wordOf_run (order : HashOrder) (ops : List Op) (r : PeerRef) : (run order ops).wordOf r = lastWord ops r := by
  induction ops using List.reverseRecOn with
  | nil =>
      rw [run, List.foldl_nil, wordOf, peer, get_new]
      rfl
  | append_singleton ops op ih => rw [run_append_singleton, wordOf_step, lastWord_append_singleton, ih]

/-- The peers of a torrent whose last word is one or the other. -/
theorem exists_finset_swarm (s : Store) (hash : InfoHash) (all : Bool) : ∃ rs : Finset PeerRef,
    (∀ r, r ∈ rs ↔ r.hash = hash ∧ ∃ t, s.wordOf r = some (t, all)) ∧
      rs.card = (s.swarm hash).countP fun e => e.2.isSeed = all := by
  have hnodup : (((s.swarm hash).filter fun e => e.2.isSeed = all).map Prod.fst).Nodup := by
    refine Multiset.Nodup.map_on ?_ ((nodup_swarm s hash).filter _)
    intro ⟨r, v⟩ hv ⟨r', v'⟩ hv' heq
    cases heq
    rw [Multiset.mem_filter, mem_swarm] at hv hv'
    cases Option.some.inj (hv.1.2.symm.trans hv'.1.2)
    rfl
  refine ⟨⟨_, hnodup⟩, fun r => ?_, ?_⟩
  · rw [Finset.mem_mk, Multiset.mem_map]
    constructor
    · rintro ⟨⟨r', v⟩, hmem, rfl⟩
      rw [Multiset.mem_filter, mem_swarm] at hmem
      exact ⟨hmem.1.1, v.seen, by rw [wordOf, hmem.1.2, Option.map_some, hmem.2]⟩
    · rintro ⟨hhash, t, hword⟩
      obtain ⟨v, hv, heq⟩ := Option.map_eq_some_iff.mp hword
      refine ⟨(r, v), ?_, rfl⟩
      rw [Multiset.mem_filter, mem_swarm]
      exact ⟨⟨hhash, hv⟩, congrArg Prod.snd heq⟩
  · rw [Finset.card_mk, Multiset.card_map, Multiset.countP_eq_card_filter]

/-- A scrape counts the peers whose last word stands. -/
theorem headcount_scrape (order : HashOrder) (ops : List Op) (hash : InfoHash) :
    Headcount ops hash ((run order ops).scrape hash) := by
  obtain ⟨hcomplete, hincomplete⟩ := scrape_eq_recount (counted_run order ops) hash
  obtain ⟨seeders, hseeders, hseed⟩ := exists_finset_swarm (run order ops) hash true
  obtain ⟨leechers, hleechers, hleech⟩ := exists_finset_swarm (run order ops) hash false
  refine ⟨seeders, leechers, ?_, ?_, ?_, ?_⟩
  · simpa only [wordOf_run] using hseeders
  · simpa only [wordOf_run] using hleechers
  · rw [hcomplete, recount_eq, hseed]
  · rw [hincomplete, recount_eq, hleech]
    simp only [Bool.not_eq_true']

end Store

namespace Daemon

variable {n : Nat} {lib : Libraries} {sh : Shared}

/-- The counts are a headcount of a torrent at some moment in the course of a log, after an event. -/
def Counted (e : Event) (past : List Event) (hash : InfoHash) (c : Counts) : Prop :=
  ∃ before, before <+: past ∧ e ∈ before ∧ Headcount (opsOf before) hash c

theorem headcount_storeAfter (log : List Event) (hash : InfoHash) :
    Headcount (opsOf log) hash ((storeAfter log).scrape hash) :=
  Store.headcount_scrape HashOrder.arbitrary (opsOf log) hash

theorem Reads.counted {e : Event} {past : List Event} {hashes : List InfoHash} {counts : List Counts}
    (h : Reads e past hashes counts) : List.Forall₂ (Counted e past) hashes counts := by
  induction h with
  | nil => exact .nil
  | read after hash h hevent ih =>
      refine List.rel_append (ih.imp fun hash c => ?_) (.cons ⟨_, List.prefix_append _ _, hevent, ?_⟩ .nil)
      · rintro ⟨before, hpre, hmem, hcount⟩
        exact ⟨before, hpre.trans (List.prefix_append _ _), hmem, hcount⟩
      · exact headcount_storeAfter _ hash

end Daemon
end Bluefrog
