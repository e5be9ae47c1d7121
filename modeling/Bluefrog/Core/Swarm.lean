import Bluefrog.Core.Counters

/-!
The peers of a torrent, of both families together, and those of them that are not a given one. A call
about one peer leaves the others as they were.
-/

open Rust

namespace Bluefrog

/-- The entries of a family, as the store addresses them. -/
def Torrent.entriesOf (t : Torrent) (hash : InfoHash) (f : Family) : Multiset (PeerRef × PeerVal) :=
  (t.list f).peers.entries.map fun e => (⟨hash, f, e.1⟩, e.2)

namespace Store

/-- The peers of a torrent, of both families. -/
def swarm (s : Store) (hash : InfoHash) : Multiset (PeerRef × PeerVal) :=
  match s.get hash with
  | some t => t.entriesOf hash .v4 + t.entriesOf hash .v6
  | none => 0

/-- The peers of a torrent, but for one entry. -/
def others (s : Store) (r : PeerRef) : Multiset (PeerRef × PeerVal) := (s.swarm r.hash).filter fun e => e.1 ≠ r

theorem mem_entriesOf (t : Torrent) (hash : InfoHash) (f : Family) (r : PeerRef) (v : PeerVal) :
    (r, v) ∈ t.entriesOf hash f ↔ r.hash = hash ∧ r.family = f ∧ (t.list r.family).peers.lookup r.key = some v := by
  rw [Torrent.entriesOf, Multiset.mem_map]
  constructor
  · rintro ⟨⟨key, v'⟩, hmem, heq⟩
    cases heq
    exact ⟨rfl, rfl, (Finmap.mem_entries_iff _ _ _).mp hmem⟩
  · rintro ⟨rfl, rfl, hlookup⟩
    exact ⟨⟨r.key, v⟩, (Finmap.mem_entries_iff _ _ _).mpr hlookup, rfl⟩

theorem mem_swarm (s : Store) (hash : InfoHash) (r : PeerRef) (v : PeerVal) :
    (r, v) ∈ s.swarm hash ↔ r.hash = hash ∧ s.peer r = some v := by
  rw [swarm, peer]
  by_cases hh : r.hash = hash
  · subst hh
    cases s.get r.hash with
    | none => simp
    | some t =>
        have hfamily : r.family = .v4 ∨ r.family = .v6 := by
          cases r.family with
          | v4 => exact .inl rfl
          | v6 => exact .inr rfl
        simp only [Multiset.mem_add, mem_entriesOf, true_and, Option.bind_some, ← or_and_right, hfamily]
  · cases s.get hash with
    | none => simp [hh]
    | some t => simp only [Multiset.mem_add, mem_entriesOf, hh, false_and, or_false]

theorem nodup_entriesOf (t : Torrent) (hash : InfoHash) (f : Family) : (t.entriesOf hash f).Nodup := by
  refine Multiset.Nodup.map ?_ (t.list f).peers.nodup_entries
  intro ⟨key, v⟩ ⟨key', v'⟩ h
  cases h
  rfl

theorem nodup_swarm (s : Store) (hash : InfoHash) : (s.swarm hash).Nodup := by
  unfold swarm
  cases s.get hash with
  | none => exact Multiset.nodup_zero
  | some t =>
      refine (Multiset.nodup_add.mpr ⟨nodup_entriesOf t hash .v4, nodup_entriesOf t hash .v6, ?_⟩)
      rw [Multiset.disjoint_left]
      intro ⟨r, v⟩ h4 h6
      rw [mem_entriesOf] at h4 h6
      exact absurd (h4.2.1.symm.trans h6.2.1) (by decide)

/-- The recount of a torrent counts its swarm. -/
theorem recount_eq (s : Store) (hash : InfoHash) : s.recount hash =
    ((s.swarm hash).countP fun e => e.2.isSeed, (s.swarm hash).countP fun e => !e.2.isSeed) := by
  rw [recount, swarm]
  cases s.get hash with
  | none => rfl
  | some t =>
      simp only [Multiset.countP_add, Torrent.entriesOf, Multiset.countP_map, ← Multiset.countP_eq_card_filter]
      rfl

/-- The swarm is the others and, if it is there, the entry itself. -/
theorem swarm_eq_others (s : Store) (r : PeerRef) : s.swarm r.hash =
    match s.peer r with
    | some v => (r, v) ::ₘ s.others r
    | none => s.others r := by
  have hself : (s.swarm r.hash).filter (fun e => ¬e.1 ≠ r) =
      match s.peer r with
      | some v => {(r, v)}
      | none => 0 := by
    cases hpeer : s.peer r with
    | none =>
        refine Multiset.filter_eq_nil.mpr ?_
        intro ⟨r', v⟩ hmem hself
        have hr : r' = r := not_not.mp hself
        rw [mem_swarm, hr, hpeer] at hmem
        cases hmem.2
    | some v =>
        refine (Multiset.Nodup.ext ((nodup_swarm s r.hash).filter _) (Multiset.nodup_singleton _)).mpr ?_
        intro ⟨r', v'⟩
        rw [Multiset.mem_filter, mem_swarm, Multiset.mem_singleton, not_not]
        constructor
        · rintro ⟨⟨-, h⟩, rfl⟩
          rw [hpeer] at h
          cases h
          rfl
        · intro h
          cases h
          exact ⟨⟨rfl, hpeer⟩, rfl⟩
  rw [← Multiset.filter_add_not (fun e => e.1 ≠ r) (s.swarm r.hash), hself]
  cases s.peer r with
  | none => exact add_zero _
  | some v => rw [add_comm]; rfl

/-- Where every other peer is as it was, so are the others. -/
theorem others_congr {s s' : Store} {r : PeerRef} (h : ∀ r', r' ≠ r → s'.peer r' = s.peer r') :
    s'.others r = s.others r := by
  refine (Multiset.Nodup.ext ((nodup_swarm s' r.hash).filter _) ((nodup_swarm s r.hash).filter _)).mpr ?_
  intro ⟨r', v⟩
  rw [Multiset.mem_filter, Multiset.mem_filter, mem_swarm, mem_swarm]
  refine and_congr_left fun hne => ?_
  rw [h r' hne]

end Store
end Bluefrog
