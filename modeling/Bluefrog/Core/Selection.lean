import Bluefrog.Core.StoreRuns

/-!
The peers an announce hands out. Two passes over the table share one budget: the first takes the leechers,
the second the seeders. In whatever order the table is visited, what is taken is a prefix of the leechers
followed by the seeders.
-/

open Rust

namespace Bluefrog
namespace PeerList

variable {N : Nat} {p : PeerList N}

/-- The list holds the peer, with the complete torrent. -/
def Seeds (p : PeerList N) (key : Bytes N) : Prop := ∃ v, p.peers.lookup key = some v ∧ v.isSeed = true

/-- The list holds the peer, without the complete torrent. -/
def Leeches (p : PeerList N) (key : Bytes N) : Prop := ∃ v, p.peers.lookup key = some v ∧ v.isSeed = false

theorem Seeds.not_leeches {key : Bytes N} (h : p.Seeds key) : ¬p.Leeches key := by
  obtain ⟨v, hv, hseed⟩ := h
  rintro ⟨v', hv', hleech⟩
  rw [hv] at hv'
  cases hv'
  rw [hseed] at hleech
  cases hleech

/-- A choice of peers to hand out: as many as asked for, leechers first, and no seeder while a leecher is left. -/
structure Selects (p : PeerList N) (numwant : Nat) (keys : List (Bytes N)) : Prop where
  length : keys.length = min numwant p.peers.len
  nodup : keys.Nodup
  stored : ∀ key ∈ keys, key ∈ p.peers
  leechers_first : keys.Pairwise fun key key' => ¬(p.Seeds key ∧ p.Leeches key')
  seeders_last : ∀ key ∈ keys, p.Seeds key → ∀ key', p.Leeches key' → key' ∈ keys

theorem mem_keysOf (order : HashOrder) (wantSeed : Bool) (key : Bytes N) :
    key ∈ keysOf wantSeed (order.toList p.peers) ↔ ∃ v, p.peers.lookup key = some v ∧ v.isSeed = wantSeed := by
  simp only [keysOf, List.mem_map, List.mem_filter, beq_iff_eq]
  constructor
  · rintro ⟨⟨key, v⟩, ⟨hmem, hseed⟩, rfl⟩
    refine ⟨v, ?_, hseed⟩
    rw [← Finmap.mem_entries_iff, ← order.coe_toList p.peers]
    exact Multiset.mem_coe.mpr hmem
  · rintro ⟨v, hv, hseed⟩
    rw [← Finmap.mem_entries_iff, ← order.coe_toList p.peers] at hv
    exact ⟨⟨key, v⟩, ⟨Multiset.mem_coe.mp hv, hseed⟩, rfl⟩

theorem length_compactKeys (order : HashOrder) : (p.compactKeys order).length = p.peers.len := by
  rw [(p.perm_compactKeys order).length_eq, List.length_map, ← Multiset.coe_card, order.coe_toList]
  rfl

/-- No leecher comes behind a seeder. -/
theorem pairwise_compactKeys (order : HashOrder) :
    (p.compactKeys order).Pairwise fun key key' => ¬(p.Seeds key ∧ p.Leeches key') := by
  rw [compactKeys, List.pairwise_append]
  refine ⟨?_, ?_, ?_⟩
  · refine List.Pairwise.imp_of_mem (fun {key _} hkey _ _ => ?_) (List.pairwise_of_forall fun _ _ => trivial)
    exact fun h => h.1.not_leeches ((mem_keysOf order false key).mp hkey)
  · refine List.Pairwise.imp_of_mem (fun {_ key'} _ hkey' _ => ?_) (List.pairwise_of_forall fun _ _ => trivial)
    have hseeds : p.Seeds key' := (mem_keysOf order true key').mp hkey'
    exact fun h => hseeds.not_leeches h.2
  · intro key hkey _ _ h
    exact h.1.not_leeches ((mem_keysOf order false key).mp hkey)

/-- The budget reaches a seeder only past all leechers. -/
theorem mem_take_compactKeys {order : HashOrder} {numwant : Nat} {key : Bytes N}
    (hmem : key ∈ (p.compactKeys order).take numwant) (hseeds : p.Seeds key) {key' : Bytes N} (h : p.Leeches key') :
    key' ∈ (p.compactKeys order).take numwant := by
  rw [compactKeys, List.take_append, List.mem_append] at hmem ⊢
  have hpast : key ∉ (keysOf false (order.toList p.peers)).take numwant := fun hleech =>
    hseeds.not_leeches ((mem_keysOf order false key).mp (List.mem_of_mem_take hleech))
  have hbudget : (keysOf false (order.toList p.peers)).length ≤ numwant := by
    by_contra hshort
    have hnone := hmem.resolve_left hpast
    rw [Nat.sub_eq_zero_of_le (by omega), List.take_zero] at hnone
    exact List.not_mem_nil hnone
  rw [List.take_of_length_le hbudget]
  exact .inl ((mem_keysOf order false key').mpr h)

theorem selects_take (order : HashOrder) (numwant : Nat) : p.Selects numwant ((p.compactKeys order).take numwant) where
  length := by rw [List.length_take, length_compactKeys]
  nodup := (p.nodup_compactKeys order).sublist (List.take_sublist _ _)
  stored key h := (p.mem_compactKeys order key).mp (List.mem_of_mem_take h)
  leechers_first := (pairwise_compactKeys order).sublist (List.take_sublist _ _)
  seeders_last _ hmem hseeds _ hleeches := mem_take_compactKeys hmem hseeds hleeches

end PeerList

namespace Store

/-- **What an announce hands out.** Behind what is in the buffer go the compact peers of a selection from the
list the announce leaves, which the selection does not change. -/
theorem announce_selects (order : HashOrder) (s : Store) (f : Family) (hash : InfoHash) (key : Bytes f.keyLen)
    (flags : UInt8) (numwant : Nat) (now : UInt32) (peersOut : List UInt8) :
    ∃ t keys, (s.announce order f hash key flags numwant now peersOut).1.get hash = some t ∧
      t.list f = (((s.get hash).getD Torrent.new).list f).announce key flags now ∧
      (s.announce order f hash key flags numwant now peersOut).2.2 = peersOut ++ keys.flatMap List.Vector.toList ∧
      (t.list f).Selects numwant keys ∧
      ∀ order' numwant' peersOut', (s.announce order' f hash key flags numwant' now peersOut').1 =
        (s.announce order f hash key flags numwant now peersOut).1 := by
  refine ⟨_, _, ?_, ?_, PeerList.writeCompact_eq _ order numwant peersOut, PeerList.selects_take order numwant,
    fun _ _ _ => rfl⟩
  · rw [announce, get_put, if_pos rfl]
  · exact Torrent.list_withAnnounce _ ⟨hash, f, key⟩ flags now

end Store
end Bluefrog
