import Bluefrog.Core.StoreRuns

/-!
The counters of the store. Each peer list caches its number of seeders; every operation keeps the
cache equal to a recount, so the subtractions never underflow and every reported count is exact.
The sharded store is compared with one flat table of torrents that runs the same operations.
-/

open Rust Sharded

namespace Bluefrog

namespace PeerList

variable {N : Nat} {p : PeerList N}

/-- The cached number of seeders is the number of stored peers that seed. -/
def Counted (p : PeerList N) : Prop := p.seeders = p.peers.countVals PeerVal.isSeed

theorem counted_new : (new : PeerList N).Counted := rfl

theorem counted_announce (h : p.Counted) (key : Bytes N) (flags : UInt8) (now : UInt32) :
    (p.announce key flags now).Counted := by
  unfold Counted at h
  rw [Counted, peers_announce, Finmap.countVals_insert]
  cases hold : p.peers.lookup key with
  | none =>
      simp only [announce, mergedFlags, hold, PeerVal.isSeed_eq, Finmap.erase_of_lookup_none hold]
      split_ifs <;> omega
  | some old =>
      have hcount := Finmap.countVals_of_lookup PeerVal.isSeed hold
      simp only [announce, mergedFlags, hold, PeerVal.isSeed_eq, Flag.has_seeding_or_completed] at hcount ⊢
      cases Flag.has (sanitize flags) Flag.seeding <;> cases hseed : Flag.has old.flags Flag.seeding <;>
        simp only [hseed, Bool.not_true, Bool.not_false, Bool.and_true, Bool.and_false, if_true, if_false,
          Bool.false_eq_true] at hcount ⊢ <;> omega

theorem counted_remove (h : p.Counted) (key : Bytes N) : (p.remove key).Counted := by
  unfold Counted at h
  rw [Counted, peers_remove]
  cases hold : p.peers.lookup key with
  | none => simp only [remove, hold, Finmap.erase_of_lookup_none hold, h]
  | some old =>
      have hcount := Finmap.countVals_of_lookup PeerVal.isSeed hold
      simp only [remove, hold, PeerVal.isSeed_eq] at hcount ⊢
      cases hseed : Flag.has old.flags Flag.seeding <;>
        simp only [hseed, if_true, if_false, Bool.false_eq_true] at hcount ⊢ <;> omega

theorem counted_expire (p : PeerList N) (now timeout : UInt32) : (p.expire now timeout).Counted := rfl

theorem Counted.leechers (h : p.Counted) : p.leechers = p.peers.countVals fun v => !v.isSeed := by
  have hsplit := Finmap.countVals_add_countVals_not PeerVal.isSeed p.peers
  rw [PeerList.leechers, show p.seeders = _ from h]
  omega

/-- The subtraction in `leechers` is below zero. -/
def LeechersUnderflows (p : PeerList N) : Prop := p.peers.len < p.seeders

/-- An announce reaches `seeders -= 1` with no seeder counted. -/
def AnnounceUnderflows (p : PeerList N) (key : Bytes N) (flags : UInt8) : Prop :=
  ∃ old, p.peers.lookup key = some old ∧ Flag.has (sanitize flags) Flag.seeding = false ∧
    Flag.has old.flags Flag.seeding = true ∧ p.seeders < 1

/-- A removal reaches `seeders -= 1` with no seeder counted. -/
def RemoveUnderflows (p : PeerList N) (key : Bytes N) : Prop :=
  ∃ old, p.peers.lookup key = some old ∧ Flag.has old.flags Flag.seeding = true ∧ p.seeders < 1

theorem Counted.not_leechersUnderflows (h : p.Counted) : ¬p.LeechersUnderflows := by
  have hsplit := Finmap.countVals_add_countVals_not PeerVal.isSeed p.peers
  rw [LeechersUnderflows, show p.seeders = _ from h]
  omega

/-- A stored seeder is counted. -/
theorem Counted.seeders_pos (h : p.Counted) {key : Bytes N} {old : PeerVal}
    (hold : p.peers.lookup key = some old) (hseed : Flag.has old.flags Flag.seeding = true) :
    0 < p.seeders := by
  have hcount := Finmap.countVals_of_lookup PeerVal.isSeed hold
  rw [PeerVal.isSeed, if_pos hseed] at hcount
  rw [show p.seeders = _ from h]
  omega

theorem Counted.not_announceUnderflows (h : p.Counted) (key : Bytes N) (flags : UInt8) :
    ¬p.AnnounceUnderflows key flags := by
  rintro ⟨old, hold, -, hseed, hlt⟩
  have := h.seeders_pos hold hseed
  omega

theorem Counted.not_removeUnderflows (h : p.Counted) (key : Bytes N) : ¬p.RemoveUnderflows key := by
  intro ⟨old, hold, hseed, hlt⟩
  have := h.seeders_pos hold hseed
  omega

end PeerList

namespace Torrent

def Counted (t : Torrent) : Prop := ∀ f, (t.list f).Counted

/-- The stored seeders of both families. -/
def seedCount (t : Torrent) : Nat := t.v4.peers.countVals PeerVal.isSeed + t.v6.peers.countVals PeerVal.isSeed

/-- The stored leechers of both families. -/
def leechCount (t : Torrent) : Nat :=
  t.v4.peers.countVals (fun v => !v.isSeed) + t.v6.peers.countVals fun v => !v.isSeed

theorem counted_new : new.Counted := fun f => by cases f <;> exact PeerList.counted_new

theorem Counted.withAnnounce {t : Torrent} (h : t.Counted) (r : PeerRef) (flags : UInt8) (now : UInt32) :
    (t.withAnnounce r.family r.key flags now).Counted := by
  intro f
  by_cases hf : f = r.family
  · subst hf
    rw [list_withAnnounce]
    exact PeerList.counted_announce (h _) _ _ _
  · rw [list_withAnnounce_of_ne _ _ _ _ hf]
    exact h f

theorem Counted.withRemove {t : Torrent} (h : t.Counted) (r : PeerRef) (now : UInt32) :
    (t.withRemove r.family r.key now).Counted := by
  intro f
  by_cases hf : f = r.family
  · subst hf
    rw [list_withRemove]
    exact PeerList.counted_remove (h _) _
  · rw [list_withRemove_of_ne _ _ _ hf]
    exact h f

theorem counted_of_sweep {t t' : Torrent} {now : UInt32} (h : sweep now t = some t') : t'.Counted := by
  intro f
  rw [sweep_eq_some h]
  exact PeerList.counted_expire _ _ _

theorem Counted.seeders {t : Torrent} (h : t.Counted) : t.v4.seeders + t.v6.seeders = t.seedCount :=
  congrArg₂ _ (h .v4) (h .v6)

theorem Counted.leechers {t : Torrent} (h : t.Counted) : t.v4.leechers + t.v6.leechers = t.leechCount :=
  congrArg₂ _ (h .v4).leechers (h .v6).leechers

end Torrent

/-- The reported counts are the given numbers of seeders and leechers. -/
def Counts.Reports (c : Counts) (n : Nat × Nat) : Prop :=
  c.complete.toNat = n.1 ∧ c.incomplete.toNat = n.2

/-- A torrent reports its peers, counted in 32 bits. -/
theorem Torrent.Counted.counts {t : Torrent} (h : t.Counted) :
    t.counts.complete = UInt32.ofNat t.seedCount ∧ t.counts.incomplete = UInt32.ofNat t.leechCount := by
  rw [Torrent.counts, h.seeders, h.leechers]
  exact ⟨rfl, rfl⟩

/-- The counts a torrent reports are exact while its peers fit the counters. -/
theorem Torrent.Counted.reports {t : Torrent} (h : t.Counted) (hfit : t.seedCount + t.leechCount < 2 ^ 32) :
    t.counts.Reports (t.seedCount, t.leechCount) := by
  constructor
  · rw [h.counts.1]
    exact UInt32.toNat_ofNat_of_lt' (by change _ < 2 ^ 32; omega)
  · rw [h.counts.2]
    exact UInt32.toNat_ofNat_of_lt' (by change _ < 2 ^ 32; omega)

/-- The flat store the sharded one is compared with: one table of torrents. -/
abbrev FlatStore := HashMap InfoHash Torrent

namespace FlatStore

def exec (order : HashOrder) (m : FlatStore) : Op → FlatStore × Reply
  | .announce r flags numwant now peersOut =>
      let t := ((m.lookup r.hash).getD Torrent.new).withAnnounce r.family r.key flags now
      (m.insert r.hash t, ⟨some t.counts, (t.list r.family).writeCompact order numwant peersOut⟩)
  | .remove r now =>
      match m.lookup r.hash with
      | some t =>
          let t := t.withRemove r.family r.key now
          (m.insert r.hash t, ⟨some t.counts, []⟩)
      | none => (m, ⟨some Counts.default, []⟩)
  | .gc now => (m.retain (Torrent.sweep now), ⟨none, []⟩)

def run (order : HashOrder) (ops : List Op) : FlatStore := ops.foldl (fun m op => (exec order m op).1) ∅

def scrape (m : FlatStore) (hash : InfoHash) : Counts :=
  match m.lookup hash with
  | some t => t.counts
  | none => Counts.default

end FlatStore

namespace Store

/-- The call reaches a subtraction that the source would carry below zero. -/
def Underflows (s : Store) : Op → Prop
  | .announce r flags _ now _ =>
      let t := (s.get r.hash).getD Torrent.new
      (t.list r.family).AnnounceUnderflows r.key flags ∨
        ∃ f, ((t.withAnnounce r.family r.key flags now).list f).LeechersUnderflows
  | .remove r now => ∃ t, s.get r.hash = some t ∧
      ((t.list r.family).RemoveUnderflows r.key ∨
        ∃ f, ((t.withRemove r.family r.key now).list f).LeechersUnderflows)
  | .gc _ => False

/-- The stored seeders and leechers of a torrent, counted one by one. -/
def recount (s : Store) (hash : InfoHash) : Nat × Nat :=
  match s.get hash with
  | some t => (t.seedCount, t.leechCount)
  | none => (0, 0)

/-- The sharded store holds what the flat one holds. -/
def Refines (s : Store) (m : FlatStore) : Prop :=
  ∃ h : WellRouted shardIndex s.shards, flat shardIndex s.shards h = m

theorem Refines.get_eq {s : Store} {m : FlatStore} (h : s.Refines m) (hash : InfoHash) :
    s.get hash = m.lookup hash := by
  obtain ⟨hrouted, rfl⟩ := h
  exact (lookup_flat shardIndex hrouted hash).symm

theorem refines_new : new.Refines ∅ := by
  have hrouted : WellRouted shardIndex new.shards := wellRouted_empty shardIndex
  refine ⟨hrouted, Finmap.ext_lookup fun hash => ?_⟩
  rw [lookup_flat shardIndex hrouted hash, Finmap.lookup_empty]
  exact get_new hash

theorem Refines.put {s : Store} {m : FlatStore} (h : s.Refines m) (hash : InfoHash) (t : Torrent) :
    (s.put hash t).Refines (m.insert hash t) := by
  obtain ⟨hrouted, rfl⟩ := h
  exact ⟨hrouted.insert shardIndex hash t, flat_setShard_insert shardIndex hrouted hash t⟩

theorem Refines.gc {s : Store} {m : FlatStore} (h : s.Refines m) (now : UInt32) :
    (s.gc now).Refines (m.retain (Torrent.sweep now)) := by
  obtain ⟨hrouted, rfl⟩ := h
  exact ⟨hrouted.retain shardIndex _, flat_retain shardIndex hrouted _⟩

/-- Each call keeps the refinement and returns what the flat store returns. -/
theorem Refines.exec {s : Store} {m : FlatStore} (h : s.Refines m) (order : HashOrder) (op : Op) :
    (s.exec order op).1.Refines (FlatStore.exec order m op).1 ∧
      (s.exec order op).2 = (FlatStore.exec order m op).2 := by
  cases op with
  | announce r flags numwant now peersOut =>
      simp only [Store.exec, FlatStore.exec, announce, h.get_eq]
      exact ⟨h.put _ _, trivial⟩
  | remove r now =>
      simp only [Store.exec, FlatStore.exec, remove, h.get_eq]
      cases m.lookup r.hash with
      | none => exact ⟨h, rfl⟩
      | some t => exact ⟨h.put _ _, rfl⟩
  | gc now => exact ⟨h.gc now, rfl⟩

theorem refines_run (order : HashOrder) (ops : List Op) :
    (run order ops).Refines (FlatStore.run order ops) := by
  induction ops using List.reverseRecOn with
  | nil => exact refines_new
  | append_singleton ops op ih =>
      rw [run_append_singleton, FlatStore.run, List.foldl_concat]
      exact (ih.exec order op).1

theorem counted_run (order : HashOrder) (ops : List Op) (hash : InfoHash) (t : Torrent)
    (h : (run order ops).get hash = some t) : t.Counted :=
  run_invariant order Torrent.counted_new (fun _ r flags now ht => ht.withAnnounce r flags now)
    (fun _ r now ht => ht.withRemove r now) (fun _ _ _ hsw _ => Torrent.counted_of_sweep hsw) ops hash t h

/-- The store after one more call is again the store of a run. -/
theorem counted_step (order order' : HashOrder) (ops : List Op) (op : Op) (hash : InfoHash) (t : Torrent)
    (h : ((run order ops).step order' op).get hash = some t) : t.Counted := by
  refine counted_run order (ops ++ [op]) hash t ?_
  rw [run_append_singleton]
  rw [get_step] at h ⊢
  exact h

section Totals

theorem foldl_addTotals (order : HashOrder) (m : FlatStore) (totals : Totals) :
    (order.toList m).foldl (fun totals e => addTotals totals e.2) totals =
      ⟨totals.torrents, totals.seeders + UInt64.ofNat (m.sumVals fun t => t.v4.seeders + t.v6.seeders),
        totals.leechers + UInt64.ofNat (m.sumVals fun t => t.v4.leechers + t.v6.leechers)⟩ := by
  simp only [Finmap.sumVals, ← order.coe_toList m, Multiset.map_coe, Multiset.sum_coe]
  induction order.toList m generalizing totals with
  | nil => simp
  | cons e entries ih =>
      rw [List.foldl_cons, ih, addTotals]
      simp only [List.map_cons, List.sum_cons, UInt64.ofNat_add, UInt64.add_assoc]

/-- The pass over the shards adds up the cached counters of every torrent. -/
theorem Refines.totals_eq {s : Store} {m : FlatStore} (h : s.Refines m) (order : HashOrder) :
    s.totals order = ⟨UInt64.ofNat m.len,
      UInt64.ofNat (m.sumVals fun t => t.v4.seeders + t.v6.seeders),
      UInt64.ofNat (m.sumVals fun t => t.v4.leechers + t.v6.leechers)⟩ := by
  have hfold : ∀ (l : List (Fin shardCount)) (totals : Totals),
      l.foldl (fun totals i =>
        let shard := s.shards i
        let totals := { totals with torrents := totals.torrents + UInt64.ofNat shard.len }
        (order.toList shard).foldl (fun totals e => addTotals totals e.2) totals) totals =
      ⟨totals.torrents + UInt64.ofNat (l.map fun i => (s.shards i).len).sum,
        totals.seeders +
          UInt64.ofNat (l.map fun i => (s.shards i).sumVals fun t => t.v4.seeders + t.v6.seeders).sum,
        totals.leechers +
          UInt64.ofNat (l.map fun i => (s.shards i).sumVals fun t => t.v4.leechers + t.v6.leechers).sum⟩ := by
    intro l
    induction l with
    | nil => intro totals; simp
    | cons i l ih =>
        intro totals
        rw [List.foldl_cons, ih]
        simp only [foldl_addTotals, List.map_cons, List.sum_cons, UInt64.ofNat_add, UInt64.add_assoc]
  obtain ⟨hrouted, rfl⟩ := h
  simp only [totals, hfold, len_flat, sumVals_flat, Fin.sum_univ_def, UInt64.zero_add]

end Totals

/-- What is exact about a store that holds what the flat store `m` holds. -/
structure Accounted (s : Store) (m : FlatStore) : Prop where
  /-- The cached seeders of every list are its recounted seeders. -/
  seeders_exact : ∀ hash t f, s.get hash = some t →
    (t.list f).seeders = (t.list f).peers.countVals PeerVal.isSeed
  /-- No call reaches a subtraction below zero, nor do a scrape or the totals. -/
  no_underflow : (∀ op, ¬s.Underflows op) ∧
    ∀ hash t f, s.get hash = some t → ¬(t.list f).LeechersUnderflows
  /-- The counts that an announce or a removal returns are a recount of the store it leaves. -/
  replies_exact : ∀ order op r, (∃ flags numwant now peersOut, op = .announce r flags numwant now peersOut) ∨
      (∃ now, op = .remove r now) →
    ((s.step order op).recount r.hash).1 + ((s.step order op).recount r.hash).2 < 2 ^ 32 →
      ∃ c, (s.exec order op).2.counts = some c ∧ c.Reports ((s.step order op).recount r.hash)
  scrape_exact : ∀ hash, (s.recount hash).1 + (s.recount hash).2 < 2 ^ 32 →
    (s.scrape hash).Reports (s.recount hash)
  /-- The totals are the number of distinct torrents and the sums of the recounts. -/
  totals_exact : ∀ order, s.totals order =
    ⟨UInt64.ofNat m.len, UInt64.ofNat (m.sumVals Torrent.seedCount), UInt64.ofNat (m.sumVals Torrent.leechCount)⟩
  torrentCount_exact : s.torrentCount = m.len
  /-- A torrent is stored in the shard of its info-hash and in no other. -/
  routed : ∀ i hash, hash ∈ s.shards i ↔ i = shardIndex hash ∧ hash ∈ m
  /-- Every query is answered as the flat store answers it. -/
  answers : (∀ hash, s.get hash = m.lookup hash ∧ s.scrape hash = m.scrape hash) ∧
    ∀ order op, (s.exec order op).2 = (m.exec order op).2

theorem recount_of_get {s : Store} {hash : InfoHash} {t : Torrent} (h : s.get hash = some t) :
    s.recount hash = (t.seedCount, t.leechCount) := by rw [recount, h]

/-- A scrape reports the recount of the torrent, in 32 bits. -/
theorem scrape_eq_recount {s : Store} (hs : ∀ hash t, s.get hash = some t → t.Counted) (hash : InfoHash) :
    (s.scrape hash).complete = UInt32.ofNat (s.recount hash).1 ∧
      (s.scrape hash).incomplete = UInt32.ofNat (s.recount hash).2 := by
  cases hget : s.get hash with
  | none =>
      rw [scrape, recount, hget]
      exact ⟨rfl, rfl⟩
  | some t =>
      rw [scrape, recount, hget]
      exact (hs hash t hget).counts

theorem scrape_reports {s : Store} (hs : ∀ hash t, s.get hash = some t → t.Counted) (hash : InfoHash)
    (hfit : (s.recount hash).1 + (s.recount hash).2 < 2 ^ 32) :
    (s.scrape hash).Reports (s.recount hash) := by
  cases hget : s.get hash with
  | none => simp [scrape, recount, hget, Counts.Reports, Counts.default]
  | some t =>
      rw [recount_of_get hget] at hfit ⊢
      rw [scrape, hget]
      exact (hs hash t hget).reports hfit

/-- **The counters of every run are exact.** -/
theorem run_accounted (order : HashOrder) (ops : List Op) :
    (run order ops).Accounted (FlatStore.run order ops) := by
  have hcounted := counted_run order ops
  have href := refines_run order ops
  have hgetD : ∀ hash, ((run order ops).get hash).getD Torrent.new |>.Counted := by
    intro hash
    cases hget : (run order ops).get hash with
    | none => exact Torrent.counted_new
    | some t => exact hcounted hash t hget
  refine ⟨fun hash t f h => hcounted hash t h f, ⟨?_, ?_⟩, ?_, scrape_reports hcounted, ?_, ?_, ?_, ?_⟩
  · intro op hop
    cases op with
    | announce r flags numwant now peersOut =>
        rcases hop with h | ⟨f, h⟩
        · exact (hgetD r.hash r.family).not_announceUnderflows _ _ h
        · exact ((hgetD r.hash).withAnnounce r flags now f).not_leechersUnderflows h
    | remove r now =>
        obtain ⟨t, hget, h | ⟨f, h⟩⟩ := hop
        · exact (hcounted _ t hget r.family).not_removeUnderflows _ h
        · exact ((hcounted _ t hget).withRemove r now f).not_leechersUnderflows h
    | gc now => exact hop
  · exact fun hash t f hget => (hcounted hash t hget f).not_leechersUnderflows
  · intro order' op r hop hfit
    exact ⟨_, exec_counts order' _ op r hop, scrape_reports (counted_step order order' ops op) r.hash hfit⟩
  · intro order'
    have hentry : ∀ e ∈ (FlatStore.run order ops).entries, e.2.Counted := by
      intro e he
      exact hcounted e.1 e.2 ((href.get_eq e.1).trans ((Finmap.mem_entries_iff _ _ _).mp he))
    have hseeders : (FlatStore.run order ops).sumVals (fun t => t.v4.seeders + t.v6.seeders) =
        (FlatStore.run order ops).sumVals Torrent.seedCount :=
      Finmap.sumVals_congr fun e he => (hentry e he).seeders
    have hleechers : (FlatStore.run order ops).sumVals (fun t => t.v4.leechers + t.v6.leechers) =
        (FlatStore.run order ops).sumVals Torrent.leechCount :=
      Finmap.sumVals_congr fun e he => (hentry e he).leechers
    rw [href.totals_eq, hseeders, hleechers]
  · obtain ⟨hrouted, hflat⟩ := href
    rw [← hflat, len_flat, torrentCount, Fin.sum_univ_def]
  · intro i hash
    obtain ⟨hrouted, hflat⟩ := refines_run order ops
    constructor
    · intro hmem
      have hi := hrouted i hash hmem
      refine ⟨hi.symm, ?_⟩
      rw [← Finmap.lookup_isSome, ← href.get_eq, get, Sharded.get, hi]
      exact Finmap.lookup_isSome.mpr hmem
    · rintro ⟨rfl, hmem⟩
      rw [← Finmap.lookup_isSome, ← href.get_eq] at hmem
      exact Finmap.lookup_isSome.mp hmem
  · refine ⟨fun hash => ⟨href.get_eq hash, ?_⟩, fun order' op => (href.exec order' op).2⟩
    have hget := href.get_eq hash
    cases hlookup : (FlatStore.run order ops).lookup hash with
    | none => simp only [scrape, FlatStore.scrape, hget, hlookup]
    | some t => simp only [scrape, FlatStore.scrape, hget, hlookup]

end Store
end Bluefrog
