import Bluefrog.Core.Store

/-!
Runs of store operations. Every operation acts on each torrent separately (`Op.effect`), and within
a torrent on each peer separately (`peer_step`), so a fact about runs is an induction over what one
operation does to one torrent or to one peer. The iteration order of the tables only decides which
peers an announce returns, never what is stored.
-/

open Rust Sharded

namespace Bluefrog

/-- A stored peer is addressed by its torrent, its family and its compact form. -/
structure PeerRef where
  hash : InfoHash
  family : Family
  key : Bytes family.keyLen
  deriving DecidableEq

/-- A call of one of the store's mutators. -/
inductive Op where
  | announce (r : PeerRef) (flags : UInt8) (numwant : Nat) (now : UInt32) (peersOut : List UInt8)
  | remove (r : PeerRef) (now : UInt32)
  | gc (now : UInt32)

/-- What a call returns: the swarm counts, if any, and the output buffer of an announce. -/
structure Reply where
  counts : Option Counts
  peersOut : List UInt8
  deriving DecidableEq

theorem PeerRef.ne_of_key_ne {r : PeerRef} {key : Bytes r.family.keyLen} (h : key ≠ r.key) :
    (⟨r.hash, r.family, key⟩ : PeerRef) ≠ r := by
  obtain ⟨hash, f, key'⟩ := r
  intro heq
  cases heq
  exact h rfl

namespace Torrent

theorem lookup_new (f : Family) (key : Bytes f.keyLen) : (new.list f).peers.lookup key = none := by
  cases f <;> exact Finmap.lookup_empty key

theorem list_withAnnounce (t : Torrent) (r : PeerRef) (flags : UInt8) (now : UInt32) :
    (t.withAnnounce r.family r.key flags now).list r.family = (t.list r.family).announce r.key flags now := by
  rw [withAnnounce, list_setList, list_withBase]

theorem list_withAnnounce_of_ne (t : Torrent) (r : PeerRef) (flags : UInt8) (now : UInt32) {f : Family}
    (h : f ≠ r.family) : (t.withAnnounce r.family r.key flags now).list f = t.list f := by
  rw [withAnnounce, list_setList_of_ne _ h, list_withBase]

theorem list_withRemove (t : Torrent) (r : PeerRef) (now : UInt32) :
    (t.withRemove r.family r.key now).list r.family = (t.list r.family).remove r.key := by
  rw [withRemove, list_setList, list_withBase]

theorem list_withRemove_of_ne (t : Torrent) (r : PeerRef) (now : UInt32) {f : Family}
    (h : f ≠ r.family) : (t.withRemove r.family r.key now).list f = t.list f := by
  rw [withRemove, list_setList_of_ne _ h, list_withBase]

/-- A torrent that survives a sweep holds the expired lists. -/
theorem sweep_eq_some {t t' : Torrent} {now : UInt32} (h : sweep now t = some t') (f : Family) :
    t'.list f = (t.list f).expire now peerTimeoutMinutes := by
  simp only [sweep] at h
  split_ifs at h
  cases h
  cases f <;> rfl

/-- A torrent that a sweep collects has no live peer in either family. -/
theorem sweep_eq_none {t : Torrent} {now : UInt32} (h : sweep now t = none) (f : Family) :
    ((t.list f).expire now peerTimeoutMinutes).peers.len = 0 := by
  simp only [sweep] at h
  split_ifs at h with hempty
  simp only [isEmpty, Bool.and_eq_true, beq_iff_eq] at hempty
  cases f
  · exact hempty.1.1.1.1
  · exact hempty.1.1.1.2

end Torrent

namespace PeerList

variable {N : Nat} (p : PeerList N)

/-- The flags an announce stores. -/
def mergedFlags (key : Bytes N) (flags : UInt8) : UInt8 :=
  match p.peers.lookup key with
  | some old => sanitize flags ||| (old.flags &&& Flag.completed)
  | none => sanitize flags

theorem peers_announce (key : Bytes N) (flags : UInt8) (now : UInt32) :
    (p.announce key flags now).peers = p.peers.insert key ⟨p.mergedFlags key flags, now⟩ := by
  cases h : p.peers.lookup key <;> simp only [announce, mergedFlags, h]

theorem peers_remove (key : Bytes N) : (p.remove key).peers = p.peers.erase key := by
  cases h : p.peers.lookup key with
  | none => simp only [remove, h, Finmap.erase_of_lookup_none h]
  | some old => simp only [remove, h]

/-- The keys of the entries that seed, or of those that do not. -/
def keysOf (wantSeed : Bool) (entries : List ((_ : Bytes N) × PeerVal)) : List (Bytes N) :=
  (entries.filter fun e => Flag.has e.2.flags Flag.seeding == wantSeed).map Sigma.fst

/-- The peers in the order in which they are handed out: leechers before seeders. -/
def compactKeys (order : HashOrder) (p : PeerList N) : List (Bytes N) :=
  keysOf false (order.toList p.peers) ++ keysOf true (order.toList p.peers)

theorem keysOf_cons (wantSeed : Bool) (e : (_ : Bytes N) × PeerVal) (entries : List ((_ : Bytes N) × PeerVal)) :
    keysOf wantSeed (e :: entries) =
      if Flag.has e.2.flags Flag.seeding == wantSeed then e.1 :: keysOf wantSeed entries
      else keysOf wantSeed entries := by
  rw [keysOf, List.filter_cons]
  split_ifs <;> rfl

/-- A pass appends the keys it selects to the buffer, as many as its budget allows. -/
theorem writePass_eq (wantSeed : Bool) (entries : List ((_ : Bytes N) × PeerVal)) (remaining : Nat)
    (out : List UInt8) : writePass wantSeed entries (remaining, out) =
      (remaining - (keysOf wantSeed entries).length,
        out ++ ((keysOf wantSeed entries).take remaining).flatMap List.Vector.toList) := by
  induction entries generalizing remaining out with
  | nil => simp [writePass, keysOf]
  | cons e entries ih =>
      unfold writePass
      split_ifs with h0 hseed
      · rw [h0, Nat.zero_sub, List.take_zero, List.flatMap_nil, List.append_nil]
      · obtain ⟨k, rfl⟩ := Nat.exists_eq_succ_of_ne_zero h0
        rw [ih, keysOf_cons, if_pos hseed, List.length_cons, List.take_succ_cons, List.flatMap_cons,
          ← List.append_assoc, Nat.succ_sub_one, Nat.succ_sub_succ]
      · rw [ih, keysOf_cons, if_neg hseed]

/-- The compact peers go behind what is in the buffer: the first `numwant` of them. -/
theorem writeCompact_eq (order : HashOrder) (numwant : Nat) (out : List UInt8) :
    p.writeCompact order numwant out = out ++ ((p.compactKeys order).take numwant).flatMap List.Vector.toList := by
  rw [writeCompact, writePass_eq, writePass_eq, compactKeys, List.take_append, List.flatMap_append, List.append_assoc]

theorem writeCompact_spec (order : HashOrder) (numwant : Nat) (out : List UInt8) :
    ∃ peers, p.writeCompact order numwant out = out ++ peers ∧ peers.length ≤ numwant * N := by
  refine ⟨_, writeCompact_eq p order numwant out, ?_⟩
  rw [length_flatMap_const List.Vector.toList_length, List.length_take]
  exact Nat.mul_le_mul_right N (Nat.min_le_left _ _)

/-- The peers handed out are the stored ones, each once. -/
theorem perm_compactKeys (order : HashOrder) :
    (p.compactKeys order).Perm ((order.toList p.peers).map Sigma.fst) := by
  rw [compactKeys, keysOf, keysOf, ← List.map_append]
  refine List.Perm.map _ ?_
  have hneg : (fun e : (_ : Bytes N) × PeerVal => Flag.has e.2.flags Flag.seeding == false) =
      fun e => !(Flag.has e.2.flags Flag.seeding == true) := by
    funext e
    cases Flag.has e.2.flags Flag.seeding <;> rfl
  rw [hneg]
  exact List.perm_append_comm.trans (List.filter_append_perm _ _)

theorem mem_compactKeys (order : HashOrder) (key : Bytes N) : key ∈ p.compactKeys order ↔ key ∈ p.peers := by
  rw [(p.perm_compactKeys order).mem_iff, Finmap.mem_def, Multiset.keys, ← order.coe_toList p.peers,
    Multiset.map_coe, Multiset.mem_coe]

theorem nodup_compactKeys (order : HashOrder) : (p.compactKeys order).Nodup := by
  rw [(p.perm_compactKeys order).nodup_iff, ← Multiset.coe_nodup, ← Multiset.map_coe, order.coe_toList]
  exact Multiset.nodup_keys.mpr p.peers.nodupKeys

theorem lookup_expire (now timeout : UInt32) (key : Bytes N) :
    (p.expire now timeout).peers.lookup key =
      (p.peers.lookup key).bind fun v => if saturatingSub now v.seen < timeout then some v else none :=
  Finmap.lookup_retain _ _ _

end PeerList

namespace Store

/-- The stored entry of a peer. -/
def peer (s : Store) (r : PeerRef) : Option PeerVal :=
  (s.get r.hash).bind fun t => (t.list r.family).peers.lookup r.key

/-- One call, with its result. -/
def exec (order : HashOrder) (s : Store) : Op → Store × Reply
  | .announce r flags numwant now peersOut =>
      let (s, counts, peersOut) := s.announce order r.family r.hash r.key flags numwant now peersOut
      (s, ⟨some counts, peersOut⟩)
  | .remove r now =>
      let (s, counts) := s.remove r.family r.hash r.key now
      (s, ⟨some counts, []⟩)
  | .gc now => (s.gc now, ⟨none, []⟩)

/-- The store after one call. -/
def step (order : HashOrder) (s : Store) (op : Op) : Store := (s.exec order op).1

/-- The store after a sequence of calls, from an empty store. -/
def run (order : HashOrder) (ops : List Op) : Store := ops.foldl (step order) new

theorem run_append_singleton (order : HashOrder) (ops : List Op) (op : Op) :
    run order (ops ++ [op]) = step order (run order ops) op := List.foldl_concat _ _ _ _

theorem get_put (s : Store) (hash : InfoHash) (t : Torrent) (h : InfoHash) :
    (s.put hash t).get h = if h = hash then some t else s.get h :=
  get_setShard_insert shardIndex s.shards hash t h

theorem get_gc (s : Store) (now : UInt32) (h : InfoHash) :
    (s.gc now).get h = (s.get h).bind (Torrent.sweep now) :=
  get_retain shardIndex _ s.shards h

theorem get_new (h : InfoHash) : new.get h = none := Finmap.lookup_empty h

end Store

/-- What a call does to the torrent tracked under an info-hash. -/
def Op.effect (hash : InfoHash) (t : Option Torrent) : Op → Option Torrent
  | .announce r flags _ now _ =>
      if hash = r.hash then some ((t.getD Torrent.new).withAnnounce r.family r.key flags now) else t
  | .remove r now => if hash = r.hash then t.map fun t => t.withRemove r.family r.key now else t
  | .gc now => t.bind (Torrent.sweep now)

namespace Store

/-- Every torrent evolves on its own. -/
theorem get_step (order : HashOrder) (s : Store) (op : Op) (hash : InfoHash) :
    (s.step order op).get hash = op.effect hash (s.get hash) := by
  cases op with
  | announce r flags numwant now peersOut =>
      simp only [step, exec, announce, Op.effect, get_put]
      split_ifs with h
      · rw [h]
      · rfl
  | remove r now =>
      simp only [step, exec, remove, Op.effect]
      cases hget : s.get r.hash with
      | none =>
          split_ifs with h
          · rw [h, hget]; rfl
          · rfl
      | some t =>
          simp only [get_put]
          split_ifs with h
          · rw [h, hget]; rfl
          · rfl
  | gc now => exact get_gc s now hash

/-- The counts an announce or removal returns are those a scrape would return next. -/
theorem exec_counts (order : HashOrder) (s : Store) (op : Op) (r : PeerRef)
    (hop : (∃ flags numwant now peersOut, op = .announce r flags numwant now peersOut) ∨
      ∃ now, op = .remove r now) :
    (s.exec order op).2.counts = some ((s.step order op).scrape r.hash) := by
  rcases hop with ⟨flags, numwant, now, peersOut, rfl⟩ | ⟨now, rfl⟩
  · simp only [step, exec, announce, scrape, get_put, if_true]
  · simp only [step, exec, remove]
    cases hget : s.get r.hash with
    | none => simp only [scrape, hget]
    | some t => simp only [scrape, get_put, if_true]

/-- A property of torrents that every call keeps, and that a torrent has when it is created, holds
of every torrent of every run. -/
theorem run_invariant {P : Torrent → Prop} (order : HashOrder) (hnew : P Torrent.new)
    (hannounce : ∀ t (r : PeerRef) flags now, P t → P (t.withAnnounce r.family r.key flags now))
    (hremove : ∀ t (r : PeerRef) now, P t → P (t.withRemove r.family r.key now))
    (hsweep : ∀ t t' now, Torrent.sweep now t = some t' → P t → P t')
    (ops : List Op) (hash : InfoHash) (t : Torrent) (h : (run order ops).get hash = some t) : P t := by
  induction ops using List.reverseRecOn generalizing t with
  | nil => rw [run, List.foldl_nil, get_new] at h; cases h
  | append_singleton ops op ih =>
      rw [run_append_singleton, get_step] at h
      cases op with
      | announce r flags numwant now peersOut =>
          simp only [Op.effect] at h
          split_ifs at h
          · cases h
            refine hannounce _ r flags now ?_
            cases hget : (run order ops).get hash with
            | none => exact hnew
            | some old => exact ih old hget
          · exact ih t h
      | remove r now =>
          simp only [Op.effect] at h
          split_ifs at h
          · obtain ⟨old, hold, rfl⟩ := Option.map_eq_some_iff.mp h
            exact hremove old r now (ih old hold)
          · exact ih t h
      | gc now =>
          obtain ⟨old, hold, hsw⟩ := Option.bind_eq_some_iff.mp h
          exact hsweep old t now hsw (ih old hold)

theorem peer_announce (order : HashOrder) (s : Store) (r : PeerRef) (flags : UInt8) (numwant : Nat)
    (now : UInt32) (peersOut : List UInt8) (r' : PeerRef) :
    (s.step order (.announce r flags numwant now peersOut)).peer r' =
      if r' = r then
        some ⟨((s.get r.hash).getD Torrent.new |>.list r.family).mergedFlags r.key flags, now⟩
      else s.peer r' := by
  obtain ⟨hash', f', key'⟩ := r'
  simp only [peer, get_step, Op.effect]
  by_cases hh : hash' = r.hash
  · subst hh
    rw [if_pos rfl, Option.bind_some]
    by_cases hf : f' = r.family
    · subst hf
      rw [Torrent.list_withAnnounce, PeerList.peers_announce]
      by_cases hk : key' = r.key
      · subst hk
        rw [if_pos rfl, Finmap.lookup_insert]
      · rw [if_neg (PeerRef.ne_of_key_ne hk), Finmap.lookup_insert_of_ne _ hk]
        cases s.get r.hash with
        | none => exact Torrent.lookup_new _ _
        | some t => rfl
    · have hne : (⟨r.hash, f', key'⟩ : PeerRef) ≠ r := fun h => hf (by rw [← h])
      rw [if_neg hne, Torrent.list_withAnnounce_of_ne _ r _ _ hf]
      cases s.get r.hash with
      | none => exact Torrent.lookup_new _ _
      | some t => rfl
  · have hne : (⟨hash', f', key'⟩ : PeerRef) ≠ r := fun h => hh (by rw [← h])
    rw [if_neg hne, if_neg hh]

theorem peer_remove (order : HashOrder) (s : Store) (r : PeerRef) (now : UInt32) (r' : PeerRef) :
    (s.step order (.remove r now)).peer r' = if r' = r then none else s.peer r' := by
  obtain ⟨hash', f', key'⟩ := r'
  simp only [peer, get_step, Op.effect]
  by_cases hh : hash' = r.hash
  · subst hh
    rw [if_pos rfl]
    cases s.get r.hash with
    | none => simp
    | some t =>
        rw [Option.map_some, Option.bind_some, Option.bind_some]
        by_cases hf : f' = r.family
        · subst hf
          rw [Torrent.list_withRemove, PeerList.peers_remove]
          by_cases hk : key' = r.key
          · subst hk
            rw [if_pos rfl, Finmap.lookup_erase]
          · rw [if_neg (PeerRef.ne_of_key_ne hk), Finmap.lookup_erase_ne hk]
        · have hne : (⟨r.hash, f', key'⟩ : PeerRef) ≠ r := fun h => hf (by rw [← h])
          rw [if_neg hne, Torrent.list_withRemove_of_ne _ r _ hf]
  · have hne : (⟨hash', f', key'⟩ : PeerRef) ≠ r := fun h => hh (by rw [← h])
    rw [if_neg hne, if_neg hh]

/-- A sweep keeps exactly the peers seen less than the timeout ago, also when it collects torrents. -/
theorem peer_gc (s : Store) (now : UInt32) (r : PeerRef) :
    (s.gc now).peer r =
      (s.peer r).bind fun v => if saturatingSub now v.seen < peerTimeoutMinutes then some v else none := by
  simp only [peer, get_gc]
  cases s.get r.hash with
  | none => rfl
  | some t =>
      rw [Option.bind_some, Option.bind_some, ← PeerList.lookup_expire]
      cases hsw : Torrent.sweep now t with
      | none =>
          -- a collected torrent has no live peer to lose
          have hlen := Torrent.sweep_eq_none hsw r.family
          rw [Finmap.len, Multiset.card_eq_zero] at hlen
          rw [Option.bind_none, eq_comm, Finmap.lookup_eq_none, Finmap.mem_def, hlen]
          exact Multiset.notMem_zero _
      | some t' => rw [Option.bind_some, Torrent.sweep_eq_some hsw]

end Store
end Bluefrog
