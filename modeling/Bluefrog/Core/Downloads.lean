import Bluefrog.Core.Commute
import Bluefrog.Core.Presence
import Bluefrog.Lib.Since

/-!
The counter of downloads. It counts the announces that complete a peer, each peer once for as long as it
stays. That a peer was counted is a bit of its entry, which no later announce clears and which is gone with
the entry; the counter itself is never lowered, and a torrent that has counted is never collected.
-/

open Rust Sharded History

namespace Bluefrog

/-- The call announces the peer as complete: both flags are set. -/
def Op.Completes (op : Op) (r : PeerRef) : Prop :=
  ∃ flags numwant now peersOut, op = .announce r flags numwant now peersOut ∧
    Flag.has flags Flag.completed = true ∧ Flag.has flags Flag.seeding = true

/-- The history leaves the peer present. -/
def Present (ops : List Op) (r : PeerRef) : Prop := ∃ t, Live ops r t

/-- The peer is present, and was announced as complete since it was last inserted. -/
def CompletedSince (ops : List Op) (r : PeerRef) : Prop :=
  Since (fun op => op.Completes r) (fun ops => Present ops r) ops

/-- After a history, the call completes a peer of the list that is absent or not yet completed. -/
def Op.Downloads (hash : InfoHash) (f : Family) (ops : List Op) (op : Op) : Prop :=
  ∃ key, op.Completes ⟨hash, f, key⟩ ∧ ¬CompletedSince ops ⟨hash, f, key⟩

open Classical in
/-- The downloads of a history, in a torrent and a family. -/
noncomputable def downloads (hash : InfoHash) (f : Family) (ops : List Op) : Nat := countAt (Op.Downloads hash f) ops

open Classical in
theorem downloads_append_singleton (hash : InfoHash) (f : Family) (ops : List Op) (op : Op) :
    downloads hash f (ops ++ [op]) = downloads hash f ops + if op.Downloads hash f ops then 1 else 0 :=
  countAt_append_singleton _ _ _

def Op.isAnnounce : Op → Bool
  | .announce .. => true
  | _ => false

open Classical in
theorem downloads_le (hash : InfoHash) (f : Family) (ops : List Op) :
    downloads hash f ops ≤ ops.countP Op.isAnnounce := by
  refine countAt_le_countP _ (fun _ op hop => ?_) ops
  obtain ⟨key, ⟨_, _, _, _, rfl, -⟩, -⟩ := hop
  rfl

namespace PeerList

variable {N : Nat}

/-- The entry of a peer, if any, has the completed bit. -/
def completedAt (p : PeerList N) (key : Bytes N) : Bool :=
  (p.peers.lookup key).any fun v => Flag.has v.flags Flag.completed

/-- Both flags survive the first rule of `announce`, a bare completed does not. -/
theorem has_completed_sanitize (flags : UInt8) : Flag.has (sanitize flags) Flag.completed =
    (Flag.has flags Flag.completed && Flag.has flags Flag.seeding) := by
  rw [sanitize]
  cases hcompleted : Flag.has flags Flag.completed <;> cases hseeding : Flag.has flags Flag.seeding
  · rw [if_neg (by decide), hcompleted]; rfl
  · rw [if_neg (by decide), hcompleted]; rfl
  · rw [if_pos (by decide), Flag.has_clear]; rfl
  · rw [if_neg (by decide), hcompleted]; rfl

/-- Once completed, always completed. -/
theorem has_completed_mergedFlags (p : PeerList N) (key : Bytes N) (flags : UInt8) :
    Flag.has (p.mergedFlags key flags) Flag.completed =
      ((Flag.has flags Flag.completed && Flag.has flags Flag.seeding) || p.completedAt key) := by
  rw [mergedFlags, completedAt]
  cases p.peers.lookup key with
  | none => rw [Option.any_none, Bool.or_false]; exact has_completed_sanitize flags
  | some old => rw [Option.any_some, Flag.has_or, has_completed_sanitize, Flag.has_and_self]

end PeerList

namespace Store

/-- The counter of downloads, in a torrent and a family; zero if it is unknown. -/
def downloadedIn (s : Store) (hash : InfoHash) (f : Family) : UInt64 := (s.listOf hash f).downloaded

/-- The entry of a peer, if any, has the completed bit. -/
def completedAt (s : Store) (r : PeerRef) : Bool := (s.listOf r.hash r.family).completedAt r.key

theorem peer_eq_lookup (s : Store) (r : PeerRef) : s.peer r = (s.listOf r.hash r.family).peers.lookup r.key := by
  rw [peer, listOf]
  cases s.get r.hash with
  | none => exact (Torrent.lookup_new _ _).symm
  | some t => rfl

theorem completedAt_eq (s : Store) (r : PeerRef) :
    s.completedAt r = (s.peer r).any fun v => Flag.has v.flags Flag.completed := by
  rw [completedAt, PeerList.completedAt, peer_eq_lookup]

section Step

variable (order : HashOrder) (s : Store)

/-- What one call does to the completed bit of a peer. -/
theorem completedAt_step (op : Op) (r : PeerRef) : (s.step order op).completedAt r = true ↔
    ((s.step order op).peer r).isSome = true ∧ (op.Completes r ∨ s.completedAt r = true) := by
  cases op with
  | announce r' flags numwant now peersOut =>
      rw [completedAt_eq, peer_announce]
      split_ifs with h
      · subst h
        have hcompletes : (Op.announce r flags numwant now peersOut).Completes r ↔
            (Flag.has flags Flag.completed && Flag.has flags Flag.seeding) = true := by
          rw [Bool.and_eq_true]
          exact ⟨fun ⟨_, _, _, _, heq, hboth⟩ => by cases heq; exact hboth,
            fun hboth => ⟨flags, numwant, now, peersOut, rfl, hboth⟩⟩
        rw [Option.any_some, PeerList.has_completed_mergedFlags, Bool.or_eq_true, hcompletes]
        exact ⟨fun hbit => ⟨rfl, hbit⟩, And.right⟩
      · have hother : ¬(Op.announce r' flags numwant now peersOut).Completes r := by
          rintro ⟨_, _, _, _, heq, -⟩
          cases heq
          exact h rfl
        rw [← completedAt_eq, or_iff_right hother, iff_and_self, completedAt_eq]
        exact Option.isSome_of_any
  | remove r' now =>
      have hnever : ¬(Op.remove r' now).Completes r := by
        rintro ⟨_, _, _, _, heq, -⟩
        cases heq
      rw [completedAt_eq, peer_remove, or_iff_right hnever]
      split_ifs
      · exact ⟨fun hbit => (by cases hbit), fun hbit => (by cases hbit.1)⟩
      · rw [← completedAt_eq, iff_and_self, completedAt_eq]
        exact Option.isSome_of_any
  | gc now =>
      have hnever : ¬(Op.gc now).Completes r := by
        rintro ⟨_, _, _, _, heq, -⟩
        cases heq
      change (s.gc now).completedAt r = true ↔ ((s.gc now).peer r).isSome = true ∧ _
      rw [completedAt_eq, completedAt_eq, peer_gc, or_iff_right hnever]
      cases s.peer r with
      | none => exact ⟨fun hbit => (by cases hbit), fun hbit => (by cases hbit.1)⟩
      | some v =>
          rw [Option.bind_some, Option.any_some]
          split_ifs
          · exact ⟨fun hbit => ⟨rfl, hbit⟩, And.right⟩
          · exact ⟨fun hbit => (by cases hbit), fun hbit => (by cases hbit.1)⟩

/-- Only a completing announce moves the counter, and only for a peer without the completed bit. -/
theorem downloadedIn_announce (r : PeerRef) (flags : UInt8) (numwant : Nat) (now : UInt32) (peersOut : List UInt8) :
    (s.step order (.announce r flags numwant now peersOut)).downloadedIn r.hash r.family =
      s.downloadedIn r.hash r.family +
        if (Flag.has flags Flag.completed && Flag.has flags Flag.seeding && !s.completedAt r) = true then 1 else 0 := by
  have hstep := listOf_act_self order s (r, .announce flags numwant now peersOut)
  rw [act, PeerAct.op] at hstep
  rw [downloadedIn, hstep, PeerList.downloaded_onList, PeerList.completes, PeerList.has_completed_sanitize]
  rfl

theorem downloadedIn_announce_of_ne (r : PeerRef) (flags : UInt8) (numwant : Nat) (now : UInt32)
    (peersOut : List UInt8) {hash : InfoHash} {f : Family} (h : ¬(hash = r.hash ∧ f = r.family)) :
    (s.step order (.announce r flags numwant now peersOut)).downloadedIn hash f = s.downloadedIn hash f :=
  congrArg PeerList.downloaded (listOf_act_of_ne order s (r, .announce flags numwant now peersOut) h)

theorem downloadedIn_remove (r : PeerRef) (now : UInt32) (hash : InfoHash) (f : Family) :
    (s.step order (.remove r now)).downloadedIn hash f = s.downloadedIn hash f := by
  by_cases hslot : hash = r.hash ∧ f = r.family
  · obtain ⟨rfl, rfl⟩ := hslot
    have hstep := listOf_act_self order s (r, .remove now)
    rw [act, PeerAct.op] at hstep
    rw [downloadedIn, hstep, PeerList.downloaded_onList]
    exact UInt64.add_zero _
  · exact congrArg PeerList.downloaded (listOf_act_of_ne order s (r, .remove now) hslot)

theorem downloadedIn_gc (now : UInt32) (hash : InfoHash) (f : Family) :
    (s.gc now).downloadedIn hash f = s.downloadedIn hash f := by
  rw [downloadedIn, listOf_gc]
  rfl

end Step

section Run

variable (order : HashOrder)

theorem present_iff (ops : List Op) (r : PeerRef) : Present ops r ↔ ((run order ops).peer r).isSome = true := by
  simp only [Present, ← seen_run_iff order, Option.isSome_iff_exists, Option.map_eq_some_iff]
  exact ⟨fun ⟨_, v, hv, _⟩ => ⟨v, hv⟩, fun ⟨v, hv⟩ => ⟨v.seen, v, hv, rfl⟩⟩

/-- **The completed bit of an entry tells what the history does.** -/
theorem completedAt_run (ops : List Op) (r : PeerRef) :
    (run order ops).completedAt r = true ↔ CompletedSince ops r := by
  induction ops using List.reverseRecOn with
  | nil =>
      have hnew : new.completedAt r = false := by rw [completedAt_eq, peer, get_new]; rfl
      rw [run, List.foldl_nil, hnew]
      exact ⟨fun h => (by cases h), fun h => absurd h not_since_nil⟩
  | append_singleton ops op ih =>
      rw [CompletedSince, since_append_singleton, present_iff order, run_append_singleton, completedAt_step, ih,
        CompletedSince]

open Classical in
/-- One call and the counter: it counts exactly when the history says so. -/
theorem downloadedIn_step (ops : List Op) (op : Op) (hash : InfoHash) (f : Family) :
    ((run order ops).step order op).downloadedIn hash f = (run order ops).downloadedIn hash f +
      if op.Downloads hash f ops then 1 else 0 := by
  cases op with
  | announce r flags numwant now peersOut =>
      by_cases hslot : hash = r.hash ∧ f = r.family
      · obtain ⟨rfl, rfl⟩ := hslot
        have hdownloads : (Op.announce r flags numwant now peersOut).Downloads r.hash r.family ops ↔
            (Flag.has flags Flag.completed && Flag.has flags Flag.seeding &&
              !(run order ops).completedAt r) = true := by
          rw [Bool.and_eq_true, Bool.and_eq_true, Bool.not_eq_true', ← Bool.not_eq_true, completedAt_run]
          constructor
          · rintro ⟨key, ⟨_, _, _, _, heq, hboth⟩, hnot⟩
            obtain ⟨hr, hflags, -⟩ := Op.announce.inj heq
            rw [← hr] at hnot
            rw [← hflags] at hboth
            exact ⟨hboth, hnot⟩
          · exact fun ⟨hboth, hnot⟩ => ⟨r.key, ⟨flags, numwant, now, peersOut, rfl, hboth⟩, hnot⟩
        rw [downloadedIn_announce]
        simp only [hdownloads]
      · have hnot : ¬(Op.announce r flags numwant now peersOut).Downloads hash f ops := by
          rintro ⟨key, ⟨_, _, _, _, heq, -⟩, -⟩
          cases heq
          exact hslot ⟨rfl, rfl⟩
        rw [downloadedIn_announce_of_ne order _ r flags numwant now peersOut hslot, if_neg hnot]
        exact (UInt64.add_zero _).symm
  | remove r now =>
      have hnot : ¬(Op.remove r now).Downloads hash f ops := by
        rintro ⟨key, ⟨_, _, _, _, heq, -⟩, -⟩
        cases heq
      rw [downloadedIn_remove, if_neg hnot]
      exact (UInt64.add_zero _).symm
  | gc now =>
      have hnot : ¬(Op.gc now).Downloads hash f ops := by
        rintro ⟨key, ⟨_, _, _, _, heq, -⟩, -⟩
        cases heq
      rw [if_neg hnot]
      exact (downloadedIn_gc _ now hash f).trans (UInt64.add_zero _).symm

/-- The counter holds the downloads of the history, in 64 bits. -/
theorem downloadedIn_run (ops : List Op) (hash : InfoHash) (f : Family) :
    (run order ops).downloadedIn hash f = UInt64.ofNat (downloads hash f ops) := by
  induction ops using List.reverseRecOn with
  | nil =>
      rw [run, List.foldl_nil, downloadedIn, listOf, get_new]
      cases f <;> rfl
  | append_singleton ops op ih =>
      rw [run_append_singleton, downloadedIn_step, ih, downloads_append_singleton, UInt64.ofNat_add]
      split_ifs <;> rfl

end Run

theorem get_ne_none_of_downloadedIn {s : Store} {hash : InfoHash} {f : Family} (h : s.downloadedIn hash f ≠ 0) :
    s.get hash ≠ none := by
  intro hnone
  rw [downloadedIn, listOf, hnone] at h
  cases f <;> exact h rfl

/-- A torrent that has counted a download is not empty, so a sweep keeps it. -/
theorem get_gc_ne_none {s : Store} (now : UInt32) {hash : InfoHash} {f : Family} (h : s.downloadedIn hash f ≠ 0) :
    (s.gc now).get hash ≠ none := by
  obtain ⟨t, hget⟩ := Option.ne_none_iff_exists'.mp (get_ne_none_of_downloadedIn h)
  rw [downloadedIn, listOf, hget, Option.getD_some] at h
  rw [get_gc, hget, Option.bind_some, Torrent.sweep]
  split_ifs with hcollected
  · simp only [Torrent.isEmpty, PeerList.expire, Bool.and_eq_true, beq_iff_eq] at hcollected
    cases f with
    | v4 => exact absurd hcollected.1.1.2 h
    | v6 => exact absurd hcollected.1.2 h
  · exact Option.some_ne_none _

/-- How the counter of a list accounts for a history. -/
structure AccountsDownloads (s : Store) (ops : List Op) (hash : InfoHash) (f : Family) : Prop where
  /-- The counter is the number of downloads. -/
  counter : (s.downloadedIn hash f).toNat = downloads hash f ops
  /-- A completed flag without the seeding flag does not count. -/
  bare : ∀ order key flags numwant now peersOut, Flag.has flags Flag.seeding = false →
    (s.step order (.announce ⟨hash, f, key⟩ flags numwant now peersOut)).downloadedIn hash f = s.downloadedIn hash f
  /-- A present peer that has counted does not count again, whatever its flags. -/
  once : ∀ order key flags numwant now peersOut, CompletedSince ops ⟨hash, f, key⟩ →
    (s.step order (.announce ⟨hash, f, key⟩ flags numwant now peersOut)).downloadedIn hash f = s.downloadedIn hash f
  /-- No removal and no sweep moves the counter. -/
  kept : ∀ order op, op.isAnnounce = false → (s.step order op).downloadedIn hash f = s.downloadedIn hash f
  /-- No removal and no sweep collects a torrent that has counted. -/
  tracked : s.downloadedIn hash f ≠ 0 → ∀ order op, op.isAnnounce = false → (s.step order op).get hash ≠ none

/-- **Downloads are accounted for.** -/
theorem downloads_accounted (order : HashOrder) (ops : List Op) (hcount : ops.countP Op.isAnnounce < 2 ^ 64)
    (hash : InfoHash) (f : Family) : (run order ops).AccountsDownloads ops hash f := by
  refine ⟨?_, ?_, ?_, ?_, ?_⟩
  · rw [downloadedIn_run, UInt64.toNat_ofNat_of_lt' (Nat.lt_of_le_of_lt (downloads_le hash f ops) hcount)]
  · intro order' key flags numwant now peersOut hbare
    rw [downloadedIn_announce order' _ ⟨hash, f, key⟩, hbare, Bool.and_false, Bool.false_and]
    exact UInt64.add_zero _
  · intro order' key flags numwant now peersOut hsince
    rw [downloadedIn_announce order' _ ⟨hash, f, key⟩, (completedAt_run order ops ⟨hash, f, key⟩).mpr hsince,
      Bool.not_true, Bool.and_false]
    exact UInt64.add_zero _
  · intro order' op hop
    cases op with
    | announce r flags numwant now peersOut => cases hop
    | remove r now => exact downloadedIn_remove order' _ r now hash f
    | gc now => exact downloadedIn_gc _ now hash f
  · intro hne order' op hop
    cases op with
    | announce r flags numwant now peersOut => cases hop
    | remove r now =>
        rw [get_step, Op.effect]
        split_ifs
        · exact fun hnone => get_ne_none_of_downloadedIn hne (Option.map_eq_none_iff.mp hnone)
        · exact get_ne_none_of_downloadedIn hne
    | gc now => exact get_gc_ne_none now hne

/-- A peer completes, says so again, is swept, leaves and completes once more. -/
def returning : List Op :=
  let peer : PeerRef := ⟨.replicate _ 1, .v4, .replicate _ 2⟩
  [.announce peer 0xC0 50 10 [], .announce ⟨.replicate _ 1, .v4, .replicate _ 3⟩ 0x40 50 10 [],
    .announce peer 0xC0 50 20 [], .gc 21, .remove peer 22, .announce peer 0xC0 50 30 []]

/-- Neither the repeat counts, nor the bare completed. -/
theorem downloads_accounted_once :
    ((run .arbitrary returning).downloadedIn (.replicate _ 1) .v4).toNat = 2 ∧
      downloads (.replicate _ 1) .v4 returning = 2 := by
  have hcounter : ((run .arbitrary returning).downloadedIn (.replicate _ 1) .v4).toNat = 2 := by decide +kernel
  exact ⟨hcounter, (downloads_accounted .arbitrary returning (by decide) _ _).counter.symm.trans hcounter⟩

end Store
end Bluefrog
