import Bluefrog.Core.Counters
import Bluefrog.Lib.Interleaving

/-!
Operations on different peers commute. The peers of a torrent share its counters, and the torrent is
created by the first announce but not by a removal; still, all that two interleavings of the same
per-peer sequences can leave different is the minute of the last activity of a torrent.
-/

open Rust Sharded Interleaving

namespace Bluefrog

/-- What is done to one peer: an announce, or a removal. -/
inductive PeerAct where
  | announce (flags : UInt8) (numwant : Nat) (now : UInt32) (peersOut : List UInt8)
  | remove (now : UInt32)

/-- The call of the store, for a peer. -/
def PeerAct.op (r : PeerRef) : PeerAct → Op
  | .announce flags numwant now peersOut => .announce r flags numwant now peersOut
  | .remove now => .remove r now

/-- What it does to the list the peer is in. -/
def PeerAct.onList {N : Nat} (key : Bytes N) (p : PeerList N) : PeerAct → PeerList N
  | .announce flags _ now _ => p.announce key flags now
  | .remove _ => p.remove key

namespace PeerList

variable {N : Nat} {p : PeerList N} {key key' : Bytes N}

/-- An entry that is completed by an announce and was not before. -/
def completes (old : Option PeerVal) : PeerAct → Bool
  | .announce flags _ _ _ => Flag.has (sanitize flags) Flag.completed &&
      !(old.any fun v => Flag.has v.flags Flag.completed)
  | .remove _ => false

/-- What becomes of the entry of the peer. -/
def entryAfter (old : Option PeerVal) : PeerAct → Option PeerVal
  | .announce flags _ now _ =>
      some ⟨(old.elim (sanitize flags) fun v => sanitize flags ||| (v.flags &&& Flag.completed)), now⟩
  | .remove _ => none

theorem counted_onList (h : p.Counted) (key : Bytes N) (act : PeerAct) : (act.onList key p).Counted := by
  cases act with
  | announce flags numwant now peersOut => exact counted_announce h key flags now
  | remove now => exact counted_remove h key

theorem lookup_onList (key : Bytes N) (p : PeerList N) (act : PeerAct) (x : Bytes N) :
    (act.onList key p).peers.lookup x = if x = key then entryAfter (p.peers.lookup key) act else p.peers.lookup x := by
  cases act with
  | announce flags numwant now peersOut =>
      rw [PeerAct.onList, peers_announce]
      split_ifs with hx
      · rw [hx, Finmap.lookup_insert, entryAfter, mergedFlags]
        cases p.peers.lookup key <;> rfl
      · exact Finmap.lookup_insert_of_ne _ hx
  | remove now =>
      rw [PeerAct.onList, peers_remove]
      split_ifs with hx
      · rw [hx, Finmap.lookup_erase]
        rfl
      · exact Finmap.lookup_erase_ne hx

theorem downloaded_onList (key : Bytes N) (p : PeerList N) (act : PeerAct) : (act.onList key p).downloaded =
    p.downloaded + if completes (p.peers.lookup key) act then 1 else 0 := by
  cases act with
  | announce flags numwant now peersOut =>
      rw [PeerAct.onList, completes]
      cases hold : p.peers.lookup key with
      | none =>
          simp only [announce, hold, Option.any_none, Bool.not_false, Bool.and_true]
          split_ifs <;> simp
      | some old =>
          simp only [announce, hold, Option.any_some]
          split_ifs <;> simp
  | remove now =>
      rw [PeerAct.onList, completes, remove]
      cases p.peers.lookup key <;> simp

/-- A counted list is determined by its peers and its downloads. -/
theorem Counted.ext {q : PeerList N} (hp : p.Counted) (hq : q.Counted)
    (hpeers : ∀ x, p.peers.lookup x = q.peers.lookup x) (hdownloaded : p.downloaded = q.downloaded) : p = q := by
  have hsame : p.peers = q.peers := Finmap.ext_lookup hpeers
  obtain ⟨peers, seeders, downloaded⟩ := p
  obtain ⟨peers', seeders', downloaded'⟩ := q
  cases hsame
  cases hdownloaded
  rw [Counted] at hp hq
  rw [show seeders = seeders' from hp.trans hq.symm]

/-- What is done to two peers of one list commutes. -/
theorem Counted.onList_comm (h : p.Counted) (hne : key ≠ key') (act act' : PeerAct) :
    act'.onList key' (act.onList key p) = act.onList key (act'.onList key' p) := by
  have hother : (act.onList key p).peers.lookup key' = p.peers.lookup key' := by
    rw [lookup_onList, if_neg (Ne.symm hne)]
  have hother' : (act'.onList key' p).peers.lookup key = p.peers.lookup key := by
    rw [lookup_onList, if_neg hne]
  refine Counted.ext (counted_onList (counted_onList h _ _) _ _) (counted_onList (counted_onList h _ _) _ _) ?_ ?_
  · intro x
    rw [lookup_onList key' (act.onList key p) act' x, hother, lookup_onList key p act x,
      lookup_onList key (act'.onList key' p) act x, hother', lookup_onList key' p act' x]
    split_ifs with hx' hx
    · exact absurd (hx.symm.trans hx') hne
    · rfl
    · rfl
    · rfl
  · rw [downloaded_onList key' (act.onList key p) act', hother, downloaded_onList key p act,
      downloaded_onList key (act'.onList key' p) act, hother', downloaded_onList key' p act', UInt64.add_assoc,
      UInt64.add_assoc]
    exact congrArg _ (UInt64.add_comm _ _)

end PeerList

namespace Torrent

/-- The lists of a torrent that is collected are those of an unknown one. -/
theorem list_of_isEmpty {t : Torrent} (h : t.isEmpty) (hcounted : t.Counted) (f : Family) :
    t.list f = new.list f := by
  simp only [isEmpty, Bool.and_eq_true, beq_iff_eq] at h
  obtain ⟨⟨⟨hv4, hv6⟩, hd4⟩, hd6⟩ := h
  have hnone : ∀ {N : Nat} {p : PeerList N}, p.Counted → p.peers.len = 0 → p.downloaded = 0 →
      p = PeerList.new := by
    intro N p hp hlen hdownloaded
    have hempty : p.peers = ∅ := Finmap.ext (Multiset.card_eq_zero.mp hlen)
    refine hp.ext PeerList.counted_new (fun x => by rw [hempty]; rfl) hdownloaded
  cases f with
  | v4 => exact hnone (hcounted .v4) hv4 hd4
  | v6 => exact hnone (hcounted .v6) hv6 hd6

theorem counts_congr {t t' : Torrent} (h : ∀ f, t.list f = t'.list f) : t.counts = t'.counts := by
  have hv4 : t.v4 = t'.v4 := h .v4
  have hv6 : t.v6 = t'.v6 := h .v6
  rw [counts, counts, hv4, hv6]

end Torrent

namespace Store

/-- The peers of a family in a torrent; none if it is unknown. -/
def listOf (s : Store) (hash : InfoHash) (f : Family) : PeerList f.keyLen := ((s.get hash).getD Torrent.new).list f

/-- The call of the store for a peer. -/
def act (order : HashOrder) (s : Store) (x : PeerRef × PeerAct) : Store := s.step order (x.2.op x.1)

variable (order : HashOrder) (s : Store) (x : PeerRef × PeerAct)

/-- An operation creates the torrent of its peer if it is an announce. -/
def PeerActCreates (x : PeerRef × PeerAct) (hash : InfoHash) : Bool :=
  decide (hash = x.1.hash) && match x.2 with
    | .announce _ _ _ _ => true
    | .remove _ => false

theorem isSome_act (hash : InfoHash) :
    ((s.act order x).get hash).isSome = ((s.get hash).isSome || PeerActCreates x hash) := by
  rw [act, get_step, PeerActCreates]
  obtain ⟨r, act⟩ := x
  cases act with
  | announce flags numwant now peersOut =>
      simp only [PeerAct.op, Op.effect]
      by_cases hhash : hash = r.hash
      · rw [if_pos hhash, decide_eq_true hhash, Option.isSome_some, Bool.and_self, Bool.or_true]
      · rw [if_neg hhash, decide_eq_false hhash, Bool.false_and, Bool.or_false]
  | remove now =>
      simp only [PeerAct.op, Op.effect, Bool.and_false, Bool.or_false]
      split_ifs
      · exact Option.isSome_map
      · rfl

/-- The list of the peer. -/
theorem listOf_act_self : (s.act order x).listOf x.1.hash x.1.family =
    x.2.onList x.1.key (s.listOf x.1.hash x.1.family) := by
  rw [listOf, act, get_step, listOf]
  obtain ⟨r, act⟩ := x
  cases act with
  | announce flags numwant now peersOut =>
      simp only [PeerAct.op, Op.effect, if_true, Option.getD_some]
      exact Torrent.list_withAnnounce _ r flags now
  | remove now =>
      simp only [PeerAct.op, Op.effect, if_true]
      cases s.get r.hash with
      | none =>
          -- removing from a list without peers changes nothing
          rw [Option.map_none, Option.getD_none, PeerAct.onList, PeerList.remove, Torrent.lookup_new]
      | some t => exact Torrent.list_withRemove t r now

/-- Every other list is left as it is. -/
theorem listOf_act_of_ne {hash : InfoHash} {f : Family} (h : ¬(hash = x.1.hash ∧ f = x.1.family)) :
    (s.act order x).listOf hash f = s.listOf hash f := by
  rw [listOf, act, get_step, listOf]
  obtain ⟨r, act⟩ := x
  by_cases hhash : hash = r.hash
  · have hf : f ≠ r.family := fun hf => h ⟨hhash, hf⟩
    cases act with
    | announce flags numwant now peersOut =>
        simp only [PeerAct.op, Op.effect, if_pos hhash, Option.getD_some]
        exact Torrent.list_withAnnounce_of_ne _ r flags now hf
    | remove now =>
        simp only [PeerAct.op, Op.effect, if_pos hhash]
        cases s.get hash with
        | none => rfl
        | some t => exact Torrent.list_withRemove_of_ne t r now hf
  · cases act <;> simp only [PeerAct.op, Op.effect, if_neg hhash]

/-- The stores hold the same lists. -/
def SameLists (s s' : Store) : Prop := ∀ hash f, s.listOf hash f = s'.listOf hash f

/-- Stores that track the same torrents with the same lists: only the minutes of activity may differ. -/
structure Agrees (s s' : Store) : Prop where
  tracked : ∀ hash, (s.get hash).isSome = (s'.get hash).isSome
  lists : s.SameLists s'

/-- The cached seeders of every list are exact. -/
def CountedLists (s : Store) : Prop := ∀ hash f, (s.listOf hash f).Counted

theorem CountedLists.act {s : Store} (h : s.CountedLists) (order : HashOrder) (x : PeerRef × PeerAct) :
    (s.act order x).CountedLists := by
  intro hash f
  by_cases hslot : hash = x.1.hash ∧ f = x.1.family
  · obtain ⟨rfl, rfl⟩ := hslot
    rw [listOf_act_self]
    exact PeerList.counted_onList (h _ _) _ _
  · rw [listOf_act_of_ne order s x hslot]
    exact h hash f

theorem SameLists.act {s s' : Store} (h : s.SameLists s') (order : HashOrder) (x : PeerRef × PeerAct) :
    (s.act order x).SameLists (s'.act order x) := by
  intro hash f
  by_cases hslot : hash = x.1.hash ∧ f = x.1.family
  · obtain ⟨rfl, rfl⟩ := hslot
    rw [listOf_act_self, listOf_act_self, h]
  · rw [listOf_act_of_ne order s x hslot, listOf_act_of_ne order s' x hslot, h]

theorem Agrees.act {s s' : Store} (h : s.Agrees s') (order : HashOrder) (x : PeerRef × PeerAct) :
    (s.act order x).Agrees (s'.act order x) :=
  ⟨fun hash => by rw [isSome_act, isSome_act, h.tracked], h.lists.act order x⟩

/-- Operations on different peers commute: in other lists, in one list, and in what they create. -/
theorem CountedLists.act_comm {s : Store} (h : s.CountedLists) (order : HashOrder) {x y : PeerRef × PeerAct}
    (hne : x.1 ≠ y.1) : ((s.act order x).act order y).Agrees ((s.act order y).act order x) := by
  refine ⟨fun hash => ?_, fun hash f => ?_⟩
  · rw [isSome_act, isSome_act, isSome_act, isSome_act, Bool.or_assoc, Bool.or_assoc]
    exact congrArg _ (Bool.or_comm _ _)
  · by_cases hx : hash = x.1.hash ∧ f = x.1.family
    · by_cases hy : hash = y.1.hash ∧ f = y.1.family
      · obtain ⟨⟨hashX, familyX, keyX⟩, actX⟩ := x
        obtain ⟨⟨hashY, familyY, keyY⟩, actY⟩ := y
        obtain ⟨rfl, rfl⟩ := hx
        obtain ⟨rfl, rfl⟩ := hy
        have hkey : keyX ≠ keyY := fun heq => hne (by rw [heq])
        have hself := fun s' act key => listOf_act_self order s' (⟨hash, f, key⟩, act)
        simp only at hself ⊢
        rw [hself, hself, hself, hself]
        exact (h hash f).onList_comm hkey actX actY
      · obtain ⟨rfl, rfl⟩ := hx
        rw [listOf_act_of_ne order _ y hy, listOf_act_self, listOf_act_self, listOf_act_of_ne order s y hy]
    · rw [listOf_act_of_ne order _ x hx]
      by_cases hy : hash = y.1.hash ∧ f = y.1.family
      · obtain ⟨rfl, rfl⟩ := hy
        rw [listOf_act_self, listOf_act_self, listOf_act_of_ne order s x hx]
      · rw [listOf_act_of_ne order _ y hy, listOf_act_of_ne order _ y hy, listOf_act_of_ne order s x hx]

theorem commutes_act (order : HashOrder) : Commutes Prod.fst (act order) CountedLists Agrees where
  inv _ x h := h.act order x
  refl _ := ⟨fun _ => rfl, fun _ _ => rfl⟩
  trans _ _ _ h h' := ⟨fun hash => (h.tracked hash).trans (h'.tracked hash),
    fun hash f => (h.lists hash f).trans (h'.lists hash f)⟩
  congr _ _ x h := h.act order x
  comm _ _ _ h hne := h.act_comm order hne

theorem step_order (order order' : HashOrder) (s : Store) (op : Op) : s.step order op = s.step order' op := by
  cases op <;> rfl

/-- A collection expires every list; what it drops has nothing left in its lists. -/
theorem listOf_gc (s : Store) (now : UInt32) (hash : InfoHash) (f : Family) :
    (s.gc now).listOf hash f = (s.listOf hash f).expire now peerTimeoutMinutes := by
  rw [listOf, get_gc, listOf]
  cases s.get hash with
  | none =>
      cases f <;> rfl
  | some t =>
      rw [Option.bind_some, Option.getD_some, Torrent.sweep]
      have hcounted : Torrent.Counted { t with
          v4 := t.v4.expire now peerTimeoutMinutes
          v6 := t.v6.expire now peerTimeoutMinutes } := fun f => by
        cases f <;> exact PeerList.counted_expire _ _ _
      split_ifs with hdrop
      · rw [Bool.and_eq_true] at hdrop
        rw [Option.getD_none, ← Torrent.list_of_isEmpty hdrop.1 hcounted]
        cases f <;> rfl
      · cases f <;> rfl

/-- Equal lists stay equal under every operation: an operation reads nothing else of a torrent it updates. -/
theorem SameLists.step {s s' : Store} (h : s.SameLists s') (order : HashOrder) (op : Op) :
    (s.step order op).SameLists (s'.step order op) := by
  cases op with
  | announce r flags numwant now peersOut => exact h.act order (r, .announce flags numwant now peersOut)
  | remove r now => exact h.act order (r, .remove now)
  | gc now =>
      intro hash f
      calc (s.gc now).listOf hash f
          = (s.listOf hash f).expire now peerTimeoutMinutes := listOf_gc s now hash f
        _ = (s'.listOf hash f).expire now peerTimeoutMinutes := by rw [h hash f]
        _ = (s'.gc now).listOf hash f := (listOf_gc s' now hash f).symm

theorem SameLists.foldl {s s' : Store} (h : s.SameLists s') (order : HashOrder) (ops : List Op) :
    (ops.foldl (Store.step order) s).SameLists (ops.foldl (Store.step order) s') := by
  induction ops generalizing s s' with
  | nil => exact h
  | cons op ops ih => exact ih (h.step order op)

theorem Agrees.foldl {s s' : Store} (h : s.Agrees s') (order : HashOrder) {ops : List Op}
    (hgc : ∀ now, Op.gc now ∉ ops) :
    (ops.foldl (Store.step order) s).Agrees (ops.foldl (Store.step order) s') := by
  induction ops generalizing s s' with
  | nil => exact h
  | cons op ops ih =>
      have hrest : ∀ now, Op.gc now ∉ ops := fun now hmem => hgc now (List.mem_cons_of_mem _ hmem)
      cases op with
      | announce r flags numwant now peersOut =>
          exact ih (h.act order (r, .announce flags numwant now peersOut)) hrest
      | remove r now => exact ih (h.act order (r, .remove now)) hrest
      | gc now => exact absurd List.mem_cons_self (hgc now)

theorem SameLists.scrape {s s' : Store} (h : s.SameLists s') (hash : InfoHash) : s.scrape hash = s'.scrape hash := by
  have hcounts : ∀ s : Store, s.scrape hash = ((s.get hash).getD Torrent.new).counts := by
    intro s
    unfold Store.scrape
    cases s.get hash <;> rfl
  rw [hcounts, hcounts]
  exact Torrent.counts_congr (h hash)

/-- A quantity of the lists that an unknown torrent has none of adds up to the same total. -/
theorem SameLists.sumVals {s s' : Store} (h : s.SameLists s') {m m' : FlatStore} (hm : s.Refines m)
    (hm' : s'.Refines m') (f : Torrent → Nat) (hnew : f Torrent.new = 0)
    (hf : ∀ t t' : Torrent, (∀ f, t.list f = t'.list f) → f t = f t') : m.sumVals f = m'.sumVals f := by
  have hshare : ∀ t : Option Torrent, t.elim 0 f = f (t.getD Torrent.new) := by
    rintro (_ | t)
    · exact hnew.symm
    · rfl
  refine Finmap.sumVals_eq_of_lookup f fun hash => ?_
  rw [← hm.get_eq, ← hm'.get_eq, hshare, hshare]
  exact hf _ _ (h hash)

theorem SameLists.totals {s s' : Store} (h : s.SameLists s') {m m' : FlatStore} (hm : s.Refines m)
    (hm' : s'.Refines m') (order order' : HashOrder) :
    (s.totals order).seeders = (s'.totals order').seeders ∧
      (s.totals order).leechers = (s'.totals order').leechers := by
  rw [hm.totals_eq, hm'.totals_eq]
  constructor
  · refine congrArg UInt64.ofNat (h.sumVals hm hm' _ rfl fun t t' ht => ?_)
    rw [show t.v4 = t'.v4 from ht .v4, show t.v6 = t'.v6 from ht .v6]
  · refine congrArg UInt64.ofNat (h.sumVals hm hm' _ rfl fun t t' ht => ?_)
    rw [show t.v4 = t'.v4 from ht .v4, show t.v6 = t'.v6 from ht .v6]

theorem Agrees.totals {s s' : Store} (h : s.Agrees s') {m m' : FlatStore} (hm : s.Refines m)
    (hm' : s'.Refines m') (order order' : HashOrder) : s.totals order = s'.totals order' := by
  have htorrents : m.len = m'.len := by
    rw [Finmap.len_eq_sumVals, Finmap.len_eq_sumVals]
    refine Finmap.sumVals_eq_of_lookup _ fun hash => ?_
    have htracked := h.tracked hash
    rw [hm.get_eq, hm'.get_eq] at htracked
    cases hget : m.lookup hash <;> cases hget' : m'.lookup hash <;> simp_all
  have hpeers := h.lists.totals hm hm' order order'
  rw [hm.totals_eq, hm'.totals_eq] at hpeers ⊢
  rw [Totals.mk.injEq]
  exact ⟨congrArg UInt64.ofNat htorrents, hpeers.1, hpeers.2⟩

/-- All that may differ between the stores is the minute of the last activity of a torrent. -/
def SameUpToBase (s s' : Store) : Prop :=
  ∀ hash, ((s.get hash).map fun t => { t with base := 0 }) = (s'.get hash).map fun t => { t with base := 0 }

theorem Agrees.sameUpToBase {s s' : Store} (h : s.Agrees s') : s.SameUpToBase s' := by
  intro hash
  have htracked := h.tracked hash
  have hlists := h.lists hash
  simp only [listOf] at hlists
  cases hget : s.get hash with
  | none =>
      rw [hget, Option.isSome_none] at htracked
      rw [Option.isSome_eq_false_iff.mp htracked.symm |> Option.isNone_iff_eq_none.mp]
  | some t =>
      rw [hget, Option.isSome_some] at htracked
      obtain ⟨t', hget'⟩ := Option.isSome_iff_exists.mp htracked.symm
      rw [hget, hget', Option.getD_some, Option.getD_some] at hlists
      have hv4 : t.v4 = t'.v4 := hlists .v4
      have hv6 : t.v6 = t'.v6 := hlists .v6
      rw [hget', Option.map_some, Option.map_some, hv4, hv6]

theorem foldl_order (order order' : HashOrder) (s : Store) (ops : List Op) :
    ops.foldl (Store.step order) s = ops.foldl (Store.step order') s := by
  have hstep : Store.step order = Store.step order' := by
    funext s op
    exact step_order order order' s op
  rw [hstep]

/-- The calls of a run, for the peers of a list. -/
theorem foldl_act (order : HashOrder) (s : Store) (xs : List (PeerRef × PeerAct)) :
    xs.foldl (act order) s = (xs.map fun x => x.2.op x.1).foldl (Store.step order) s := by
  rw [List.foldl_map]
  rfl

/-- **Operations on different peers commute.** From the same reachable store, two interleavings of the
same sequences of announces and removals, one sequence for each peer, leave stores that only differ in
the minutes of activity; and they stay so under further announces and removals, with the same totals.
Under any further operations, collections among them, every scrape stays the same, and so do the seeders
and leechers of the totals: a collection reads the minutes of activity, but only to drop torrents whose
scrape is all zeros. -/
theorem interleavings_agree (order order' : HashOrder) (ops later : List Op) {xs ys : List (PeerRef × PeerAct)}
    (hsame : SameByKey Prod.fst xs ys) :
    let s := later.foldl (Store.step order) (xs.foldl (act order) (run order ops))
    let s' := later.foldl (Store.step order') (ys.foldl (act order') (run order' ops))
    (∀ hash f, s.listOf hash f = s'.listOf hash f) ∧ (∀ hash, s.scrape hash = s'.scrape hash) ∧
      (∀ o o', (s.totals o).seeders = (s'.totals o').seeders ∧ (s.totals o).leechers = (s'.totals o').leechers) ∧
      ((∀ now, Op.gc now ∉ later) → s.SameUpToBase s' ∧ ∀ o o', s.totals o = s'.totals o') := by
  intro s s'
  have hs' : s' = later.foldl (Store.step order) (ys.foldl (act order) (run order ops)) := by
    rw [foldl_act, run, foldl_order order order', foldl_order order order', foldl_order order order', ← foldl_act]
    rfl
  have hcounted : (run order ops).CountedLists := by
    intro hash f
    unfold listOf
    cases hget : (run order ops).get hash with
    | none => exact Torrent.counted_new f
    | some t => exact counted_run order ops hash t hget f
  have hagrees : (xs.foldl (act order) (run order ops)).Agrees (ys.foldl (act order) (run order ops)) :=
    (commutes_act order).foldl_of_sameByKey hcounted hsame
  have hrefines : ∀ zs : List (PeerRef × PeerAct),
      ∃ m, (later.foldl (Store.step order) (zs.foldl (act order) (run order ops))).Refines m := by
    intro zs
    rw [foldl_act, run, ← List.foldl_append, ← List.foldl_append]
    exact ⟨_, refines_run order _⟩
  obtain ⟨m, hm⟩ := hrefines xs
  obtain ⟨m', hm'⟩ := hrefines ys
  rw [← hs'] at hm'
  have hlists : s.SameLists s' := by
    rw [hs']
    exact hagrees.lists.foldl order later
  refine ⟨hlists, hlists.scrape, hlists.totals hm hm', fun hgc => ?_⟩
  have hall : s.Agrees s' := by
    rw [hs']
    exact hagrees.foldl order hgc
  exact ⟨hall.sameUpToBase, hall.totals hm hm'⟩

/-- A seeder that joins a swarm and a leecher that leaves it, in one order and in the other. -/
theorem interleavings_agree_swapped :
    let seeder : PeerRef × PeerAct := (⟨.replicate _ 1, .v4, .replicate _ 2⟩, .announce Flag.seeding 50 7 [])
    let leecher : PeerRef × PeerAct := (⟨.replicate _ 1, .v4, .replicate _ 3⟩, .remove 9)
    let start : List Op := [.announce leecher.1 0 50 5 []]
    let s := [seeder, leecher].foldl (act HashOrder.arbitrary) (run HashOrder.arbitrary start)
    let s' := [leecher, seeder].foldl (act HashOrder.arbitrary) (run HashOrder.arbitrary start)
    s.SameUpToBase s' ∧ s.totals HashOrder.arbitrary = s'.totals HashOrder.arbitrary := by
  intro seeder leecher start
  have hsame : SameByKey Prod.fst [seeder, leecher] [leecher, seeder] := by
    intro r
    have hne : seeder.1 ≠ leecher.1 := by decide
    by_cases hseeder : seeder.1 = r
    · have hleecher : leecher.1 ≠ r := fun h => hne (hseeder.trans h.symm)
      simp [hseeder, hleecher]
    · simp [hseeder, List.filter_cons]
  obtain ⟨-, -, -, hall⟩ := interleavings_agree HashOrder.arbitrary HashOrder.arbitrary start [] hsame
  obtain ⟨hbase, htotals⟩ := hall fun now => List.not_mem_nil
  exact ⟨hbase, htotals _ _⟩

end Store
end Bluefrog
