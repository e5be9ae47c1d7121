import Bluefrog.Core.Downloads

/-!
What is reported of downloads. The counters of both families are added and narrowed to 32 bits. Every
announce, removal and scrape of a torrent reports them, so a client that watches them sees each download,
and sees the report fall when their number reaches `2 ^ 32`.
-/

open Rust History

namespace Bluefrog

/-- A call of the store: of one of its mutators, or a scrape. -/
inductive StoreCall where
  | mutate (op : Op)
  | scrape (hash : InfoHash)

/-- The mutators called. -/
def mutations (calls : List StoreCall) : List Op :=
  calls.filterMap fun call =>
    match call with
    | .mutate op => some op
    | .scrape _ => none

theorem mutations_append (calls calls' : List StoreCall) :
    mutations (calls ++ calls') = mutations calls ++ mutations calls' := List.filterMap_append

/-- The torrent a call returns the counts of. -/
def StoreCall.torrent : StoreCall → Option InfoHash
  | .mutate (.announce r _ _ _ _) => some r.hash
  | .mutate (.remove r _) => some r.hash
  | .mutate (.gc _) => none
  | .scrape hash => some hash

/-- The downloads of a history, in both families of a torrent. -/
noncomputable def allDownloads (hash : InfoHash) (ops : List Op) : Nat :=
  downloads hash .v4 ops + downloads hash .v6 ops

namespace Store

variable (order : HashOrder)

/-- One call, with the counts it returns. -/
def answer (s : Store) : StoreCall → Store × Option Counts
  | .mutate op => ((s.exec order op).1, (s.exec order op).2.counts)
  | .scrape hash => (s, some (s.scrape hash))

/-- The store after some calls, from an empty store. -/
def afterCalls (calls : List StoreCall) : Store := calls.foldl (fun s call => (s.answer order call).1) new

/-- What the next call reports of the downloads of a torrent. -/
def report (hash : InfoHash) (s : Store) (call : StoreCall) : Option UInt32 :=
  if call.torrent = some hash then (s.answer order call).2.map Counts.downloaded else none

/-- What the calls report of the downloads of a torrent, in turn. -/
def reports (hash : InfoHash) : Store → List StoreCall → List UInt32
  | _, [] => []
  | s, call :: calls => (report order hash s call).toList ++ reports hash (s.answer order call).1 calls

theorem afterCalls_append_singleton (calls : List StoreCall) (call : StoreCall) :
    afterCalls order (calls ++ [call]) = ((afterCalls order calls).answer order call).1 := List.foldl_concat _ _ _ _

theorem reports_append (hash : InfoHash) (s : Store) (calls calls' : List StoreCall) :
    reports order hash s (calls ++ calls') = reports order hash s calls ++
      reports order hash (calls.foldl (fun s call => (s.answer order call).1) s) calls' := by
  induction calls generalizing s with
  | nil => rfl
  | cons call calls ih => rw [List.cons_append, reports, reports, ih, List.append_assoc, List.foldl_cons]

theorem reports_append_singleton (hash : InfoHash) (calls : List StoreCall) (call : StoreCall) :
    reports order hash new (calls ++ [call]) =
      reports order hash new calls ++ (report order hash (afterCalls order calls) call).toList := by
  rw [reports_append, reports, reports, List.append_nil]
  rfl

/-- Scrapes leave the store alone. -/
theorem afterCalls_eq (calls : List StoreCall) : afterCalls order calls = run order (mutations calls) := by
  induction calls using List.reverseRecOn with
  | nil => rfl
  | append_singleton calls call ih =>
      rw [afterCalls_append_singleton, ih, mutations_append]
      cases call with
      | mutate op => exact (run_append_singleton order _ op).symm
      | scrape hash => exact (congrArg (run order) (List.append_nil _)).symm

/-- The counts of a torrent hold its downloads, in 32 bits. -/
theorem scrape_downloaded (ops : List Op) (hash : InfoHash) :
    ((run order ops).scrape hash).downloaded.toNat = allDownloads hash ops % 2 ^ 32 := by
  have hsum : ((run order ops).scrape hash).downloaded =
      ((run order ops).downloadedIn hash .v4 + (run order ops).downloadedIn hash .v6).toUInt32 := by
    rw [scrape, downloadedIn, downloadedIn, listOf, listOf]
    cases (run order ops).get hash <;> rfl
  rw [hsum, downloadedIn_run, downloadedIn_run, ← UInt64.ofNat_add, UInt64.toNat_toUInt32, UInt64.toNat_ofNat',
    Nat.mod_mod_of_dvd _ (by decide), allDownloads]

/-- A report is of the downloads up to and including its call. -/
theorem report_eq (calls : List StoreCall) (call : StoreCall) {hash : InfoHash} {v : UInt32}
    (h : report order hash (afterCalls order calls) call = some v) :
    v.toNat = allDownloads hash (mutations (calls ++ [call])) % 2 ^ 32 := by
  rw [← scrape_downloaded order, ← afterCalls_eq, afterCalls_append_singleton]
  unfold report at h
  split_ifs at h with htorrent
  cases call with
  | mutate op =>
      have hcounts : ((afterCalls order calls).exec order op).2.counts =
          some (((afterCalls order calls).step order op).scrape hash) := by
        cases op with
        | announce r flags numwant now peersOut =>
            cases htorrent
            exact exec_counts order _ _ r (.inl ⟨flags, numwant, now, peersOut, rfl⟩)
        | remove r now =>
            cases htorrent
            exact exec_counts order _ _ r (.inr ⟨now, rfl⟩)
        | gc now => cases htorrent
      rw [answer, hcounts] at h
      cases h
      rfl
  | scrape hash' =>
      cases htorrent
      cases h
      rfl

end Store

section Downloads

variable {hash : InfoHash}

/-- One call is at most one download. -/
theorem allDownloads_append_singleton (hash : InfoHash) (calls : List StoreCall) (call : StoreCall) :
    allDownloads hash (mutations calls) ≤ allDownloads hash (mutations (calls ++ [call])) ∧
      allDownloads hash (mutations (calls ++ [call])) ≤ allDownloads hash (mutations calls) + 1 := by
  cases call with
  | mutate op =>
      have hone : ¬(op.Downloads hash .v4 (mutations calls) ∧ op.Downloads hash .v6 (mutations calls)) := by
        rintro ⟨⟨_, ⟨_, _, _, _, rfl, -⟩, -⟩, ⟨_, ⟨_, _, _, _, heq, -⟩, -⟩⟩
        cases heq
      rw [mutations_append, show mutations [.mutate op] = [op] from rfl, allDownloads, allDownloads,
        downloads_append_singleton, downloads_append_singleton]
      split_ifs with h4 h6 h6
      · exact absurd ⟨h4, h6⟩ hone
      · omega
      · omega
      · omega
  | scrape hash' =>
      rw [mutations_append, show mutations [.scrape hash'] = [] from rfl, List.append_nil]
      omega

namespace Store

variable (order : HashOrder)

/-- A call that is a download reports it. -/
theorem exists_report {calls : List StoreCall} {call : StoreCall}
    (h : allDownloads hash (mutations calls) < allDownloads hash (mutations (calls ++ [call]))) :
    ∃ v, report order hash (afterCalls order calls) call = some v := by
  cases call with
  | mutate op =>
      have hdownloads : ∃ f, op.Downloads hash f (mutations calls) := by
        by_contra hnone
        rw [not_exists] at hnone
        rw [mutations_append, show mutations [.mutate op] = [op] from rfl, allDownloads, allDownloads,
          downloads_append_singleton, downloads_append_singleton, if_neg (hnone .v4), if_neg (hnone .v6)] at h
        exact Nat.lt_irrefl _ h
      obtain ⟨f, key, ⟨flags, numwant, now, peersOut, rfl, -⟩, -⟩ := hdownloads
      exact ⟨_, if_pos rfl⟩
  | scrape hash' =>
      rw [mutations_append, show mutations [.scrape hash'] = [] from rfl, List.append_nil] at h
      exact absurd h (Nat.lt_irrefl _)

/-- While the downloads fit 32 bits, each report is of all downloads so far. -/
theorem pairwise_reports {calls : List StoreCall} (h : allDownloads hash (mutations calls) < 2 ^ 32) :
    (reports order hash new calls).Pairwise (· ≤ ·) ∧
      ∀ v ∈ reports order hash new calls, v.toNat ≤ allDownloads hash (mutations calls) := by
  induction calls using List.reverseRecOn with
  | nil => exact ⟨.nil, fun v hv => absurd hv List.not_mem_nil⟩
  | append_singleton calls call ih =>
      have hmono := (allDownloads_append_singleton hash calls call).1
      obtain ⟨hpairwise, hle⟩ := ih (Nat.lt_of_le_of_lt hmono h)
      rw [reports_append_singleton]
      cases hreport : report order hash (afterCalls order calls) call with
      | none =>
          rw [Option.toList_none, List.append_nil]
          exact ⟨hpairwise, fun v hv => (hle v hv).trans hmono⟩
      | some v =>
          have hv : v.toNat = allDownloads hash (mutations (calls ++ [call])) :=
            (report_eq order calls call hreport).trans (Nat.mod_eq_of_lt h)
          rw [Option.toList_some, List.pairwise_append]
          refine ⟨⟨hpairwise, List.pairwise_singleton _ _, fun v' hv' v'' hv'' => ?_⟩, fun v' hv' => ?_⟩
          · rw [List.mem_singleton.mp hv'', UInt32.le_iff_toNat_le, hv]
            exact (hle v' hv').trans hmono
          · rcases List.mem_append.mp hv' with hv' | hv'
            · exact (hle v' hv').trans hmono
            · rw [List.mem_singleton.mp hv', hv]

/-- A report is in the reports of every run that goes on. -/
theorem mem_reports {calls : List StoreCall} {call : StoreCall} {v : UInt32}
    (h : report order hash (afterCalls order calls) call = some v) (later : List StoreCall) :
    v ∈ reports order hash new (calls ++ call :: later) := by
  rw [List.append_cons, reports_append, reports_append_singleton, h]
  exact List.mem_append_left _ (List.mem_append_right _ List.mem_cons_self)

/-- Every number of downloads on the way is reached by a download of its own. -/
theorem exists_download {n : Nat} (hpos : 0 < n) {calls : List StoreCall}
    (h : n ≤ allDownloads hash (mutations calls)) : ∃ before call after, calls = before ++ call :: after ∧
      allDownloads hash (mutations before) < n ∧ allDownloads hash (mutations (before ++ [call])) = n :=
  @exists_reaches _ (fun calls => allDownloads hash (mutations calls)) rfl
    (fun calls call => (allDownloads_append_singleton hash calls call).2) _ hpos _ h

/-- The download that makes it `2 ^ 32` is reported as none. -/
theorem not_pairwise_reports {calls : List StoreCall} (h : 2 ^ 32 ≤ allDownloads hash (mutations calls)) :
    ¬(reports order hash new calls).Pairwise (· ≤ ·) := by
  obtain ⟨before, call, after, rfl, hlt, hwraps⟩ := exists_download (by decide) h
  have hfull : 2 ^ 32 - 1 ≤ allDownloads hash (mutations before) := by
    have hone := (allDownloads_append_singleton hash before call).2
    omega
  obtain ⟨before, call', between, rfl, hlt', hmax⟩ := exists_download (by decide) hfull
  obtain ⟨v, hv⟩ := exists_report order (Nat.lt_of_lt_of_eq hlt' hmax.symm)
  obtain ⟨v', hv'⟩ := exists_report order (Nat.lt_of_lt_of_eq hlt hwraps.symm)
  have hlast : v.toNat = 2 ^ 32 - 1 := by
    rw [report_eq order _ _ hv, hmax, Nat.mod_eq_of_lt (by decide)]
  have hzero : v'.toNat = 0 := by rw [report_eq order _ _ hv', hwraps, Nat.mod_self]
  intro hpairwise
  rw [List.append_cons, reports_append, reports_append_singleton, hv'] at hpairwise
  have hle := (List.pairwise_append.mp (List.pairwise_append.mp hpairwise).1).2.2 v (mem_reports order hv between) v'
    List.mem_cons_self
  rw [UInt32.le_iff_toNat_le] at hle
  omega

/-- **When reported downloads never go backwards.** -/
theorem reports_monotone_iff (calls : List StoreCall) (hash : InfoHash) :
    (reports order hash new calls).Pairwise (· ≤ ·) ↔ allDownloads hash (mutations calls) < 2 ^ 32 := by
  constructor
  · intro hpairwise
    by_contra hge
    exact not_pairwise_reports order (Nat.not_lt.mp hge) hpairwise
  · exact fun h => (pairwise_reports order h).1

end Store
end Downloads

/-- A peer that completes and leaves, again and again. -/
def cycles (r : PeerRef) (n : Nat) : List Op := (List.replicate n [.announce r 0xC0 0 0 [], .remove r 0]).flatten

theorem cycles_succ (r : PeerRef) (n : Nat) :
    cycles r (n + 1) = cycles r n ++ [.announce r 0xC0 0 0 []] ++ [.remove r 0] := by
  rw [cycles, List.replicate_succ', List.flatten_append, List.flatten_singleton, List.append_assoc]
  rfl

/-- Each time is a download. -/
theorem downloads_cycles (r : PeerRef) (n : Nat) :
    downloads r.hash r.family (cycles r n) = n ∧ ¬Present (cycles r n) r := by
  induction n with
  | zero => exact ⟨rfl, fun ⟨t, h⟩ => not_live_nil r t h⟩
  | succ n ih =>
      have hdownload : (Op.announce r 0xC0 0 0 []).Downloads r.hash r.family (cycles r n) :=
        ⟨r.key, ⟨0xC0, 0, 0, [], rfl, rfl, rfl⟩, fun hsince => ih.2 hsince.holds_now⟩
      have hremove : ∀ ops, ¬(Op.remove r 0).Downloads r.hash r.family ops := by
        rintro ops ⟨key, ⟨_, _, _, _, heq, -⟩, -⟩
        cases heq
      rw [cycles_succ]
      refine ⟨?_, ?_⟩
      · rw [downloads_append_singleton, downloads_append_singleton, if_pos hdownload, if_neg (hremove _), ih.1]
      · rintro ⟨t, h⟩
        rcases (live_append_singleton _ _ r t).mp h with ⟨_, _, _, heq⟩ | ⟨-, -, hforgets⟩
        · cases heq
        · exact hforgets (.inl ⟨0, rfl⟩)

theorem mutations_map (ops : List Op) : mutations (ops.map .mutate) = ops := by
  induction ops with
  | nil => rfl
  | cons op ops ih => exact congrArg (op :: ·) ih

namespace Store

/-- A peer that completes and leaves `2 ^ 32` times: the last report is smaller than the one before. -/
theorem reports_wrap : ¬(reports .arbitrary (.replicate _ 1) new
    ((cycles ⟨.replicate _ 1, .v4, .replicate _ 2⟩ (2 ^ 32)).map .mutate)).Pairwise (· ≤ ·) := by
  refine not_pairwise_reports .arbitrary ?_
  rw [mutations_map, allDownloads]
  exact Nat.le_add_right_of_le (Nat.le_of_eq (downloads_cycles ⟨.replicate _ 1, .v4, .replicate _ 2⟩ (2 ^ 32)).1.symm)

end Store
end Bluefrog
