import Bluefrog.Core.Counters
import Bluefrog.Lib.Passes

/-!
The locks of the store. A call takes the lock of one shard; the passes of `gc` and `totals` take all of
them, one after the other, and calls of other threads run in between. A pass of the collector is still as
good as one that holds every lock at once: the calls it has overtaken can be put before it and the others
after it, and no shard and no caller can tell. In the same way the totals are those of one state of
the store, though no such state need ever have been in memory.
-/

open Rust Sharded Interleaving Passes

namespace Bluefrog
namespace Locks

abbrev Shard := HashMap InfoHash Torrent

/-- A call that takes one lock. A table may have another iteration order at every call: an announce says
which one it meets. -/
inductive Access where
  | announce (met : Nat) (r : PeerRef) (flags : UInt8) (numwant : Nat) (now : UInt32) (peersOut : List UInt8)
  | remove (r : PeerRef) (now : UInt32)
  | scrape (hash : InfoHash)

variable (order : Nat → HashOrder)

namespace Access

def hash : Access → InfoHash
  | .announce _ r _ _ _ _ => r.hash
  | .remove r _ => r.hash
  | .scrape hash => hash

/-- What the call does under the lock of its shard. -/
def locked (shard : Shard) : Access → Shard × Reply
  | .announce met r flags numwant now peersOut =>
      let t := ((shard.lookup r.hash).getD Torrent.new).withAnnounce r.family r.key flags now
      (shard.insert r.hash t, ⟨some t.counts, (t.list r.family).writeCompact (order met) numwant peersOut⟩)
  | .remove r now =>
      match shard.lookup r.hash with
      | some t =>
          let t := t.withRemove r.family r.key now
          (shard.insert r.hash t, ⟨some t.counts, []⟩)
      | none => (shard, ⟨some Counts.default, []⟩)
  | .scrape hash => (shard, ⟨some (((shard.lookup hash).map Torrent.counts).getD Counts.default), []⟩)

/-- The call on the whole store. -/
def onStore (s : Store) : Access → Store × Reply
  | .announce met r flags numwant now peersOut => s.exec (order met) (.announce r flags numwant now peersOut)
  | .remove r now =>
      let (s, counts) := s.remove r.family r.hash r.key now
      (s, ⟨some counts, []⟩)
  | .scrape hash => (s, ⟨some (s.scrape hash), []⟩)

/-- A call reads and writes the shard of its info-hash only. -/
theorem onStore_eq (s : Store) (a : Access) : a.onStore order s =
    (⟨Function.update s.shards (Store.shardIndex a.hash) (a.locked order (s.shards (Store.shardIndex a.hash))).1⟩,
      (a.locked order (s.shards (Store.shardIndex a.hash))).2) := by
  cases a with
  | announce met r flags numwant now peersOut => rfl
  | remove r now =>
      cases hget : (s.shards (Store.shardIndex r.hash)).lookup r.hash <;>
        simp [onStore, locked, Access.hash, Store.remove, Store.get, Sharded.get, Store.put, setShard, hget]
  | scrape hash =>
      cases hget : (s.shards (Store.shardIndex hash)).lookup hash <;>
        simp [onStore, locked, Access.hash, Store.scrape, Store.get, Sharded.get, hget]

end Access

/-- What runs under one lock: a call, or the collector's turn at one shard. -/
inductive Section where
  | access (a : Access)
  | sweep (now : UInt32) (i : Fin shardCount)

def Section.shard : Section → Fin shardCount
  | .access a => Store.shardIndex a.hash
  | .sweep _ i => i

theorem Section.shard_access (a : Access) : (Section.access a).shard = Store.shardIndex a.hash := rfl

/-- What a shard has seen. -/
inductive Entry where
  | returned (a : Access) (reply : Reply)
  | swept (now : UInt32)

/-- A shard, with all that ran under its lock so far. -/
structure Cell where
  shard : Shard
  log : List Entry

abbrev Cells := Fin shardCount → Cell

def Cells.new : Cells := fun _ => ⟨∅, []⟩

def Cells.store (cells : Cells) : Store := ⟨fun i => (cells i).shard⟩

def Section.run : Section → Cell → Cell
  | .access a, c => ⟨(a.locked order c.shard).1, c.log ++ [.returned a (a.locked order c.shard).2]⟩
  | .sweep now _, c => ⟨c.shard.retain (Torrent.sweep now), c.log ++ [.swept now]⟩

def Cells.step : Cells → Section → Cells := stepAt Section.shard (Section.run order)

theorem Cells.step_apply (cells : Cells) (x : Section) (i : Fin shardCount) :
    cells.step order x i = if i = x.shard then x.run order (cells i) else cells i := by
  rw [step, stepAt, Function.update_apply]
  split_ifs with hi
  · rw [hi]
  · rfl

/-- The cells after some sections. -/
def Cells.after (sections : List Section) : Cells := sections.foldl (Cells.step order) Cells.new

theorem Cells.after_append_singleton (sections : List Section) (x : Section) :
    Cells.after order (sections ++ [x]) = (Cells.after order sections).step order x := List.foldl_concat _ _ _ _

/-- The cells are the same for every order of the sections that keeps the order of each shard. -/
theorem Cells.after_congr {xs ys : List Section} (h : SameByKey Section.shard xs ys) :
    after order xs = after order ys :=
  foldl_of_sameByKey h Cells.new

section Collector

/-- A call, or a pass of the collector under all locks at once. -/
inductive Atomic where
  | access (a : Access)
  | gc (now : UInt32)

/-- A store, with what every shard has seen. -/
structure History where
  store : Store
  log : Fin shardCount → List Entry

def History.new : History := ⟨Store.new, fun _ => []⟩

def History.step (h : History) : Atomic → History
  | .access a =>
      let (store, reply) := a.onStore order h.store
      let i := Store.shardIndex a.hash
      ⟨store, Function.update h.log i (h.log i ++ [.returned a reply])⟩
  | .gc now => ⟨h.store.gc now, fun i => h.log i ++ [.swept now]⟩

def History.run (atomics : List Atomic) : History := atomics.foldl (step order) new

def Cells.history (cells : Cells) : History := ⟨cells.store, fun i => (cells i).log⟩

/-- The sections an atomic step is made of. -/
def Atomic.sections : Atomic → List Section
  | .access a => [.access a]
  | .gc now => (List.finRange shardCount).map (.sweep now)

theorem history_access (cells : Cells) (a : Access) :
    (cells.step order (.access a)).history = cells.history.step order (.access a) := by
  simp only [Cells.history, History.step, Access.onStore_eq]
  refine congrArg₂ History.mk (congrArg Store.mk ?_) ?_
  · funext i
    rw [Cells.step_apply, Function.update_apply, Section.shard_access]
    split_ifs with hi
    · rw [hi]
      rfl
    · rfl
  · funext i
    rw [Cells.step_apply, Function.update_apply, Section.shard_access]
    split_ifs with hi
    · rw [hi]
      rfl
    · rfl

/-- Sweeping some shards one by one sweeps each of them, and no other. -/
theorem foldl_sweeps (cells : Cells) (now : UInt32) {is : List (Fin shardCount)} (hnodup : is.Nodup)
    (i : Fin shardCount) : (is.map (Section.sweep now)).foldl (Cells.step order) cells i =
      if i ∈ is then (Section.sweep now i).run order (cells i) else cells i := by
  induction is generalizing cells with
  | nil => rfl
  | cons j is ih =>
      obtain ⟨hj, hnodup⟩ := List.nodup_cons.mp hnodup
      rw [List.map_cons, List.foldl_cons, ih _ hnodup, Cells.step_apply]
      by_cases hi : i = j
      · subst hi
        rw [if_neg hj, if_pos List.mem_cons_self]
        exact if_pos rfl
      · have hne : ¬i = (Section.sweep now j).shard := hi
        simp only [List.mem_cons, hi, false_or, if_neg hne]

theorem history_gc (cells : Cells) (now : UInt32) :
    ((Atomic.gc now).sections.foldl (Cells.step order) cells).history = cells.history.step order (.gc now) := by
  have hswept : (Atomic.gc now).sections.foldl (Cells.step order) cells =
      fun i => (Section.sweep now i).run order (cells i) := by
    funext i
    rw [Atomic.sections, foldl_sweeps order cells now (List.nodup_finRange _), if_pos (List.mem_finRange i)]
  rw [hswept]
  rfl

/-- The sections of atomic steps do what the steps do. -/
theorem history_after (atomics : List Atomic) :
    (Cells.after order (atomics.flatMap Atomic.sections)).history = History.run order atomics := by
  induction atomics using List.reverseRecOn with
  | nil => rfl
  | append_singleton atomics x ih =>
      rw [List.flatMap_append, List.flatMap_singleton, Cells.after, List.foldl_append, History.run, List.foldl_concat,
        ← History.run, ← ih]
      cases x with
      | access a => exact history_access order _ a
      | gc now => exact history_gc order _ now

end Collector
/-- What a pass of the totals adds under the lock of one shard. -/
def addShard (order : HashOrder) (totals : Totals) (shard : Shard) : Totals :=
  let totals := { totals with torrents := totals.torrents + UInt64.ofNat shard.len }
  (order.toList shard).foldl (fun totals e => Store.addTotals totals e.2) totals

/-- A reader of the totals in the middle of its pass: the shard it reads next, what it has added up, and the
sections that had run when it began. -/
structure Reading where
  next : Fin shardCount
  totals : Totals
  since : List Section

/-- The totals that a reader has come to, and the sections that had run when it began and when it was done. -/
structure Report where
  totals : Totals
  since : List Section
  upTo : List Section

/-- The store and the tasks that go over it. The collector is at a shard of a pass that began at some minute,
or between two passes. `trace` lists the sections that have run. -/
structure State where
  cells : Cells
  sweeping : Option (UInt32 × Fin shardCount)
  reading : Nat → Option Reading
  reports : List Report
  trace : List Section

/-- A caller makes a call, or a task takes its next lock. -/
inductive Action where
  | access (a : Access)
  | collect (now : UInt32)
  | measure (reader met : Nat)

def firstShard : Fin shardCount := ⟨0, by decide⟩

def nextShard (i : Fin shardCount) : Option (Fin shardCount) :=
  if h : i.val + 1 < shardCount then some ⟨i.val + 1, h⟩ else none

namespace State

def init : State := ⟨Cells.new, none, fun _ => none, [], []⟩

def locks (s : State) (x : Section) : State := { s with cells := s.cells.step order x, trace := s.trace ++ [x] }

/-- Where a reader is: at the first shard if it is between two passes. -/
def current (s : State) (reader : Nat) : Reading := (s.reading reader).getD ⟨firstShard, ⟨0, 0, 0⟩, s.trace⟩

/-- Where the collector is: at the first shard of a pass that begins now if it is between two passes. -/
def pass (s : State) (now : UInt32) : UInt32 × Fin shardCount := s.sweeping.getD (now, firstShard)

def step (s : State) : Action → State
  | .access a => s.locks order (.access a)
  | .collect now =>
      let (now, i) := s.pass now
      { s.locks order (.sweep now i) with sweeping := (nextShard i).map fun j => (now, j) }
  | .measure reader met =>
      let r := s.current reader
      let totals := addShard (order met) r.totals (s.cells r.next).shard
      match nextShard r.next with
      | some next => { s with reading := Function.update s.reading reader (some ⟨next, totals, r.since⟩) }
      | none =>
          { s with
            reading := Function.update s.reading reader none
            reports := s.reports ++ [⟨totals, r.since, s.trace⟩] }

def run (actions : List Action) : State := actions.foldl (step order) init

/-- The number of locks that the pass in progress has still to take. -/
def remaining (s : State) : Nat := s.sweeping.elim 0 fun pass => shardCount - pass.2

/-- The collector is let end its pass, with nothing else in between. -/
def finish (s : State) : State := (List.replicate s.remaining (.collect 0)).foldl (step order) s

end State

theorem nextShard_eq_some {i j : Fin shardCount} : nextShard i = some j ↔ j.val = i.val + 1 := by
  unfold nextShard
  split_ifs with h
  · rw [Option.some_inj, Fin.ext_iff]
    exact eq_comm
  · have hj := j.isLt
    simp only [false_iff]
    omega

theorem nextShard_eq_none {i : Fin shardCount} : nextShard i = none ↔ i.val + 1 = shardCount := by
  unfold nextShard
  have hi := i.isLt
  split_ifs with h
  · simp only [false_iff]
    omega
  · simp only [true_iff]
    omega

theorem State.cells_run (actions : List Action) :
    (run order actions).cells = Cells.after order (run order actions).trace := by
  induction actions using List.reverseRecOn with
  | nil => rfl
  | append_singleton actions action ih =>
      rw [run, List.foldl_concat, ← run]
      cases action with
      | access a =>
          simp only [step, locks]
          rw [Cells.after_append_singleton, ih]
      | collect now =>
          simp only [step, locks]
          rw [Cells.after_append_singleton, ih]
      | measure reader met =>
          simp only [step]
          cases nextShard ((run order actions).current reader).next <;> exact ih

section Collector

variable {s : State}

/-- The pass in progress has been at the shard. -/
def State.Passed (s : State) (j : Fin shardCount) : Prop := ∃ now i, s.sweeping = some (now, i) ∧ j < i

/-- The collector's sections of the first shards. -/
def sweepsTo (now : UInt32) (n : Nat) : List Section := ((List.finRange shardCount).take n).map (.sweep now)

/-- What the pass in progress has done. -/
def State.swept (s : State) : List Section := s.sweeping.elim [] fun pass => sweepsTo pass.1 pass.2

theorem sweepsTo_succ (now : UInt32) (i : Fin shardCount) :
    sweepsTo now (i + 1) = sweepsTo now i ++ [.sweep now i] := by
  rw [sweepsTo, sweepsTo, List.take_succ_eq_append_getElem (by rw [List.length_finRange]; exact i.isLt),
    List.map_append, List.getElem_finRange]
  rfl

theorem sweepsTo_all (now : UInt32) : sweepsTo now shardCount = (Atomic.gc now).sections := by
  rw [sweepsTo, List.take_of_length_le (by rw [List.length_finRange])]
  rfl

/-- What has run is, shard by shard, what some atomic steps would have run, then the part of the pass in
progress, then the calls that have come after it. -/
def Serialised (base : List Atomic) (s : State) : Prop :=
  ∃ (atomics : List Atomic) (late : List Access),
    Split Section.shard s.Passed s.trace ((base ++ atomics).flatMap Atomic.sections) s.swept (late.map .access)

variable {base : List Atomic}

theorem flatMap_access (atomics : List Atomic) (accesses : List Access) :
    (atomics ++ accesses.map Atomic.access).flatMap Atomic.sections =
      atomics.flatMap Atomic.sections ++ accesses.map .access := by
  rw [List.flatMap_append, List.flatMap_map]
  congr 1
  exact List.flatMap_pure_eq_map _ _

theorem Serialised.access (h : Serialised base s) (a : Access) : Serialised base (s.step order (.access a)) := by
  obtain ⟨atomics, late, hsplit⟩ := h
  by_cases hdone : s.Passed (Store.shardIndex a.hash)
  · refine ⟨atomics, late ++ [a], ?_⟩
    rw [List.map_append]
    exact hsplit.late hdone
  · refine ⟨atomics ++ [.access a], late, ?_⟩
    rw [← List.append_assoc, List.flatMap_append]
    exact hsplit.early hdone

/-- The pass in progress, or one that is about to begin. -/
theorem Serialised.pass (h : Serialised base s) (now : UInt32) :
    ∃ (atomics : List Atomic) (late : List Access),
      Split Section.shard (fun j => j.val < (s.pass now).2) s.trace ((base ++ atomics).flatMap Atomic.sections)
        (sweepsTo (s.pass now).1 (s.pass now).2) (late.map .access) := by
  obtain ⟨atomics, late, hsplit⟩ := h
  refine ⟨atomics, late, ?_⟩
  cases hs : s.sweeping with
  | none =>
      rw [State.swept, hs] at hsplit
      rw [State.pass, hs]
      refine hsplit.weaken ?_
      rintro j ⟨now', i, hpass, -⟩
      rw [hs] at hpass
      cases hpass
  | some pass =>
      rw [State.swept, hs] at hsplit
      rw [State.pass, hs]
      refine hsplit.weaken ?_
      rintro j ⟨now', i, hpass, hlt⟩
      rw [hs] at hpass
      cases hpass
      exact hlt

theorem Serialised.collect (h : Serialised base s) (now : UInt32) : Serialised base (s.step order (.collect now)) := by
  obtain ⟨atomics, late, hsplit⟩ := h.pass now
  generalize hpass : s.pass now = pass at hsplit
  obtain ⟨now', i⟩ := pass
  have hmoved : Split Section.shard (fun j => j.val < i + 1) (s.trace ++ [.sweep now' i])
      ((base ++ atomics).flatMap Atomic.sections) (sweepsTo now' (i + 1)) (late.map .access) := by
    rw [sweepsTo_succ]
    refine hsplit.advance (Nat.lt_irrefl _) fun j => ?_
    rw [Nat.lt_succ_iff_lt_or_eq, Fin.ext_iff]
    rfl
  have hsweeping : (s.step order (.collect now)).sweeping = (nextShard i).map fun j => (now', j) := by
    simp only [State.step, hpass]
  have htrace : (s.step order (.collect now)).trace = s.trace ++ [.sweep now' i] := by
    simp only [State.step, hpass, State.locks]
  cases hnext : nextShard i with
  | some j =>
      rw [hnext, Option.map_some] at hsweeping
      rw [← nextShard_eq_some.mp hnext] at hmoved
      refine ⟨atomics, late, ?_⟩
      rw [State.swept, hsweeping, htrace]
      exact hmoved.weaken fun k hk => ⟨now', j, hsweeping, hk⟩
  | none =>
      -- the pass has been at every shard, and counts as one atomic step from now on
      rw [hnext, Option.map_none] at hsweeping
      rw [nextShard_eq_none.mp hnext, sweepsTo_all] at hmoved
      refine ⟨atomics ++ [.gc now'] ++ late.map .access, [], ?_⟩
      rw [State.swept, hsweeping, htrace, ← List.append_assoc, flatMap_access, ← List.append_assoc, List.flatMap_append,
        List.flatMap_singleton]
      exact .of_same hmoved.same

theorem Serialised.measure (h : Serialised base s) (reader met : Nat) :
    Serialised base (s.step order (.measure reader met)) := by
  simp only [State.step]
  cases nextShard (s.current reader).next <;> exact h

theorem Serialised.foldl (h : Serialised base s) (actions : List Action) :
    Serialised base (actions.foldl (State.step order) s) := by
  induction actions generalizing s with
  | nil => exact h
  | cons action actions ih =>
      cases action with
      | access a => exact ih (h.access order a)
      | collect now => exact ih (h.collect order now)
      | measure reader met => exact ih (h.measure order reader met)

/-- Between two passes what has run is what atomic steps would have run. -/
theorem Serialised.same (h : Serialised base s) (hidle : s.sweeping = none) :
    ∃ atomics, SameByKey Section.shard s.trace ((base ++ atomics).flatMap Atomic.sections) := by
  obtain ⟨atomics, late, hsplit⟩ := h
  refine ⟨atomics, ?_⟩
  have hlate : late = [] := by
    cases late with
    | nil => rfl
    | cons a late =>
        obtain ⟨now, i, hpass, -⟩ := hsplit.behind (.access a) (List.mem_append_right _ List.mem_cons_self)
        rw [hidle] at hpass
        cases hpass
  have hsame := hsplit.same
  rwa [hlate, State.swept, hidle, Option.elim_none, List.map_nil, List.append_nil, List.append_nil] at hsame

theorem remaining_collect (s : State) (now : UInt32) (h : s.remaining ≠ 0) :
    (s.step order (.collect now)).remaining + 1 = s.remaining := by
  cases hs : s.sweeping with
  | none =>
      rw [State.remaining, hs] at h
      exact absurd rfl h
  | some pass =>
      obtain ⟨now', i⟩ := pass
      have hi := i.isLt
      simp only [State.remaining, State.step, State.pass, hs, Option.getD_some, Option.elim_some]
      cases hnext : nextShard i with
      | some j =>
          rw [nextShard_eq_some] at hnext
          simp only [Option.map_some, Option.elim_some]
          omega
      | none =>
          rw [nextShard_eq_none] at hnext
          simp only [Option.map_none, Option.elim_none]
          omega

theorem remaining_eq_zero {s : State} : s.remaining = 0 ↔ s.sweeping = none := by
  cases hs : s.sweeping with
  | none => simp only [State.remaining, hs, Option.elim_none]
  | some pass =>
      obtain ⟨now', i⟩ := pass
      have hi := i.isLt
      simp only [State.remaining, hs, Option.elim_some, reduceCtorEq, iff_false]
      omega

theorem sweeping_collects (s : State) {n : Nat} (h : s.remaining = n) :
    ((List.replicate n (.collect 0)).foldl (State.step order) s).sweeping = none := by
  induction n generalizing s with
  | zero => exact remaining_eq_zero.mp h
  | succ n ih =>
      have hstep := remaining_collect order s 0 (by omega)
      exact ih _ (by omega)

theorem sweeping_finish (s : State) : (s.finish order).sweeping = none := sweeping_collects order s rfl

theorem finish_run (actions : List Action) : ∃ rest, (State.run order actions).finish order =
    State.run order (actions ++ rest) :=
  ⟨_, by rw [State.finish, State.run, State.run, List.foldl_append]⟩

theorem serialised_run (actions : List Action) : Serialised [] (State.run order actions) :=
  Serialised.foldl order ⟨[], [], .of_same (.refl _)⟩ actions

theorem history_run {actions : List Action} {atomics : List Atomic}
    (h : SameByKey Section.shard (State.run order actions).trace (atomics.flatMap Atomic.sections)) :
    (State.run order actions).cells.history = History.run order atomics := by
  rw [State.cells_run, Cells.after_congr order h]
  exact history_after order atomics

/-- **The collector's pass is serialisable.** Once the pass in progress is let end, the shards hold what the calls
and whole passes leave in some order that keeps the order of each shard, and every call has returned what it
returns there. What ran before a moment at which the collector was idle comes first in that order. -/
theorem gc_serialisable (actions more : List Action) (hidle : (State.run order actions).sweeping = none) :
    ∃ before after : List Atomic,
      (State.run order actions).cells.history = History.run order before ∧
      ((State.run order (actions ++ more)).finish order).cells.history = History.run order (before ++ after) := by
  obtain ⟨before, hbefore⟩ := (serialised_run order actions).same hidle
  have hbase : Serialised before (State.run order actions) := by
    refine ⟨[], [], ?_⟩
    rw [State.swept, hidle, List.append_nil]
    exact .of_same hbefore
  obtain ⟨rest, hrest⟩ := finish_run order (actions ++ more)
  have hends := sweeping_finish order (State.run order (actions ++ more))
  have hserial := hbase.foldl order (more ++ rest)
  rw [hrest] at hends ⊢
  rw [State.run, ← List.foldl_append, ← State.run, ← List.append_assoc] at hserial
  obtain ⟨after, hafter⟩ := hserial.same hends
  exact ⟨before, after, history_run order hbefore, history_run order hafter⟩

/-- A seeder of a torrent announces at some minute. -/
def seeds (torrent : UInt8) (now : UInt32) : Action :=
  .access (.announce 0 ⟨.replicate _ torrent, .v4, .replicate _ 2⟩ 0x80 50 now [])

/-- Four shards of a pass, with an announce and a scrape after the second and an announce after the last. -/
def seededPass : List Action :=
  [.collect 60, .collect 60, seeds 65 60, .access (.scrape (.replicate _ 66)), .collect 60, .collect 60, seeds 67 61]

/-- Two announces before a pass, and others during it. -/
theorem gc_serialisable_idle :
    ((State.run (fun _ => HashOrder.arbitrary) ([seeds 65 10, seeds 66 11] ++ seededPass)).sweeping.map fun pass =>
      (pass.1, pass.2.val)) = some (60, 4) ∧
    ∃ before after : List Atomic,
      (State.run (fun _ => HashOrder.arbitrary) [seeds 65 10, seeds 66 11]).cells.history =
          History.run (fun _ => HashOrder.arbitrary) before ∧
        ((State.run (fun _ => HashOrder.arbitrary) ([seeds 65 10, seeds 66 11] ++ seededPass)).finish
          fun _ => HashOrder.arbitrary).cells.history =
            History.run (fun _ => HashOrder.arbitrary) (before ++ after) :=
  ⟨rfl, gc_serialisable (fun _ => HashOrder.arbitrary) [seeds 65 10, seeds 66 11] seededPass rfl⟩

end Collector

section Totals

variable {s : State}

/-- What a pass of the totals adds up over the first shards. -/
def totalsTo (order : HashOrder) (cells : Cells) (n : Nat) : Totals :=
  ((List.finRange shardCount).take n).foldl (fun totals i => addShard order totals (cells i).shard) ⟨0, 0, 0⟩

theorem totalsTo_succ (order : HashOrder) (cells : Cells) (i : Fin shardCount) :
    totalsTo order cells (i + 1) = addShard order (totalsTo order cells i) (cells i).shard := by
  rw [totalsTo, totalsTo, List.take_succ_eq_append_getElem (by rw [List.length_finRange]; exact i.isLt),
    List.foldl_concat, List.getElem_finRange]
  rfl

theorem totalsTo_all (order : HashOrder) (cells : Cells) :
    totalsTo order cells shardCount = cells.store.totals order := by
  rw [totalsTo, List.take_of_length_le (by rw [List.length_finRange])]
  rfl

theorem totalsTo_congr (order : HashOrder) {cells cells' : Cells} {n : Nat}
    (h : ∀ i : Fin shardCount, i.val < n → cells i = cells' i) : totalsTo order cells n = totalsTo order cells' n := by
  refine List.foldl_ext _ _ _ fun totals i hi => ?_
  obtain ⟨k, hk, rfl⟩ := List.mem_take_iff_getElem.mp hi
  rw [List.getElem_finRange, h _ (by simpa using (Nat.lt_min.mp hk).1)]

/-- The iteration order of a table does not matter to what is added up. -/
theorem addShard_order (order order' : HashOrder) (totals : Totals) (shard : Shard) :
    addShard order totals shard = addShard order' totals shard := by
  rw [addShard, addShard, Store.foldl_addTotals, Store.foldl_addTotals]

/-- What a reader has added up is what the shards it has read hold at one point of an order that every shard
sees as its own: after all that ran before the reader began, and after the sections that ran at their shard
before the reader came to it. -/
structure Snapshot (trace : List Section) (r : Reading) : Prop where
  since : r.since <+: trace
  cut : ∃ early late, Split Section.shard (fun j => j.val < r.next) trace (r.since ++ early) [] late ∧
    ∀ o, r.totals = totalsTo o (Cells.after order (r.since ++ early)) r.next

theorem Snapshot.start (trace : List Section) : Snapshot order trace ⟨firstShard, ⟨0, 0, 0⟩, trace⟩ where
  since := List.prefix_refl trace
  cut := by
    refine ⟨[], [], ?_, fun o => rfl⟩
    rw [List.append_nil]
    exact .of_same (.refl trace)

/-- Sections that run while the reader is at some shard leave what it has added up. -/
theorem Snapshot.locks {trace : List Section} {r : Reading} (h : Snapshot order trace r) (x : Section) :
    Snapshot order (trace ++ [x]) r where
  since := h.since.trans (List.prefix_append trace [x])
  cut := by
    obtain ⟨early, late, hsplit, htotals⟩ := h.cut
    by_cases hdone : x.shard.val < r.next
    · exact ⟨early, late ++ [x], hsplit.late hdone, htotals⟩
    · refine ⟨early ++ [x], late, ?_, fun o => ?_⟩
      · rw [← List.append_assoc]
        exact hsplit.early hdone
      · rw [htotals o, ← List.append_assoc, Cells.after_append_singleton]
        refine totalsTo_congr o fun i hi => ?_
        rw [Cells.step_apply, if_neg]
        rintro rfl
        exact hdone hi

/-- The reader's next shard holds what it holds at that point. -/
theorem Snapshot.read {trace : List Section} {r : Reading} (h : Snapshot order trace r) (met : Nat) :
    ∃ early late, Split Section.shard (fun j => j.val < r.next + 1) trace (r.since ++ early) [] late ∧
      ∀ o, addShard (order met) r.totals (Cells.after order trace r.next).shard =
        totalsTo o (Cells.after order (r.since ++ early)) (r.next + 1) := by
  obtain ⟨early, late, hsplit, htotals⟩ := h.cut
  refine ⟨early, late, hsplit.weaken fun j hj => Nat.lt_succ_of_lt hj, fun o => ?_⟩
  have hcell : Cells.after order trace r.next = Cells.after order (r.since ++ early) r.next := by
    rw [Cells.after_congr order hsplit.same, List.append_nil, Cells.after, List.foldl_append]
    refine foldl_of_ne (fun x hx hxs => ?_) _
    have hbehind := hsplit.behind x hx
    rw [hxs] at hbehind
    exact Nat.lt_irrefl _ hbehind
  rw [totalsTo_succ, ← htotals o, hcell, addShard_order]

/-- The totals of a report are those of a store between the reader's first lock and its last: one that the
sections before the reader, and some of those during its pass, lead to. -/
structure Report.Consistent (report : Report) : Prop where
  since : report.since <+: report.upTo
  cut : ∃ early late, SameByKey Section.shard report.upTo (report.since ++ early ++ late) ∧
    ∀ o, report.totals = (Cells.after order (report.since ++ early)).store.totals o

/-- What holds of every reader and of every report. -/
structure Measured (s : State) : Prop where
  trace : s.cells = Cells.after order s.trace
  readers : ∀ reader, Snapshot order s.trace (s.current reader)
  reports : ∀ report ∈ s.reports, report.upTo <+: s.trace ∧ report.Consistent order

/-- A section leaves the reports, and what every reader has added up. -/
theorem Measured.locks (h : Measured order s) (x : Section) (sweeping : Option (UInt32 × Fin shardCount)) :
    Measured order { s.locks order x with sweeping } where
  trace := by
    change s.cells.step order x = Cells.after order (s.trace ++ [x])
    rw [h.trace, Cells.after_append_singleton]
  readers := by
    intro reader
    have hreader := h.readers reader
    simp only [State.current, State.locks] at hreader ⊢
    cases hr : s.reading reader with
    | none => exact .start order _
    | some r =>
        rw [hr] at hreader
        exact hreader.locks order x
  reports := fun report hmem =>
    ⟨(h.reports report hmem).1.trans (List.prefix_append s.trace [x]), (h.reports report hmem).2⟩

/-- A reader that takes another lock leaves the other readers. -/
theorem Measured.update (h : Measured order s) (reader : Nat) {reading : Option Reading} {reports : List Report}
    (hreading : ∀ r, reading = some r → Snapshot order s.trace r)
    (hreports : ∀ report ∈ reports, report.upTo <+: s.trace ∧ report.Consistent order) :
    Measured order { s with reading := Function.update s.reading reader reading, reports } where
  trace := h.trace
  readers := by
    intro other
    simp only [State.current]
    by_cases hother : other = reader
    · subst hother
      rw [Function.update_self]
      cases hr : reading with
      | none => exact .start order s.trace
      | some r => exact hreading r hr
    · rw [Function.update_of_ne hother]
      exact h.readers other
  reports := hreports

theorem Measured.measure (h : Measured order s) (reader met : Nat) :
    Measured order (s.step order (.measure reader met)) := by
  have hr := h.readers reader
  obtain ⟨early, late, hsplit, htotals⟩ := hr.read order met
  rw [← h.trace] at htotals
  simp only [State.step]
  cases hnext : nextShard (s.current reader).next with
  | some next =>
      rw [nextShard_eq_some] at hnext
      rw [← hnext] at hsplit htotals
      refine h.update order reader (fun r hr' => ?_) h.reports
      cases hr'
      exact ⟨hr.since, early, late, hsplit, htotals⟩
  | none =>
      rw [nextShard_eq_none] at hnext
      refine h.update order reader (fun r hr' => by cases hr') fun report hmem => ?_
      rcases List.mem_append.mp hmem with hmem | hmem
      · exact h.reports report hmem
      · cases List.mem_singleton.mp hmem
        refine ⟨List.prefix_refl s.trace, hr.since, early, late, ?_, fun o => ?_⟩
        · simpa only [List.append_nil] using hsplit.same
        · rw [htotals o, hnext, totalsTo_all]

theorem measured_run (actions : List Action) : Measured order (State.run order actions) := by
  induction actions using List.reverseRecOn with
  | nil => exact ⟨rfl, fun reader => .start order [], fun report hmem => absurd hmem List.not_mem_nil⟩
  | append_singleton actions action ih =>
      rw [State.run, List.foldl_concat, ← State.run]
      cases action with
      | access a => exact ih.locks order (.access a) _
      | collect now => exact ih.locks order _ _
      | measure reader met => exact ih.measure order reader met

/-- Every torrent is in the shard of its info-hash, with exact counters. -/
structure Sound (s : Store) : Prop where
  routed : WellRouted Store.shardIndex s.shards
  counted : ∀ hash t, s.get hash = some t → t.Counted

theorem Sound.exec {s : Store} (h : Sound s) (order : HashOrder) (op : Op) : Sound (s.exec order op).1 where
  routed := by
    obtain ⟨hrouted, -⟩ := (Store.Refines.exec ⟨h.routed, rfl⟩ order op).1
    exact hrouted
  counted := by
    intro hash t hget
    change (s.step order op).get hash = some t at hget
    rw [Store.get_step] at hget
    cases op with
    | announce r flags numwant now peersOut =>
        simp only [Op.effect] at hget
        split_ifs at hget
        · cases hget
          refine Torrent.Counted.withAnnounce ?_ r flags now
          cases hold : s.get hash with
          | none => exact Torrent.counted_new
          | some old => exact h.counted hash old hold
        · exact h.counted hash t hget
    | remove r now =>
        simp only [Op.effect] at hget
        split_ifs at hget
        · obtain ⟨old, hold, rfl⟩ := Option.map_eq_some_iff.mp hget
          exact (h.counted hash old hold).withRemove r now
        · exact h.counted hash t hget
    | gc now =>
        obtain ⟨old, -, hsw⟩ := Option.bind_eq_some_iff.mp hget
        exact Torrent.counted_of_sweep hsw

theorem Sound.access {s : Store} (h : Sound s) (a : Access) : Sound (a.onStore order s).1 := by
  cases a with
  | announce met r flags numwant now peersOut => exact h.exec (order met) (.announce r flags numwant now peersOut)
  | remove r now => exact h.exec (order 0) (.remove r now)
  | scrape hash => exact h

theorem Sound.sweep {cells : Cells} (h : Sound cells.store) (now : UInt32) (i : Fin shardCount) :
    Sound (cells.step order (.sweep now i)).store := by
  have hshard : ∀ j, (cells.step order (.sweep now i)).store.shards j =
      if j = i then (cells.store.shards j).retain (Torrent.sweep now) else cells.store.shards j := by
    intro j
    change (cells.step order (.sweep now i) j).shard = _
    rw [Cells.step_apply, apply_ite Cell.shard]
    rfl
  refine ⟨fun j k hmem => ?_, fun hash t hget => ?_⟩
  · rw [hshard] at hmem
    split_ifs at hmem
    · obtain ⟨t, ht⟩ := Finmap.mem_iff.mp hmem
      rw [Finmap.lookup_retain] at ht
      obtain ⟨old, hold, -⟩ := Option.bind_eq_some_iff.mp ht
      exact h.routed j k (Finmap.mem_of_lookup_eq_some hold)
    · exact h.routed j k hmem
  · rw [Store.get, Sharded.get, hshard] at hget
    split_ifs at hget
    · rw [Finmap.lookup_retain] at hget
      obtain ⟨old, -, hsw⟩ := Option.bind_eq_some_iff.mp hget
      exact Torrent.counted_of_sweep hsw
    · exact h.counted hash t hget

theorem sound_after (sections : List Section) : Sound (Cells.after order sections).store := by
  induction sections using List.reverseRecOn with
  | nil =>
      refine ⟨wellRouted_empty Store.shardIndex, fun hash t hget => ?_⟩
      rw [show (Cells.after order []).store = Store.new from rfl, Store.get_new] at hget
      cases hget
  | append_singleton sections x ih =>
      rw [Cells.after_append_singleton]
      cases x with
      | access a =>
          have hstore := congrArg History.store (history_access order (Cells.after order sections) a)
          change (Cells.step order _ _).store = _ at hstore
          rw [hstore]
          exact ih.access order a
      | sweep now i => exact ih.sweep order now i

/-- The totals of a store with exact counters are its numbers of torrents, seeders and leechers. -/
theorem Sound.totals {s : Store} (h : Sound s) (o : HashOrder) :
    ∃ m : FlatStore, s.Refines m ∧ s.totals o = ⟨UInt64.ofNat m.len, UInt64.ofNat (m.sumVals Torrent.seedCount),
      UInt64.ofNat (m.sumVals Torrent.leechCount)⟩ := by
  obtain ⟨m, href⟩ : ∃ m, s.Refines m := ⟨_, h.routed, rfl⟩
  have hentry : ∀ e ∈ m.entries, e.2.Counted := fun e he =>
    h.counted e.1 e.2 ((href.get_eq e.1).trans ((Finmap.mem_entries_iff _ _ _).mp he))
  have hseeders : m.sumVals (fun t => t.v4.seeders + t.v6.seeders) = m.sumVals Torrent.seedCount :=
    Finmap.sumVals_congr fun e he => (hentry e he).seeders
  have hleechers : m.sumVals (fun t => t.v4.leechers + t.v6.leechers) = m.sumVals Torrent.leechCount :=
    Finmap.sumVals_congr fun e he => (hentry e he).leechers
  exact ⟨m, href, by rw [href.totals_eq, hseeders, hleechers]⟩

/-- **The totals are a snapshot.** Whatever calls and sweeps run during its pass, a reader reports the exact
numbers of torrents, seeders and leechers of one store: the one that all that ran before the reader leads to,
with some of what ran during the pass. Every shard sees the rest as coming later. -/
theorem totals_snapshot (actions : List Action) :
    (State.run order actions).cells = Cells.after order (State.run order actions).trace ∧
      ∀ report ∈ (State.run order actions).reports,
        report.since <+: report.upTo ∧ report.upTo <+: (State.run order actions).trace ∧
          ∃ early late m, SameByKey Section.shard report.upTo (report.since ++ early ++ late) ∧
            (Cells.after order (report.since ++ early)).store.Refines m ∧
            report.totals = ⟨UInt64.ofNat m.len, UInt64.ofNat (m.sumVals Torrent.seedCount),
              UInt64.ofNat (m.sumVals Torrent.leechCount)⟩ := by
  have h := measured_run order actions
  refine ⟨h.trace, fun report hmem => ?_⟩
  obtain ⟨hpre, hsince, early, late, hsame, htotals⟩ := h.reports report hmem
  obtain ⟨m, href, hexact⟩ := (sound_after order (report.since ++ early)).totals (order 0)
  exact ⟨hsince, hpre, early, late, m, hsame, href, by rw [htotals (order 0), hexact]⟩

end Totals
end Locks
end Bluefrog
