import Bluefrog.Lib.HashMap
import Mathlib.Algebra.BigOperators.Fin
import Mathlib.Data.Multiset.Bind

/-!
Sharded maps. A table split into `n` tables by a routing function of the key answers every query as
one flat table would, as long as each key is only ever stored in the shard it is routed to. Updates
made through the route keep that invariant, and so does a pass that rewrites or drops entries in
every shard.
-/

open Rust

namespace Sharded

/-- One table for each of the `n` shards. -/
abbrev Shards (n : Nat) (K V : Type) := Fin n → HashMap K V

variable {n : Nat} {K V : Type} (route : K → Fin n)

/-- Replaces the shard a key is routed to. -/
def setShard (s : Shards n K V) (k : K) (m : HashMap K V) : Shards n K V :=
  Function.update s (route k) m

/-- Every key is stored in the shard it is routed to. -/
def WellRouted (s : Shards n K V) : Prop := ∀ i k, k ∈ s i → route k = i

theorem wellRouted_empty : WellRouted route (fun _ => ∅ : Shards n K V) :=
  fun _ _ h => absurd h Finmap.notMem_empty

theorem WellRouted.setShard {s : Shards n K V} (h : WellRouted route s) (k : K) {m : HashMap K V}
    (hm : ∀ k' ∈ m, k' = k ∨ k' ∈ s (route k)) : WellRouted route (setShard route s k m) := by
  intro i k' hmem
  by_cases hi : i = route k
  · subst hi
    rw [Sharded.setShard, Function.update_self] at hmem
    rcases hm k' hmem with rfl | hold
    · rfl
    · exact h _ _ hold
  · rw [Sharded.setShard, Function.update_of_ne hi] at hmem
    exact h _ _ hmem

/-- The one table that holds what all shards hold. -/
def flat (s : Shards n K V) (h : WellRouted route s) : HashMap K V where
  entries := (Finset.univ : Finset (Fin n)).val.bind fun i => (s i).entries
  nodupKeys := by
    rw [← Multiset.nodup_keys, Multiset.keys, Multiset.map_bind, Multiset.nodup_bind]
    refine ⟨fun i _ => Multiset.nodup_keys.mpr (s i).nodupKeys, ?_⟩
    refine Multiset.Nodup.pairwise ?_ Finset.univ.nodup
    intro i _ j _ hij
    rw [Function.onFun, Multiset.disjoint_left]
    intro k hi hj
    exact hij ((h i k hi).symm.trans (h j k hj))

/-- A total over the flat table is the total of the shards' totals. -/
theorem sumVals_flat {s : Shards n K V} (h : WellRouted route s) (f : V → Nat) :
    (flat route s h).sumVals f = ∑ i, (s i).sumVals f := by
  simp only [Finmap.sumVals, flat, Multiset.map_bind, Multiset.sum_bind]
  rfl

theorem len_flat {s : Shards n K V} (h : WellRouted route s) :
    (flat route s h).len = ∑ i, (s i).len := by
  simp only [Finmap.len_eq_sumVals, sumVals_flat]

variable [DecidableEq K]

/-- The entry of a key, read in the shard the key is routed to. -/
def get (s : Shards n K V) (k : K) : Option V := (s (route k)).lookup k

theorem get_setShard (s : Shards n K V) (k : K) (m : HashMap K V) (k' : K) :
    get route (setShard route s k m) k' = if route k' = route k then m.lookup k' else get route s k' := by
  simp only [get, setShard, Function.update_apply]
  split_ifs <;> rfl

theorem get_setShard_insert (s : Shards n K V) (k : K) (v : V) (k' : K) :
    get route (setShard route s k ((s (route k)).insert k v)) k' =
      if k' = k then some v else get route s k' := by
  rw [get_setShard]
  by_cases hk : k' = k
  · subst hk
    rw [if_pos rfl, if_pos rfl, Finmap.lookup_insert]
  · rw [if_neg hk, Finmap.lookup_insert_of_ne _ hk]
    split_ifs with h
    · rw [get, h]
    · rfl

theorem WellRouted.insert {s : Shards n K V} (h : WellRouted route s) (k : K) (v : V) :
    WellRouted route (Sharded.setShard route s k ((s (route k)).insert k v)) :=
  h.setShard route k fun _ hmem => Finmap.mem_insert.mp hmem

theorem get_retain (f : V → Option V) (s : Shards n K V) (k : K) :
    get route (fun i => (s i).retain f) k = (get route s k).bind f :=
  Finmap.lookup_retain f _ k

theorem WellRouted.retain {s : Shards n K V} (h : WellRouted route s) (f : V → Option V) :
    WellRouted route (fun i => (s i).retain f) := by
  intro i k hmem
  obtain ⟨v, hv⟩ := Finmap.mem_iff.mp hmem
  rw [Finmap.lookup_retain] at hv
  obtain ⟨old, hold, -⟩ := Option.bind_eq_some_iff.mp hv
  exact h i k (Finmap.mem_of_lookup_eq_some hold)

/-- A well-routed sharded table answers as the flat table. -/
theorem lookup_flat {s : Shards n K V} (h : WellRouted route s) (k : K) :
    (flat route s h).lookup k = get route s k := by
  apply Option.ext
  intro v
  rw [← Finmap.mem_entries_iff, get, ← Finmap.mem_entries_iff]
  simp only [flat, Multiset.mem_bind]
  constructor
  · rintro ⟨i, -, hmem⟩
    have hk : k ∈ s i := Finmap.mem_of_lookup_eq_some ((Finmap.mem_entries_iff _ _ _).mp hmem)
    rwa [h i k hk]
  · exact fun hmem => ⟨route k, Finset.mem_univ_val _, hmem⟩

theorem flat_setShard_insert {s : Shards n K V} (h : WellRouted route s) (k : K) (v : V) :
    flat route _ (h.insert route k v) = (flat route s h).insert k v := by
  apply Finmap.ext_lookup
  intro k'
  rw [lookup_flat, get_setShard_insert]
  split_ifs with hk
  · rw [hk, Finmap.lookup_insert]
  · rw [Finmap.lookup_insert_of_ne _ hk, lookup_flat]

theorem flat_retain {s : Shards n K V} (h : WellRouted route s) (f : V → Option V) :
    flat route _ (h.retain route f) = (flat route s h).retain f := by
  apply Finmap.ext_lookup
  intro k
  rw [lookup_flat, get_retain, Finmap.lookup_retain, lookup_flat]

end Sharded
