import Mathlib.Data.Finmap
import Mathlib.Algebra.BigOperators.Group.Finset.Basic

/-!
Hash maps as finite maps. A hash table is observed only through its entries, so it is modelled by
Mathlib's `Finmap`, and two tables with the same entries are equal. What this file adds is what a
program does with a whole table: keep and rewrite entries in one pass (`retain`), total a quantity
over the values, and visit the entries in some order that the table does not specify.
-/

/-- A hash table from keys to values. -/
abbrev Rust.HashMap (K V : Type) := Finmap fun _ : K => V

open Rust

namespace Finmap

variable {K V : Type}

section Retain

/-- One pass over the table that rewrites each value or drops its entry. -/
def retain (f : V → Option V) (m : HashMap K V) : HashMap K V where
  entries := m.entries.filterMap fun e => (f e.2).map fun v => ⟨e.1, v⟩
  nodupKeys := by
    obtain ⟨entries, hnodup⟩ := m
    induction entries using Quotient.inductionOn with
    | h l =>
        simp only [Multiset.quot_mk_to_coe, Multiset.filterMap_coe, Multiset.coe_nodupKeys] at hnodup ⊢
        refine List.Nodup.sublist ?_ hnodup
        clear hnodup
        induction l with
        | nil => exact List.Sublist.refl _
        | cons e l ih =>
            cases hf : f e.2 with
            | none => simpa [List.filterMap_cons, hf, List.keys] using ih.cons e.1
            | some v => simpa [List.filterMap_cons, hf, List.keys] using ih.cons_cons e.1

variable [DecidableEq K]

theorem mem_entries_iff (m : HashMap K V) (k : K) (v : V) :
    ⟨k, v⟩ ∈ m.entries ↔ m.lookup k = some v := by
  induction m using induction_on with
  | H a =>
      rw [lookup_toFinmap]
      exact (List.mem_dlookup_iff a.nodupKeys).symm

theorem lookup_retain (f : V → Option V) (m : HashMap K V) (k : K) :
    (retain f m).lookup k = (m.lookup k).bind f := by
  apply Option.ext
  intro v
  rw [← mem_entries_iff]
  simp only [retain, Multiset.mem_filterMap, Option.map_eq_some_iff, Sigma.exists, Option.bind_eq_some_iff]
  constructor
  · intro ⟨k', old, hmem, new, hf, heq⟩
    obtain ⟨rfl, hv⟩ := Sigma.mk.inj heq
    cases hv
    exact ⟨old, (mem_entries_iff m k' old).mp hmem, hf⟩
  · intro ⟨old, hold, hf⟩
    exact ⟨k, old, (mem_entries_iff m k old).mpr hold, v, hf, rfl⟩

/-- Two passes in a row are one. -/
theorem retain_retain (f g : V → Option V) (m : HashMap K V) :
    retain g (retain f m) = retain (fun v => (f v).bind g) m := by
  apply ext_lookup
  intro k
  rw [lookup_retain, lookup_retain, lookup_retain, Option.bind_assoc]

end Retain

section Sums

/-- The number of entries. -/
def len (m : HashMap K V) : Nat := m.entries.card

/-- A quantity of the values, totalled over the table. -/
def sumVals (f : V → Nat) (m : HashMap K V) : Nat := (m.entries.map fun e => f e.2).sum

/-- The number of entries whose value satisfies a test. -/
def countVals (p : V → Bool) (m : HashMap K V) : Nat := m.entries.countP fun e => p e.2

theorem len_eq_sumVals (m : HashMap K V) : m.len = m.sumVals fun _ => 1 := by
  simp [len, sumVals]

theorem countVals_eq_sumVals (p : V → Bool) (m : HashMap K V) :
    m.countVals p = m.sumVals fun v => if p v then 1 else 0 := by
  simp only [countVals, sumVals]
  generalize m.entries = entries
  induction entries using Multiset.induction_on with
  | empty => rfl
  | cons e s ih => rw [Multiset.countP_cons, Multiset.map_cons, Multiset.sum_cons, ih, add_comm]

theorem sumVals_congr {f g : V → Nat} {m : HashMap K V} (h : ∀ e ∈ m.entries, f e.2 = g e.2) :
    m.sumVals f = m.sumVals g :=
  congrArg Multiset.sum (Multiset.map_congr rfl h)

theorem sumVals_add (f g : V → Nat) (m : HashMap K V) :
    m.sumVals (fun v => f v + g v) = m.sumVals f + m.sumVals g :=
  Multiset.sum_map_add

variable [DecidableEq K]

theorem erase_of_lookup_none {m : HashMap K V} {k : K} (h : m.lookup k = none) : m.erase k = m := by
  apply ext_lookup
  intro x
  by_cases hx : x = k
  · rw [hx, lookup_erase, h]
  · rw [lookup_erase_ne hx]

theorem insert_erase_self (m : HashMap K V) (k : K) (v : V) : (m.erase k).insert k v = m.insert k v := by
  apply ext_lookup
  intro x
  by_cases hx : x = k
  · rw [hx, lookup_insert, lookup_insert]
  · rw [lookup_insert_of_ne _ hx, lookup_insert_of_ne _ hx, lookup_erase_ne hx]

theorem insert_of_lookup {m : HashMap K V} {k : K} {v : V} (h : m.lookup k = some v) :
    m.insert k v = m := by
  apply ext_lookup
  intro x
  by_cases hx : x = k
  · rw [hx, lookup_insert, h]
  · rw [lookup_insert_of_ne _ hx]

theorem entries_insert (m : HashMap K V) (k : K) (v : V) :
    (m.insert k v).entries = ⟨k, v⟩ ::ₘ (m.erase k).entries := by
  rw [← insert_erase_self, entries_insert_of_notMem notMem_erase_self]

/-- The entry of a present key, split off. -/
theorem entries_of_lookup {m : HashMap K V} {k : K} {v : V} (h : m.lookup k = some v) :
    m.entries = ⟨k, v⟩ ::ₘ (m.erase k).entries := by
  rw [← entries_insert, insert_of_lookup h]

theorem sumVals_insert (f : V → Nat) (m : HashMap K V) (k : K) (v : V) :
    (m.insert k v).sumVals f = f v + (m.erase k).sumVals f := by
  simp only [sumVals, entries_insert, Multiset.map_cons, Multiset.sum_cons]

theorem sumVals_of_lookup (f : V → Nat) {m : HashMap K V} {k : K} {v : V} (h : m.lookup k = some v) :
    m.sumVals f = f v + (m.erase k).sumVals f := by
  simp only [sumVals, entries_of_lookup h, Multiset.map_cons, Multiset.sum_cons]

theorem countVals_insert (p : V → Bool) (m : HashMap K V) (k : K) (v : V) :
    (m.insert k v).countVals p = (if p v then 1 else 0) + (m.erase k).countVals p := by
  simp only [countVals_eq_sumVals, sumVals_insert]

theorem countVals_of_lookup (p : V → Bool) {m : HashMap K V} {k : K} {v : V}
    (h : m.lookup k = some v) : m.countVals p = (if p v then 1 else 0) + (m.erase k).countVals p := by
  simp only [countVals_eq_sumVals]
  exact sumVals_of_lookup _ h

/-- A total over the table, key by key. -/
theorem sumVals_eq_sum_keys (f : V → Nat) (m : HashMap K V) : m.sumVals f = ∑ k ∈ m.keys, (m.lookup k).elim 0 f := by
  have hkeys : ∑ k ∈ m.keys, (m.lookup k).elim 0 f = (m.entries.map fun e => (m.lookup e.1).elim 0 f).sum :=
    congrArg Multiset.sum (Multiset.map_map _ Sigma.fst m.entries)
  rw [hkeys, sumVals]
  refine congrArg Multiset.sum (Multiset.map_congr rfl fun e he => ?_)
  rw [(mem_entries_iff m e.1 e.2).mp he, Option.elim_some]

/-- Two tables have the same total if every key has the same share in both; a missing key has none. -/
theorem sumVals_eq_of_lookup (f : V → Nat) {m m' : HashMap K V}
    (h : ∀ k, (m.lookup k).elim 0 f = (m'.lookup k).elim 0 f) : m.sumVals f = m'.sumVals f := by
  have hwiden : ∀ (m : HashMap K V) {s : Finset K}, m.keys ⊆ s →
      m.sumVals f = ∑ k ∈ s, (m.lookup k).elim 0 f := by
    intro m s hsub
    rw [sumVals_eq_sum_keys]
    refine Finset.sum_subset hsub fun k _ hk => ?_
    rw [lookup_eq_none.mpr fun hmem => hk (mem_keys.mpr hmem), Option.elim_none]
  calc m.sumVals f
      = ∑ k ∈ m.keys ∪ m'.keys, (m.lookup k).elim 0 f := hwiden m Finset.subset_union_left
    _ = ∑ k ∈ m.keys ∪ m'.keys, (m'.lookup k).elim 0 f := Finset.sum_congr rfl fun k _ => h k
    _ = m'.sumVals f := (hwiden m' Finset.subset_union_right).symm

end Sums

theorem countVals_add_countVals_not (p : V → Bool) (m : HashMap K V) :
    m.countVals p + m.countVals (fun v => !p v) = m.len := by
  calc m.countVals p + m.countVals (fun v => !p v)
      = m.sumVals (fun v => (if p v then 1 else 0) + if !p v then 1 else 0) := by
        rw [countVals_eq_sumVals, countVals_eq_sumVals, sumVals_add]
    _ = m.sumVals fun _ => 1 := by
        apply sumVals_congr
        intro e _
        cases p e.2 <;> rfl
    _ = m.len := (len_eq_sumVals m).symm

end Finmap

namespace Rust

/-- The order in which iterators visit hash tables: any enumeration of the entries of each. -/
structure HashOrder where
  toList : {K V : Type} → HashMap K V → List ((_ : K) × V)
  coe_toList : ∀ {K V : Type} (m : HashMap K V), (toList m : Multiset ((_ : K) × V)) = m.entries

/-- Some order; nothing is known of it but that it is one. -/
noncomputable def HashOrder.arbitrary : HashOrder where
  toList m := m.entries.toList
  coe_toList m := m.entries.coe_toList

end Rust
