import Bluefrog.Lib.HashMap
import Mathlib.Data.List.MinMax

/-!
Capped maps. A table that is full makes room for a new key by dropping the least entry of a sample. The
table then never outgrows its cap, and an admission drops at most one other entry, and only for a new key
at a full table.
-/

open Rust

namespace Finmap

variable {K V : Type}

theorem len_eq_card_keys (m : HashMap K V) : m.len = m.keys.card := (Multiset.card_map Sigma.fst m.entries).symm

/-- A table whose keys are among some set lacks room for none of them. -/
theorem len_lt_of_keys {m : HashMap K V} {keys : Finset K} (hkeys : ∀ k ∈ m, k ∈ keys) {k : K} (hk : k ∈ keys)
    (hnew : k ∉ m) : m.len < keys.card := by
  rw [len_eq_card_keys]
  refine Finset.card_lt_card ⟨fun x hx => hkeys x (mem_keys.mp hx), fun h => ?_⟩
  exact hnew (mem_keys.mp (h hk))

variable [DecidableEq K]

theorem len_insert_of_mem {m : HashMap K V} {k : K} (h : k ∈ m) (v : V) : (m.insert k v).len = m.len := by
  obtain ⟨old, hold⟩ := Finmap.mem_iff.mp h
  rw [len, len, entries_insert, entries_of_lookup hold, Multiset.card_cons, Multiset.card_cons]

theorem len_insert_of_notMem {m : HashMap K V} {k : K} (h : k ∉ m) (v : V) : (m.insert k v).len = m.len + 1 := by
  rw [len, len, entries_insert_of_notMem h, Multiset.card_cons]

theorem len_erase_of_mem {m : HashMap K V} {k : K} (h : k ∈ m) : (m.erase k).len + 1 = m.len := by
  obtain ⟨v, hv⟩ := Finmap.mem_iff.mp h
  rw [len, len, entries_of_lookup hv, Multiset.card_cons]

end Finmap

namespace CappedMap

variable {K V : Type} [DecidableEq K]

/-- A sample of a table: some of its entries, and at least one unless there is none. -/
structure Sample (m : HashMap K V) (sample : List ((_ : K) × V)) : Prop where
  mem : ∀ e ∈ sample, m.lookup e.1 = some e.2
  nonempty : sample = [] → m.len = 0

/-- Drops the entry of the sample that was used last the longest ago. -/
def evictOldest (sample : List ((_ : K) × V)) (last : (_ : K) × V → Nat) (m : HashMap K V) : HashMap K V :=
  match sample.argmin last with
  | some oldest => m.erase oldest.1
  | none => m

/-- Makes room for a key. -/
def makeRoom (sample : List ((_ : K) × V)) (last : (_ : K) × V → Nat) (cap : Nat) (m : HashMap K V) (k : K) :
    HashMap K V :=
  if k ∉ m ∧ cap ≤ m.len then evictOldest sample last m else m

/-- What admitting a key does to the other entries: nothing, or it drops one, oldest in the sample, for a
key that is new to a full table. -/
inductive Admits (sample : List ((_ : K) × V)) (last : (_ : K) × V → Nat) (cap : Nat) (m : HashMap K V) (k : K)
    (m' : HashMap K V) : Prop where
  | kept (others : ∀ x, x ≠ k → m'.lookup x = m.lookup x)
  | evicted (victim : (_ : K) × V) (isNew : k ∉ m) (isFull : m.len = cap) (sampled : victim ∈ sample)
      (oldest : ∀ e ∈ sample, last victim ≤ last e) (other : victim.1 ≠ k) (gone : victim.1 ∉ m')
      (others : ∀ x, x ≠ k → x ≠ victim.1 → m'.lookup x = m.lookup x)

variable {sample : List ((_ : K) × V)} {last : (_ : K) × V → Nat} {cap : Nat} {m : HashMap K V} {k : K}

theorem makeRoom_of_mem (h : k ∈ m) : makeRoom sample last cap m k = m := if_neg fun hfull => hfull.1 h

theorem makeRoom_of_room (h : m.len < cap) : makeRoom sample last cap m k = m :=
  if_neg fun hfull => absurd hfull.2 (Nat.not_le.mpr h)

/-- Making room leaves every entry, or evicts it. -/
theorem lookup_makeRoom (x : K) : (makeRoom sample last cap m k).lookup x = m.lookup x ∨
    (makeRoom sample last cap m k).lookup x = none := by
  unfold makeRoom
  split_ifs
  · unfold evictOldest
    cases sample.argmin last with
    | none => exact .inl rfl
    | some victim =>
        by_cases hx : x = victim.1
        · exact .inr (by rw [hx, Finmap.lookup_erase])
        · exact .inl (Finmap.lookup_erase_ne hx)
  · exact .inl rfl

/-- Room is only made for a new key, so no key loses its own entry. -/
theorem lookup_makeRoom_self : (makeRoom sample last cap m k).lookup k = m.lookup k := by
  by_cases hmem : k ∈ m
  · rw [makeRoom_of_mem hmem]
  · have hnone := Finmap.lookup_eq_none.mpr hmem
    have hroom : (makeRoom sample last cap m k).lookup k = m.lookup k ∨ _ := lookup_makeRoom k
    rw [hnone, or_self] at hroom
    rw [hroom, hnone]

variable (last) in
/-- A new key at a full table: the table is empty, or its oldest sampled entry is gone. -/
theorem makeRoom_of_full (hsample : Sample m sample) (hnew : k ∉ m) (hfull : cap ≤ m.len) :
    (m.len = 0 ∧ makeRoom sample last cap m k = m) ∨
      ∃ victim ∈ sample, (∀ e ∈ sample, last victim ≤ last e) ∧ victim.1 ∈ m ∧
        makeRoom sample last cap m k = m.erase victim.1 := by
  rw [makeRoom, if_pos ⟨hnew, hfull⟩, evictOldest]
  cases hmin : sample.argmin last with
  | none => exact .inl ⟨hsample.nonempty (List.argmin_eq_none.mp hmin), rfl⟩
  | some victim =>
      have hmem := List.argmin_mem hmin
      refine .inr ⟨victim, hmem, fun e he => List.le_of_mem_argmin he hmin, ?_, rfl⟩
      exact Finmap.mem_of_lookup_eq_some (hsample.mem victim hmem)

variable {limit : Nat} (hlimit : limit = max 1 cap)

include hlimit

/-- The table never outgrows its cap, except that it always has room for one. -/
theorem len_admit_le (hsample : Sample m sample) (h : m.len ≤ limit) (v : V) :
    ((makeRoom sample last cap m k).insert k v).len ≤ limit := by
  by_cases hmem : k ∈ m
  · rw [makeRoom_of_mem hmem, Finmap.len_insert_of_mem hmem]
    exact h
  by_cases hroom : m.len < cap
  · rw [makeRoom_of_room hroom, Finmap.len_insert_of_notMem hmem]
    omega
  have hfull := makeRoom_of_full last hsample hmem (Nat.not_lt.mp hroom)
  rcases hfull with ⟨hempty, heq⟩ | ⟨victim, -, -, hvictim, heq⟩
  · rw [heq, Finmap.len_insert_of_notMem hmem, hempty]
    omega
  · have hgone : k ∉ m.erase victim.1 := fun hk => hmem (Finmap.mem_erase.mp hk).2
    rw [heq, Finmap.len_insert_of_notMem hgone, Finmap.len_erase_of_mem hvictim]
    exact h

/-- **An admission evicts minimally.** -/
theorem admits (hsample : Sample m sample) (h : m.len ≤ limit) (v : V) :
    Admits sample last limit m k ((makeRoom sample last cap m k).insert k v) := by
  have hsame : makeRoom sample last cap m k = m →
      Admits sample last limit m k ((makeRoom sample last cap m k).insert k v) := fun heq =>
    .kept fun x hx => by rw [heq, Finmap.lookup_insert_of_ne _ hx]
  by_cases hmem : k ∈ m
  · exact hsame (makeRoom_of_mem hmem)
  by_cases hroom : m.len < cap
  · exact hsame (makeRoom_of_room hroom)
  rcases makeRoom_of_full last hsample hmem (Nat.not_lt.mp hroom) with
    ⟨-, heq⟩ | ⟨victim, hsampled, holdest, hvictim, heq⟩
  · exact hsame heq
  · have hother : victim.1 ≠ k := fun hk => hmem (hk ▸ hvictim)
    have hlen := Finmap.len_erase_of_mem hvictim
    refine .evicted victim hmem (by omega) hsampled holdest hother ?_ fun x hx hxv => ?_
    · rw [heq, Finmap.mem_insert]
      rintro (hk | hstill)
      · exact hother hk
      · exact Finmap.notMem_erase_self hstill
    · rw [heq, Finmap.lookup_insert_of_ne _ hx, Finmap.lookup_erase_ne hxv]

end CappedMap
