import Mathlib.Data.List.Basic
import Mathlib.Data.List.Nodup
import Mathlib.Data.List.ReduceOption

/-!
Ring buffers. A fixed array of slots with a cursor that wraps around remembers the latest values
written to it, one per slot. The relation below says which value of the unbounded history each slot
holds, by its age.
-/

namespace Ring

variable {α : Type}

/-- How many writes ago a slot was last written, when the cursor stands at `pos`. -/
def age (n pos j : Nat) : Nat := if j < pos then pos - 1 - j else pos + n - 1 - j

/-- The slots hold the latest `n` values of the history, which lists the newest value first. -/
structure Holds (n : Nat) (slots : List (Option α)) (pos : Nat) (hist : List α) : Prop where
  length_slots : slots.length = n
  pos_lt : pos < n
  slot : ∀ j, j < n → slots[j]? = some hist[age n pos j]?

theorem holds_empty {n : Nat} (hn : 0 < n) : Holds n (List.replicate n (none : Option α)) 0 [] where
  length_slots := List.length_replicate
  pos_lt := hn
  slot j hj := by rw [List.getElem?_replicate, if_pos hj, List.getElem?_nil]

theorem succ_mod (n pos : Nat) (h : pos < n) : (pos + 1) % n = if pos + 1 = n then 0 else pos + 1 := by
  split_ifs with heq
  · rw [heq, Nat.mod_self]
  · exact Nat.mod_eq_of_lt (by omega)

/-- Writing at the cursor and advancing it pushes the value onto the history. -/
theorem Holds.push {n : Nat} {slots : List (Option α)} {pos : Nat} {hist : List α}
    (h : Holds n slots pos hist) (x : α) :
    Holds n (slots.set pos (some x)) ((pos + 1) % n) (x :: hist) where
  length_slots := by rw [List.length_set, h.length_slots]
  pos_lt := Nat.mod_lt _ (Nat.lt_of_le_of_lt (Nat.zero_le _) h.pos_lt)
  slot j hj := by
    have hpos := h.pos_lt
    rw [succ_mod n pos hpos]
    by_cases hjp : pos = j
    · -- the written slot is the newest
      have hage : age n (if pos + 1 = n then 0 else pos + 1) j = 0 := by
        unfold age
        split_ifs <;> omega
      subst hjp
      rw [hage, List.getElem?_cons_zero, List.getElem?_set_self (by rw [h.length_slots]; exact hj)]
    · -- every other slot is one write older
      have hage : age n (if pos + 1 = n then 0 else pos + 1) j = age n pos j + 1 := by
        unfold age
        split_ifs <;> omega
      rw [List.getElem?_set_ne hjp, h.slot j hj, hage, List.getElem?_cons_succ]

theorem age_lt {n pos j : Nat} (hpos : pos < n) (hj : j < n) : age n pos j < n := by
  unfold age
  split_ifs <;> omega

/-- Each age below the capacity is the age of some slot. -/
theorem exists_age_eq {n pos i : Nat} (hpos : pos < n) (hi : i < n) : ∃ j, j < n ∧ age n pos j = i := by
  by_cases h : i < pos
  · refine ⟨pos - 1 - i, by omega, ?_⟩
    unfold age
    split_ifs <;> omega
  · refine ⟨pos + n - 1 - i, by omega, ?_⟩
    unfold age
    split_ifs <;> omega

theorem age_inj {n pos j j' : Nat} (hj : j < n) (hj' : j' < n) (h : age n pos j = age n pos j') : j = j' := by
  unfold age at h
  split_ifs at h <;> omega

/-- The ages of the slots are the ages below the capacity, each once. -/
theorem perm_ages {n pos : Nat} (hpos : pos < n) : ((List.range n).map (age n pos)).Perm (List.range n) := by
  have hnodup : ((List.range n).map (age n pos)).Nodup :=
    List.Nodup.map_on (fun j hj j' hj' h => age_inj (List.mem_range.mp hj) (List.mem_range.mp hj') h) List.nodup_range
  rw [List.perm_ext_iff_of_nodup hnodup List.nodup_range]
  intro i
  rw [List.mem_map, List.mem_range]
  constructor
  · rintro ⟨j, hj, rfl⟩
    exact age_lt hpos (List.mem_range.mp hj)
  · intro hi
    obtain ⟨j, hj, hage⟩ := exists_age_eq hpos hi
    exact ⟨j, List.mem_range.mpr hj, hage⟩

theorem reduceOption_getElem? (hist : List α) (n : Nat) :
    ((List.range n).map fun i => hist[i]?).reduceOption = hist.take n := by
  induction n with
  | zero => rfl
  | succ n ih =>
      rw [List.range_succ, List.map_append, List.reduceOption_append, ih, List.take_add_one]
      cases h : hist[n]? with
      | none => rw [List.map_singleton, h]; rfl
      | some x => rw [List.map_singleton, h]; rfl

/-- The slots hold exactly the latest values of the history. -/
theorem Holds.perm {n : Nat} {slots : List (Option α)} {pos : Nat} {hist : List α} (h : Holds n slots pos hist) :
    slots.reduceOption.Perm (hist.take n) := by
  have hslots : slots = ((List.range n).map (age n pos)).map fun i => hist[i]? := by
    apply List.ext_getElem?
    intro j
    by_cases hj : j < n
    · rw [h.slot j hj, List.getElem?_map, List.getElem?_map, List.getElem?_range hj]
      rfl
    · rw [List.getElem?_eq_none (by rw [h.length_slots]; omega), List.getElem?_eq_none]
      rw [List.length_map, List.length_map, List.length_range]
      omega
  rw [hslots, ← reduceOption_getElem? hist n]
  exact ((perm_ages h.pos_lt).map _).filterMap id

/-- The values in the slots are the latest values of the history. -/
theorem Holds.mem_iff {n : Nat} {slots : List (Option α)} {pos : Nat} {hist : List α}
    (h : Holds n slots pos hist) (x : α) : x ∈ slots.reduceOption ↔ x ∈ hist.take n := by
  rw [List.reduceOption_mem_iff, List.mem_iff_getElem?, List.mem_iff_getElem?]
  constructor
  · intro ⟨j, hj⟩
    have hjn : j < n := by
      rw [← h.length_slots]
      exact (List.getElem?_eq_some_iff.mp hj).1
    rw [h.slot j hjn, Option.some_inj] at hj
    refine ⟨age n pos j, ?_⟩
    rw [List.getElem?_take_of_lt (age_lt h.pos_lt hjn), hj]
  · intro ⟨i, hi⟩
    have hin : i < n := by
      have := (List.getElem?_eq_some_iff.mp hi).1
      rw [List.length_take] at this
      omega
    rw [List.getElem?_take_of_lt hin] at hi
    obtain ⟨j, hjn, hage⟩ := exists_age_eq h.pos_lt hin
    exact ⟨j, by rw [h.slot j hjn, hage, hi]⟩

end Ring
