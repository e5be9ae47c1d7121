import Mathlib.Data.List.Basic
import Mathlib.Order.Basic

/-!
Sequences read in order. The first part says that something holds of each element given those before
it. The second part compares each value with the values still in a window behind it. A value that differs
from one in the window is flagged. One change of value is flagged again until the values before it have
left the window, so the flags are bounded by the changes times the length of the window.
-/

namespace History

variable {α β γ : Type*}

/-- Each element satisfies a condition that may depend on those before it. -/
def AtEach (P : List α → α → Prop) (l : List α) : Prop := ∀ before x after, l = before ++ x :: after → P before x

theorem atEach_nil (P : List α → α → Prop) : AtEach P [] := fun before x after h => by
  have := congrArg List.length h
  rw [List.length_append, List.length_cons, List.length_nil] at this
  omega

theorem atEach_append_singleton (P : List α → α → Prop) (l : List α) (x : α) :
    AtEach P (l ++ [x]) ↔ AtEach P l ∧ P l x := by
  constructor
  · intro h
    refine ⟨?_, h l x [] rfl⟩
    rintro before y after rfl
    exact h before y (after ++ [x]) (by rw [List.append_assoc, List.cons_append])
  · intro ⟨h, hx⟩ before y after heq
    rcases List.eq_nil_or_concat after with rfl | ⟨after, z, rfl⟩
    · obtain ⟨rfl, hy⟩ := List.append_inj' heq rfl
      cases hy
      exact hx
    · rw [List.concat_eq_append, ← List.cons_append, ← List.append_assoc] at heq
      exact h before y after (List.append_inj' heq rfl).1

theorem AtEach.of_append {P : List α → α → Prop} {l l' : List α} (h : AtEach P (l ++ l')) : AtEach P l := by
  rintro before x after rfl
  exact h before x (after ++ l') (by rw [List.append_assoc, List.cons_append])

/-- How often a value differs from the one before it. -/
def changes [DecidableEq β] : List β → Nat
  | u :: v :: rest => (if u = v then 0 else 1) + changes (v :: rest)
  | _ => 0

section Changes

variable [DecidableEq β] [DecidableEq γ]

theorem changes_append_pair (vs : List β) (u v : β) :
    changes (vs ++ [u, v]) = changes (vs ++ [u]) + if u = v then 0 else 1 := by
  induction vs with
  | nil => exact Nat.add_comm _ _
  | cons w vs ih =>
      cases vs with
      | nil => exact (Nat.add_assoc _ _ _).symm
      | cons w' vs =>
          simp only [List.cons_append, changes] at ih ⊢
          rw [ih, Nat.add_assoc]

/-- Changes are counted alike from either end. -/
theorem changes_reverse (vs : List β) : changes vs.reverse = changes vs := by
  induction vs with
  | nil => rfl
  | cons u vs ih =>
      cases vs with
      | nil => rfl
      | cons v vs =>
          rw [List.reverse_cons, List.reverse_cons, List.append_assoc, List.cons_append, List.nil_append,
            changes_append_pair, ← List.reverse_cons, ih, changes, Nat.add_comm]
          simp only [eq_comm]

/-- Values that are images change no more often than what they are images of. -/
theorem changes_map_le (f : β → γ) (vs : List β) : changes (vs.map f) ≤ changes vs := by
  induction vs with
  | nil => exact Nat.le_refl _
  | cons u vs ih =>
      cases vs with
      | nil => exact Nat.le_refl _
      | cons v vs =>
          have hstep : (if f u = f v then 0 else 1) ≤ if u = v then 0 else 1 := by
            by_cases h : u = v
            · simp only [h, if_true, Nat.le_refl]
            · rw [if_neg h]
              split_ifs <;> omega
          exact Nat.add_le_add hstep ih

end Changes

section Values

variable {group : α → Bool} {val : α → β}

/-- The values of a group, newest first. -/
def values (group : α → Bool) (val : α → β) (hist : List α) : List β := (hist.filter group).map val

theorem values_cons_of_group {x : α} {hist : List α} (h : group x = true) :
    values group val (x :: hist) = val x :: values group val hist := by
  rw [values, List.filter_cons_of_pos h]
  rfl

theorem values_cons_of_not_group {x : α} {hist : List α} (h : ¬group x = true) :
    values group val (x :: hist) = values group val hist := by
  rw [values, List.filter_cons_of_neg h]
  rfl

theorem val_mem_values {hist : List α} {j : Nat} {y : α} (hy : hist[j]? = some y) (hgroup : group y = true) :
    val y ∈ values group val hist :=
  List.mem_map_of_mem (List.mem_filter.mpr ⟨List.mem_of_getElem? hy, hgroup⟩)

/-- A group with no value yet has no member. -/
theorem not_group_of_values {hist : List α} (h : values group val hist = []) {j : Nat} {y : α}
    (hy : hist[j]? = some y) : ¬group y = true := by
  intro hgroup
  have hmem : val y ∈ values group val hist := val_mem_values hy hgroup
  rw [h] at hmem
  cases hmem

/-- Members of the group whose value is not `u` leave the window within so many steps. -/
def LeavesWithin (n : Nat) (group : α → Bool) (val : α → β) (hist : List α) (u : β) (credit : Nat) : Prop :=
  ∀ j y, hist[j]? = some y → group y = true → val y ≠ u → n ≤ j + credit

/-- A step that brings no other value takes them a place further. -/
theorem LeavesWithin.push {x : α} {hist : List α} {u : β} {credit : Nat}
    (h : LeavesWithin n group val hist u credit) (hx : group x = true → val x = u) :
    LeavesWithin n group val (x :: hist) u (credit - 1) := by
  intro j y hy hgroup hne
  cases j with
  | zero =>
      cases hy
      exact absurd (hx hgroup) hne
  | succ j =>
      have hle := h j y hy hgroup hne
      omega

/-- After a change, all that differs is behind the newest value. -/
theorem leavesWithin_cons (x : α) (hist : List α) : LeavesWithin n group val (x :: hist) (val x) (n - 1) := by
  intro j y hy _ hne
  cases j with
  | zero =>
      cases hy
      exact absurd rfl hne
  | succ j => omega

end Values

variable [DecidableEq β] (n : Nat) (group : α → Bool) (val : α → β)

/-- A member of the group differs from another one among the latest `n` of the history, newest first. -/
def flagged (x : α) (hist : List α) : Bool := group x && (hist.take n).any fun y => group y && val y ≠ val x

/-- The number of flags raised over a history. -/
def flags : List α → Nat
  | [] => 0
  | x :: hist => (if flagged n group val x hist then 1 else 0) + flags hist

variable {n group val}

theorem flagged_iff {x : α} {hist : List α} : flagged n group val x hist = true ↔
    group x = true ∧ ∃ y ∈ hist.take n, group y = true ∧ val y ≠ val x := by
  simp only [flagged, Bool.and_eq_true, List.any_eq_true, decide_eq_true_eq]

/-- The value a flag is raised against, by its age. -/
theorem exists_of_flagged {x : α} {hist : List α} (h : flagged n group val x hist = true) :
    ∃ j y, j < n ∧ hist[j]? = some y ∧ group y = true ∧ val y ≠ val x := by
  obtain ⟨-, y, hmem, hy⟩ := flagged_iff.mp h
  obtain ⟨j, hj⟩ := List.mem_iff_getElem?.mp hmem
  rw [List.getElem?_take] at hj
  split_ifs at hj with hjn
  exact ⟨j, y, hjn, hj, hy⟩

theorem LeavesWithin.credit_pos {x : α} {hist : List α} {credit : Nat}
    (h : LeavesWithin n group val hist (val x) credit) (hflag : flagged n group val x hist = true) : 0 < credit := by
  obtain ⟨j, y, hjn, hy, hgroup, hne⟩ := exists_of_flagged hflag
  have hle := h j y hy hgroup hne
  omega

/-- Each change pays for `n` flags; what is not used up yet covers the values that have still to leave. -/
def Covered (n : Nat) (group : α → Bool) (val : α → β) (hist : List α) : Prop :=
  ∃ credit, flags n group val hist + credit ≤ n * changes (values group val hist) ∧
    ∀ u rest, values group val hist = u :: rest → LeavesWithin n group val hist u credit

theorem covered_nil : Covered n group val ([] : List α) := ⟨0, Nat.zero_le _, fun u rest h => by cases h⟩

/-- An element outside the group. -/
theorem Covered.cons_of_not_group {x : α} {hist : List α} (h : Covered n group val hist) (hx : ¬group x = true) :
    Covered n group val (x :: hist) := by
  obtain ⟨credit, hle, hleaves⟩ := h
  have hflag : ¬flagged n group val x hist = true := fun hflag => hx (flagged_iff.mp hflag).1
  refine ⟨credit - 1, ?_, ?_⟩
  · rw [flags, if_neg hflag, values_cons_of_not_group hx]
    omega
  · intro u rest hu
    rw [values_cons_of_not_group hx] at hu
    exact (hleaves u rest hu).push fun hgroup => absurd hgroup hx

/-- A member of the group: the first one, one that repeats the newest value, or a change. -/
theorem Covered.cons_of_group {x : α} {hist : List α} (h : Covered n group val hist) (hx : group x = true) :
    Covered n group val (x :: hist) := by
  obtain ⟨credit, hle, hleaves⟩ := h
  rw [Covered, flags, values_cons_of_group hx]
  cases hvalues : values group val hist with
  | nil =>
      have hflag : ¬flagged n group val x hist = true := by
        intro hflag
        obtain ⟨j, y, -, hy, hgroup, -⟩ := exists_of_flagged hflag
        exact not_group_of_values hvalues hy hgroup
      rw [hvalues] at hle
      refine ⟨credit, ?_, ?_⟩
      · rw [if_neg hflag, Nat.zero_add]
        exact hle
      · intro u rest hu j y hy hgroup hne
        cases hu
        cases j with
        | zero =>
            cases hy
            exact absurd rfl hne
        | succ j => exact absurd hgroup (not_group_of_values hvalues hy)
  | cons u rest =>
      rw [hvalues] at hle
      by_cases hchange : val x = u
      · have hnewest : LeavesWithin n group val hist (val x) credit := by
          rw [hchange]
          exact hleaves u rest hvalues
        refine ⟨credit - 1, ?_, ?_⟩
        · rw [changes, if_pos hchange, Nat.zero_add]
          split_ifs with hflag
          · have hpos := hnewest.credit_pos hflag
            omega
          · omega
        · intro u' rest' hu'
          cases hu'
          exact hnewest.push fun _ => rfl
      · refine ⟨n - 1, ?_, ?_⟩
        · rw [changes, if_neg hchange, Nat.mul_add, Nat.mul_one]
          split_ifs with hflag
          · obtain ⟨j, -, hjn, -⟩ := exists_of_flagged hflag
            omega
          · omega
        · intro u' rest' hu'
          cases hu'
          exact leavesWithin_cons x hist

/-- **A change of value is flagged at most once for each place of the window.** -/
theorem flags_le (hist : List α) : flags n group val hist ≤ n * changes (values group val hist) := by
  have hcovered : Covered n group val hist := by
    induction hist with
    | nil => exact covered_nil
    | cons x hist ih =>
        by_cases hx : group x = true
        · exact ih.cons_of_group hx
        · exact ih.cons_of_not_group hx
  obtain ⟨credit, hle, -⟩ := hcovered
  exact Nat.le_trans (Nat.le_add_right _ credit) hle

end History
