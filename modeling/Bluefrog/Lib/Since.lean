import Mathlib.Data.List.Basic
import Mathlib.Data.List.Induction
import Mathlib.Tactic.SplitIfs

/-!
Histories read backwards. A condition may ask whether something has held since some event, and a count may
ask of each event whether the history before it makes it count. Both are decided one event at a time.
-/

namespace History

variable {α : Type}

/-- Some event starts a stretch, and every history from it on holds, up to now. -/
def Since (starts : α → Prop) (holds : List α → Prop) (l : List α) : Prop :=
  ∃ before x after, l = before ++ x :: after ∧ starts x ∧ ∀ a b, after = a ++ b → holds (before ++ x :: a)

section Since

variable {starts : α → Prop} {holds : List α → Prop}

theorem not_since_nil : ¬Since starts holds [] := by
  rintro ⟨before, x, after, h, -⟩
  exact absurd h.symm (List.append_ne_nil_of_right_ne_nil _ (List.cons_ne_nil _ _))

theorem Since.holds_now {l : List α} (h : Since starts holds l) : holds l := by
  obtain ⟨before, x, after, rfl, -, hholds⟩ := h
  exact hholds after [] (List.append_nil _).symm

theorem since_append_singleton (l : List α) (x : α) :
    Since starts holds (l ++ [x]) ↔ holds (l ++ [x]) ∧ (starts x ∨ Since starts holds l) := by
  constructor
  · rintro ⟨before, y, after, heq, hstarts, hholds⟩
    refine ⟨by rw [heq]; exact hholds after [] (List.append_nil _).symm, ?_⟩
    rcases List.eq_nil_or_concat' after with rfl | ⟨after, z, rfl⟩
    · obtain ⟨-, hxy⟩ := List.append_inj' heq rfl
      cases hxy
      exact .inl hstarts
    · rw [← List.cons_append, ← List.append_assoc] at heq
      obtain ⟨hl, -⟩ := List.append_inj' heq rfl
      refine .inr ⟨before, y, after, hl, hstarts, fun a b hab => hholds a (b ++ [z]) ?_⟩
      rw [hab, List.append_assoc]
  · rintro ⟨hnow, hstarts | ⟨before, y, after, rfl, hstarts, hholds⟩⟩
    · refine ⟨l, x, [], rfl, hstarts, fun a b hab => ?_⟩
      rw [(List.append_eq_nil_iff.mp hab.symm).1]
      exact hnow
    · refine ⟨before, y, after ++ [x], by rw [List.append_assoc, List.cons_append], hstarts, fun a b hab => ?_⟩
      rcases List.eq_nil_or_concat' b with rfl | ⟨b, z, rfl⟩
      · rw [List.append_nil] at hab
        rw [← hab, ← List.cons_append, ← List.append_assoc]
        exact hnow
      · rw [← List.append_assoc] at hab
        exact hholds a b (List.append_inj' hab rfl).1

end Since

section Count

variable (P : List α → α → Prop) [∀ l x, Decidable (P l x)]

/-- How many events count, after a history. -/
def countFrom : List α → List α → Nat
  | _, [] => 0
  | before, x :: l => (if P before x then 1 else 0) + countFrom (before ++ [x]) l

/-- How many events count, each by the history before it. -/
def countAt (l : List α) : Nat := countFrom P [] l

theorem countFrom_append_singleton (before l : List α) (x : α) :
    countFrom P before (l ++ [x]) = countFrom P before l + if P (before ++ l) x then 1 else 0 := by
  induction l generalizing before with
  | nil => rw [List.nil_append, countFrom, countFrom, countFrom, List.append_nil, Nat.add_comm]
  | cons y l ih => rw [List.cons_append, countFrom, countFrom, ih, List.append_assoc, Nat.add_assoc]; rfl

theorem countAt_append_singleton (l : List α) (x : α) :
    countAt P (l ++ [x]) = countAt P l + if P l x then 1 else 0 := countFrom_append_singleton P [] l x

/-- No more events count than meet a test that all that count meet. -/
theorem countAt_le_countP {p : α → Bool} (h : ∀ l x, P l x → p x = true) (l : List α) : countAt P l ≤ l.countP p := by
  induction l using List.reverseRecOn with
  | nil => exact Nat.le_refl 0
  | append_singleton l x ih =>
      rw [countAt_append_singleton, List.countP_append, List.countP_singleton]
      refine Nat.add_le_add ih ?_
      split_ifs with hP hp
      · exact Nat.le_refl 1
      · exact absurd (h l x hP) hp
      · exact Nat.zero_le 1
      · exact Nat.le_refl 0

end Count

/-- What grows by at most one with each event reaches every number on its way, each by an event of its own. -/
theorem exists_reaches {g : List α → Nat} (hnil : g [] = 0) (hstep : ∀ l x, g (l ++ [x]) ≤ g l + 1) {n : Nat}
    (hpos : 0 < n) {l : List α} (hle : n ≤ g l) :
    ∃ before x after, l = before ++ x :: after ∧ g before < n ∧ g (before ++ [x]) = n := by
  induction l using List.reverseRecOn with
  | nil => omega
  | append_singleton l x ih =>
      by_cases hl : n ≤ g l
      · obtain ⟨before, y, after, rfl, hlt, heq⟩ := ih hl
        exact ⟨before, y, after ++ [x], by rw [List.append_assoc, List.cons_append], hlt, heq⟩
      · have := hstep l x
        exact ⟨l, x, [], rfl, by omega, by omega⟩

end History
