import Mathlib.Data.List.Basic

/-!
Interleavings of keyed sequences. Two lists are interleavings of the same sequences when they agree key
by key. If steps of different keys commute, up to a congruence and under an invariant, then two
interleavings lead to congruent states.
-/

namespace Interleaving

variable {σ α κ : Type}

/-- The lists interleave the same sequences, one for each key. -/
def SameByKey [DecidableEq κ] (key : α → κ) (xs ys : List α) : Prop :=
  ∀ k, (xs.filter fun x => key x = k) = ys.filter fun y => key y = k

/-- Steps of different keys commute, up to a congruence and under an invariant. -/
structure Commutes (key : α → κ) (step : σ → α → σ) (Inv : σ → Prop) (R : σ → σ → Prop) : Prop where
  inv : ∀ s a, Inv s → Inv (step s a)
  refl : ∀ s, R s s
  trans : ∀ s s' s'', R s s' → R s' s'' → R s s''
  congr : ∀ s s' a, R s s' → R (step s a) (step s' a)
  comm : ∀ s a b, Inv s → key a ≠ key b → R (step (step s a) b) (step (step s b) a)

variable {key : α → κ} {step : σ → α → σ} {Inv : σ → Prop} {R : σ → σ → Prop} {s s' : σ}

theorem Commutes.congr_foldl (h : Commutes key step Inv R) (hR : R s s') (xs : List α) :
    R (xs.foldl step s) (xs.foldl step s') := by
  induction xs generalizing s s' with
  | nil => exact hR
  | cons x xs ih => exact ih (h.congr s s' x hR)

/-- A step moves from the front over steps of other keys. -/
theorem Commutes.from_front (h : Commutes key step Inv R) (hs : Inv s) (x : α) {pre : List α}
    (hpre : ∀ a ∈ pre, key a ≠ key x) : R (pre.foldl step (step s x)) (step (pre.foldl step s) x) := by
  induction pre generalizing s with
  | nil => exact h.refl _
  | cons a pre ih =>
      have hswap := h.comm s x a hs (Ne.symm (hpre a List.mem_cons_self))
      have hrest := ih (h.inv s a hs) fun b hb => hpre b (List.mem_cons_of_mem _ hb)
      exact h.trans _ _ _ (h.congr_foldl hswap pre) hrest

/-- The first element that meets a test. -/
theorem exists_split {p : α → Bool} {x : α} {rest ys : List α} (h : ys.filter p = x :: rest) :
    ∃ pre post, ys = pre ++ x :: post ∧ (∀ a ∈ pre, p a = false) ∧ post.filter p = rest := by
  induction ys with
  | nil => cases h
  | cons y ys ih =>
      cases hp : p y with
      | true =>
          rw [List.filter_cons_of_pos hp, List.cons.injEq] at h
          obtain ⟨rfl, hrest⟩ := h
          exact ⟨[], ys, rfl, fun a ha => absurd ha List.not_mem_nil, hrest⟩
      | false =>
          rw [List.filter_cons_of_neg (Bool.eq_false_iff.mp hp)] at h
          obtain ⟨pre, post, rfl, hpre, hrest⟩ := ih h
          refine ⟨y :: pre, post, rfl, fun a ha => ?_, hrest⟩
          rcases List.mem_cons.mp ha with rfl | ha
          · exact hp
          · exact hpre a ha

variable [DecidableEq κ]

theorem SameByKey.refl (xs : List α) : SameByKey key xs xs := fun _ => rfl

theorem SameByKey.trans {xs ys zs : List α} (h : SameByKey key xs ys) (h' : SameByKey key ys zs) :
    SameByKey key xs zs := fun k => (h k).trans (h' k)

theorem SameByKey.append {xs xs' ys ys' : List α} (h : SameByKey key xs ys) (h' : SameByKey key xs' ys') :
    SameByKey key (xs ++ xs') (ys ++ ys') := by
  intro k
  rw [List.filter_append, List.filter_append, h k, h' k]

/-- A step moves to the front of steps of other keys. -/
theorem SameByKey.front {x : α} {xs : List α} (h : ∀ a ∈ xs, key a ≠ key x) : SameByKey key (xs ++ [x]) (x :: xs) := by
  intro k
  rw [List.filter_append]
  by_cases hk : key x = k
  · have hnone : (xs.filter fun a => key a = k) = [] := by
      rw [List.filter_eq_nil_iff]
      exact fun a ha => by simpa [← hk] using h a ha
    rw [List.filter_cons_of_pos (by simpa using hk), List.filter_cons_of_pos (by simpa using hk), hnone]
    rfl
  · rw [List.filter_cons_of_neg (by simpa using hk), List.filter_cons_of_neg (by simpa using hk), List.filter_nil,
      List.append_nil]

/-- The first step of one list is the first of its key in the other. -/
theorem SameByKey.split {x : α} {xs ys : List α} (h : SameByKey key (x :: xs) ys) :
    ∃ pre post, ys = pre ++ x :: post ∧ (∀ a ∈ pre, key a ≠ key x) ∧ SameByKey key xs (pre ++ post) := by
  have hx := h (key x)
  rw [List.filter_cons_of_pos (by simp)] at hx
  obtain ⟨pre, post, rfl, hpre, -⟩ := exists_split hx.symm
  have hne : ∀ a ∈ pre, key a ≠ key x := fun a ha => of_decide_eq_false (hpre a ha)
  refine ⟨pre, post, rfl, hne, fun k => ?_⟩
  have hk := h k
  rw [List.filter_append] at hk ⊢
  by_cases hkx : key x = k
  · have hnone : (pre.filter fun a => key a = k) = [] := by
      rw [List.filter_eq_nil_iff]
      exact fun a ha => by simpa [← hkx] using hne a ha
    rw [List.filter_cons_of_pos (by simpa using hkx), List.filter_cons_of_pos (by simpa using hkx), hnone,
      List.nil_append, List.cons.injEq] at hk
    rw [hnone, List.nil_append]
    exact hk.2
  · rwa [List.filter_cons_of_neg (by simpa using hkx), List.filter_cons_of_neg (by simpa using hkx)] at hk

/-- **Two interleavings of the same sequences lead to congruent states.** -/
theorem Commutes.foldl_of_sameByKey (h : Commutes key step Inv R) (hs : Inv s) {xs ys : List α}
    (hsame : SameByKey key xs ys) : R (xs.foldl step s) (ys.foldl step s) := by
  induction xs generalizing s ys with
  | nil =>
      cases ys with
      | nil => exact h.refl _
      | cons y ys =>
          have hy := hsame (key y)
          rw [List.filter_cons_of_pos (by simp)] at hy
          cases hy
  | cons x xs ih =>
      obtain ⟨pre, post, rfl, hpre, hrest⟩ := hsame.split
      have hfront := h.congr_foldl (h.from_front hs x hpre) post
      have htail := ih (h.inv s x hs) hrest
      rw [List.foldl_append] at htail ⊢
      exact h.trans _ _ _ htail hfront

end Interleaving
