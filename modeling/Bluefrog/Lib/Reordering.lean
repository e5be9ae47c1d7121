import Mathlib.Data.List.Basic

/-!
Reorderings of a list that keep the order of the elements that depend on each other. Where independent steps
commute, a list and its reorderings lead to the same state.
-/

namespace Reordering

variable {σ α : Type} {dep : α → α → Prop} {step : σ → α → σ} {xs ys : List α}

/-- The second list has the elements of the first in another order. Of two elements, of which one depends on
the other, the one that stood first still does. -/
def Reorders (dep : α → α → Prop) (xs ys : List α) : Prop :=
  ∃ es : List (α × Nat), es.Perm xs.zipIdx ∧ es.map Prod.fst = ys ∧ es.Pairwise fun a b => dep a.1 b.1 → a.2 < b.2

/-- Steps that do not depend on each other commute. -/
def Independent (dep : α → α → Prop) (step : σ → α → σ) : Prop :=
  ∀ s a b, ¬dep a b → step (step s a) b = step (step s b) a

/-- A step moves to the front over steps that it does not depend on. -/
theorem Independent.to_front (h : Independent dep step) {x : α} {front : List α} (hfront : ∀ a ∈ front, ¬dep a x)
    (s : σ) : step (front.foldl step s) x = front.foldl step (step s x) := by
  induction front generalizing s with
  | nil => rfl
  | cons a front ih =>
      calc step ((a :: front).foldl step s) x
        _ = front.foldl step (step (step s a) x) := ih (fun b hb => hfront b (List.mem_cons_of_mem _ hb)) (step s a)
        _ = front.foldl step (step (step s x) a) := by rw [h s a x (hfront a List.mem_cons_self)]

/-- The element that stood first, among elements with their positions in another order. -/
theorem exists_first {x : α} {k : Nat} {es : List (α × Nat)} (hperm : es.Perm ((x :: xs).zipIdx k))
    (hordered : es.Pairwise fun a b => dep a.1 b.1 → a.2 < b.2) :
    ∃ front back, es = front ++ (x, k) :: back ∧ (front ++ back).Perm (xs.zipIdx (k + 1)) ∧
      ∀ a ∈ front, ¬dep a.1 x := by
  rw [List.zipIdx_cons] at hperm
  obtain ⟨front, back, rfl⟩ := List.append_of_mem (hperm.mem_iff.mpr List.mem_cons_self)
  have hrest : (front ++ back).Perm (xs.zipIdx (k + 1)) := (List.perm_middle.symm.trans hperm).cons_inv
  refine ⟨front, back, rfl, hrest, fun a ha hdep => ?_⟩
  have hlt : a.2 < k := (List.pairwise_append.mp hordered).2.2 a ha (x, k) List.mem_cons_self hdep
  have hle : k + 1 ≤ a.2 := List.le_snd_of_mem_zipIdx (hrest.mem_iff.mp (List.mem_append_left _ ha))
  omega

theorem Independent.foldl_of_perm (h : Independent dep step) {k : Nat} {es : List (α × Nat)}
    (hperm : es.Perm (xs.zipIdx k)) (hordered : es.Pairwise fun a b => dep a.1 b.1 → a.2 < b.2) (s : σ) :
    (es.map Prod.fst).foldl step s = xs.foldl step s := by
  induction xs generalizing k es s with
  | nil =>
      rw [List.zipIdx_nil] at hperm
      rw [hperm.eq_nil]
      rfl
  | cons x xs ih =>
      obtain ⟨front, back, rfl, hrest, hfront⟩ := exists_first hperm hordered
      have hsub : (front ++ back).Sublist (front ++ (x, k) :: back) :=
        (List.Sublist.refl front).append (List.sublist_cons_self _ back)
      have hindependent : ∀ a ∈ front.map Prod.fst, ¬dep a x := by
        intro a ha
        obtain ⟨e, he, rfl⟩ := List.mem_map.mp ha
        exact hfront e he
      calc ((front ++ (x, k) :: back).map Prod.fst).foldl step s
        _ = (back.map Prod.fst).foldl step (step ((front.map Prod.fst).foldl step s) x) := by
          rw [List.map_append, List.foldl_append]
          rfl
        _ = ((front ++ back).map Prod.fst).foldl step (step s x) := by
          rw [h.to_front hindependent, List.map_append, List.foldl_append]
        _ = (x :: xs).foldl step s := ih hrest (hordered.sublist hsub) (step s x)

/-- **A reordering leads to the same state.** -/
theorem Independent.foldl_of_reorders (h : Independent dep step) (horder : Reorders dep xs ys) (s : σ) :
    ys.foldl step s = xs.foldl step s := by
  obtain ⟨es, hperm, rfl, hordered⟩ := horder
  exact h.foldl_of_perm hperm hordered s

end Reordering
