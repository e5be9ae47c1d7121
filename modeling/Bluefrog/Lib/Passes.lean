import Bluefrog.Lib.Interleaving
import Mathlib.Logic.Function.Basic

/-!
Passes over a keyed state. The state has one cell a key, and a section of the program works on the cell
of its key alone. A pass goes over the keys one by one while other sections run in between. Every other
section comes to its key before or after the pass does; with the early ones moved to the front and the
late ones to the end the pass runs in one piece, and no cell can tell.
-/

open Interleaving

namespace Passes

variable {κ α σ : Type} [DecidableEq κ] {key : α → κ} {act : α → σ → σ}

/-- One section, on the cell of its key. -/
def stepAt (key : α → κ) (act : α → σ → σ) (s : κ → σ) (a : α) : κ → σ :=
  Function.update s (key a) (act a (s (key a)))

theorem stepAt_of_ne {a : α} {k : κ} (h : k ≠ key a) (s : κ → σ) : stepAt key act s a k = s k :=
  Function.update_of_ne h _ _

theorem stepAt_comm (s : κ → σ) {a b : α} (h : key a ≠ key b) :
    stepAt key act (stepAt key act s a) b = stepAt key act (stepAt key act s b) a := by
  unfold stepAt
  rw [Function.update_of_ne h.symm, Function.update_of_ne h, Function.update_comm h]

theorem commutes_stepAt (key : α → κ) (act : α → σ → σ) : Commutes key (stepAt key act) (fun _ => True) Eq where
  inv := fun _ _ _ => trivial
  refl := fun _ => rfl
  trans := fun _ _ _ => Eq.trans
  congr := fun _ _ a h => congrArg (stepAt key act · a) h
  comm := fun s _ _ _ hne => stepAt_comm s hne

/-- Two interleavings of the same sections, key by key, lead to the same state. -/
theorem foldl_of_sameByKey {xs ys : List α} (h : SameByKey key xs ys) (s : κ → σ) :
    xs.foldl (stepAt key act) s = ys.foldl (stepAt key act) s :=
  (commutes_stepAt key act).foldl_of_sameByKey trivial h

/-- A cell is left alone by the sections of other keys. -/
theorem foldl_of_ne {xs : List α} {k : κ} (h : ∀ a ∈ xs, key a ≠ k) (s : κ → σ) :
    xs.foldl (stepAt key act) s k = s k := by
  induction xs generalizing s with
  | nil => rfl
  | cons a xs ih =>
      rw [List.foldl_cons, ih (fun b hb => h b (List.mem_cons_of_mem a hb)),
        stepAt_of_ne (h a List.mem_cons_self).symm]

/-- A history, put in an order in which a pass that has done some keys runs in one piece: the sections of the
pass and those after it are at keys that are done. -/
structure Split (key : α → κ) (done : κ → Prop) (history before pass after : List α) : Prop where
  same : SameByKey key history (before ++ pass ++ after)
  behind : ∀ a ∈ pass ++ after, done (key a)

namespace Split

variable {done done' : κ → Prop} {history before pass after : List α}

theorem of_same (h : SameByKey key history before) : Split key done history before [] [] where
  same := by rwa [List.append_nil, List.append_nil]
  behind := fun a ha => absurd ha List.not_mem_nil

theorem weaken (h : Split key done history before pass after) (hdone : ∀ k, done k → done' k) :
    Split key done' history before pass after :=
  ⟨h.same, fun a ha => hdone _ (h.behind a ha)⟩

/-- A section at a key that is done goes to the end. -/
theorem late (h : Split key done history before pass after) {a : α} (ha : done (key a)) :
    Split key done (history ++ [a]) before pass (after ++ [a]) where
  same := by
    rw [← List.append_assoc]
    exact h.same.append (.refl [a])
  behind := by
    intro b hb
    rw [← List.append_assoc, List.mem_append, List.mem_singleton] at hb
    rcases hb with hb | rfl
    · exact h.behind b hb
    · exact ha

/-- A section at a key that is not done goes before the pass. -/
theorem early (h : Split key done history before pass after) {a : α} (ha : ¬done (key a)) :
    Split key done (history ++ [a]) (before ++ [a]) pass after where
  same := by
    have hmove : SameByKey key (pass ++ after ++ [a]) (a :: (pass ++ after)) :=
      .front fun b hb heq => ha (heq ▸ h.behind b hb)
    have hlast := h.same.append (.refl [a])
    have hfront := (SameByKey.refl before).append hmove
    simp only [List.append_assoc, List.singleton_append] at hlast hfront ⊢
    exact hlast.trans hfront
  behind := h.behind

/-- The pass comes to one more key, where it runs a section of its own. -/
theorem advance (h : Split key done history before pass after) {a : α} (ha : ¬done (key a))
    (hdone : ∀ k, done' k ↔ done k ∨ k = key a) : Split key done' (history ++ [a]) before (pass ++ [a]) after where
  same := by
    have hmove : SameByKey key (after ++ [a]) (a :: after) :=
      .front fun b hb heq => ha (heq ▸ h.behind b (List.mem_append_right _ hb))
    have hlast := h.same.append (.refl [a])
    have hfront := (SameByKey.refl (before ++ pass)).append hmove
    simp only [List.append_assoc, List.singleton_append] at hlast hfront ⊢
    exact hlast.trans hfront
  behind := by
    intro b hb
    rw [List.append_assoc, List.mem_append, List.mem_append, List.mem_singleton] at hb
    rcases hb with hb | rfl | hb
    · exact (hdone _).mpr (.inl (h.behind b (List.mem_append_left _ hb)))
    · exact (hdone _).mpr (.inr rfl)
    · exact (hdone _).mpr (.inl (h.behind b (List.mem_append_right _ hb)))

end Split
end Passes
