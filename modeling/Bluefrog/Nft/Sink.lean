import Mathlib.Data.List.Pairwise

/-!
The ban sink. A source is banned by adding it to one of a list of nft sets, ordered shortest-lived first:
its escalation tier picks the set.
-/

namespace Bluefrog
namespace Nft

/-- Pick the set for a tier, clamping to the last configured tier. -/
def tierSet (sets : List String) (tier : Nat) : Except String String :=
  match sets[min tier (sets.length - 1)]? with
  | some set => .ok set
  | none => .error "no nft ban set configured"

variable {sets : List String}

theorem min_lt_length (h : sets ≠ []) (tier : Nat) : min tier (sets.length - 1) < sets.length := by
  have hpos := List.length_pos_iff.mpr h
  omega

/-- The set of a tier, where there are sets. -/
def setAt (h : sets ≠ []) (tier : Nat) : String :=
  sets.get ⟨min tier (sets.length - 1), min_lt_length h tier⟩

theorem tierSet_eq (h : sets ≠ []) (tier : Nat) : tierSet sets tier = .ok (setAt h tier) := by
  rw [tierSet, List.getElem?_eq_getElem (min_lt_length h tier)]
  rfl

/-- A higher tier picks no shorter-lived set. -/
theorem lifetime_mono {lifetime : String → Nat} (hsorted : sets.Pairwise fun s s' => lifetime s ≤ lifetime s')
    (h : sets ≠ []) {tier tier' : Nat} (hle : tier ≤ tier') : lifetime (setAt h tier) ≤ lifetime (setAt h tier') := by
  have hclamped : min tier (sets.length - 1) ≤ min tier' (sets.length - 1) := by omega
  rcases Nat.lt_or_eq_of_le hclamped with hlt | heq
  · exact List.pairwise_iff_get.mp hsorted ⟨_, min_lt_length h tier⟩ ⟨_, min_lt_length h tier'⟩ hlt
  · rw [setAt, setAt]
    exact Nat.le_of_eq (congrArg lifetime (congrArg sets.get (Fin.ext heq)))

end Nft
end Bluefrog
