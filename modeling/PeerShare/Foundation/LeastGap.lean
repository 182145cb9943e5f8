import Mathlib.Tactic

/-!
# The least number missing from a finite set

A window protocol keeps its base at the least number that has not arrived yet.
The base is determined by the set alone, it grows with the set, and it reaches
the end of the numbering exactly when the set is full.
-/

namespace PeerShare
namespace Foundation

/-- The least missing number, spelled out. -/
theorem isLeast_missing_iff {S : Finset Nat} {gap : Nat} :
    IsLeast {k | k ∉ S} gap ↔ gap ∉ S ∧ ∀ k < gap, k ∈ S := by
  constructor
  · rintro ⟨hmissing, hleast⟩
    refine ⟨hmissing, ?_⟩
    intro k hk
    by_contra hnot
    have hge : gap ≤ k := hleast hnot
    omega
  · rintro ⟨hmissing, hbelow⟩
    refine ⟨hmissing, ?_⟩
    intro k hk
    by_contra hlt
    exact hk (hbelow k (by omega))

/-- A larger set has its gap further on. -/
theorem isLeast_missing_mono {S T : Finset Nat} {gap gap' : Nat}
    (hS : IsLeast {k | k ∉ S} gap) (hT : IsLeast {k | k ∉ T} gap')
    (hsub : S ⊆ T) : gap ≤ gap' :=
  hS.2 fun hmem => hT.1 (hsub hmem)

/-- The gap of a set of numbers below `bound` is at most `bound`. -/
theorem isLeast_missing_le {S : Finset Nat} {gap bound : Nat}
    (hS : IsLeast {k | k ∉ S} gap) (hbound : ∀ k ∈ S, k < bound) :
    gap ≤ bound :=
  hS.2 fun hmem => absurd (hbound bound hmem) (lt_irrefl bound)

/-- A set of numbers below `bound` has `bound` elements exactly when nothing
is missing below `bound`. -/
theorem bound_le_card_iff_gap_eq {S : Finset Nat} {gap bound : Nat}
    (hS : IsLeast {k | k ∉ S} gap) (hbound : ∀ k ∈ S, k < bound) :
    bound ≤ S.card ↔ gap = bound := by
  have hsub : S ⊆ Finset.range bound := by
    intro k hk
    exact Finset.mem_range.mpr (hbound k hk)
  constructor
  · intro hcard
    have hfull : S = Finset.range bound := by
      apply Finset.eq_of_subset_of_card_le hsub
      simpa using hcard
    have hle := isLeast_missing_le hS hbound
    by_contra hne
    have hmem : gap ∈ S := by
      rw [hfull]
      exact Finset.mem_range.mpr (by omega)
    exact hS.1 hmem
  · rintro rfl
    have hall : Finset.range gap ⊆ S := by
      intro k hk
      exact (isLeast_missing_iff.mp hS).2 k (Finset.mem_range.mp hk)
    simpa using Finset.card_le_card hall

end Foundation
end PeerShare
