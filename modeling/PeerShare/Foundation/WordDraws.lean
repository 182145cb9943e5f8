import Mathlib.Data.FinEnum
import Mathlib.Data.Set.Card
import Mathlib.Tactic

/-!
# Draws of a reversible generator

A generator has a step `next` on its states and a number `draw` that it hands out
after a step.  Where neither loses anything, every draw of a run, however late, is a
bijective image of the state the run began in: as many starting states lead to a
given set of draws as the set has members.  A state that `next` and `draw` leave
alone, such as the word zero of a shift register, can be left out on both sides.
-/

namespace PeerShare
namespace Foundation

section Generator

variable {σ : Type} [Finite σ] {next draw : σ → σ}

theorem draw_iterate_bijective (hnext : Function.Injective next)
    (hdraw : Function.Injective draw) (k : Nat) :
    Function.Bijective fun state => draw (next^[k] state) :=
  (hdraw.comp (hnext.iterate k)).bijective_of_finite

/-- The starting states whose draw number `k` lies in `draws`. -/
theorem ncard_draw_iterate (hnext : Function.Injective next)
    (hdraw : Function.Injective draw) (k : Nat) (draws : Set σ) :
    {state | draw (next^[k] state) ∈ draws}.ncard = draws.ncard := by
  have hbijective := draw_iterate_bijective hnext hdraw k
  apply Set.ncard_preimage_of_injective_subset_range hbijective.injective
  rw [hbijective.surjective.range_eq]
  exact Set.subset_univ draws

/-- The same without a state that never moves and draws itself. -/
theorem ncard_draw_iterate_ne {still : σ} (hnext : Function.Injective next)
    (hdraw : Function.Injective draw) (hstill : next still = still)
    (hself : draw still = still) (k : Nat) (draws : Set σ) :
    {state | state ≠ still ∧ draw (next^[k] state) ∈ draws}.ncard =
      (draws \ {still}).ncard := by
  have hfixed : draw (next^[k] still) = still := by
    rw [Function.iterate_fixed hstill k, hself]
  have hsame : {state | state ≠ still ∧ draw (next^[k] state) ∈ draws} =
      {state | draw (next^[k] state) ∈ draws \ {still}} := by
    ext state
    have hmoved : draw (next^[k] state) ≠ still ↔ state ≠ still := by
      have hinjective := (draw_iterate_bijective hnext hdraw k).injective
      have hapart := hinjective.ne_iff (x := state) (y := still)
      rwa [hfixed] at hapart
    constructor
    · rintro ⟨hne, hdrawn⟩
      exact ⟨hdrawn, hmoved.mpr hne⟩
    · rintro ⟨hdrawn, hne⟩
      exact ⟨hmoved.mp hne, hdrawn⟩
  rw [hsame, ncard_draw_iterate hnext hdraw]

end Generator

/-- The 64-bit words below a bound. -/
theorem ncard_words_lt {bound : Nat} (hbound : bound ≤ 2 ^ 64) :
    {word : UInt64 | word.toNat < bound}.ncard = bound := by
  have hinjective : Function.Injective UInt64.toNat := fun _ _ => UInt64.toNat_inj.mp
  rw [← Set.ncard_image_of_injective _ hinjective]
  have himage : UInt64.toNat '' {word : UInt64 | word.toNat < bound} = Set.Iio bound := by
    ext n
    constructor
    · rintro ⟨word, hword, rfl⟩
      exact hword
    · intro hn
      exact ⟨UInt64.ofNatLT n (hn.trans_le hbound), by simpa using hn, UInt64.toNat_ofNatLT⟩
  rw [himage, ← Finset.coe_Iio, Set.ncard_coe_finset, Nat.card_Iio]

end Foundation
end PeerShare
