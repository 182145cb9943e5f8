import PeerShare.Foundation.WordDraws
import PeerShare.Wire.LossGenerator

/-!
# How often the lossy link drops

Every packet costs one draw of the generator, dropped or not, so packet number `k`
is judged by the draw that follows `k` steps from the seed.  Neither the step nor
the odd multiplier loses anything, and a draw is compared with the rate in units of
`2 ^ -53`.  The seeds that make a given packet drop can therefore be counted: they
are the same number for every packet of a run, and the rate asked for, up to the
last of those 53 bits.
-/

namespace PeerShare
namespace Wire

open Foundation

/-! ## The draw that judges a packet -/

/-- The state that a call of `xs64` leaves. -/
def nextState (state : UInt64) : UInt64 :=
  (xs64 state).1

/-- The number that a call of `xs64` returns. -/
def drawnFrom (state : UInt64) : UInt64 :=
  (xs64 state).2

theorem nextState_injective : Function.Injective nextState :=
  xs64_injective

theorem drawnFrom_injective : Function.Injective drawnFrom := by
  have hinverse : (2685821657736338717 : UInt64) * 6415128727920758069 = 1 := by decide
  intro state other hsame
  apply xs64_injective
  -- the multiplier is undone
  have hback := congrArg (· * (6415128727920758069 : UInt64)) hsame
  simpa only [drawnFrom, xs64, UInt64.mul_assoc, hinverse, UInt64.mul_one] using hback

/-- What `lossy_send` compares with the rate. -/
def uniformOf (drawn : UInt64) : Rat :=
  ((drawn >>> 11).toNat : Rat) / 2 ^ 53

/-- The link has moved on by one step for each packet before this one. -/
theorem lossySends_getElem? (link : LossyLink) (packets : List Bytes) (k : Nat) :
    (lossySends link packets).2[k]? = packets[k]?.map fun packet =>
      if uniformOf (drawnFrom (nextState^[k] link.rng)) < link.loss then none
      else some packet := by
  induction packets generalizing link k with
  | nil => rfl
  | cons packet rest ih =>
      cases k with
      | zero => rfl
      | succ k =>
          show (lossySends (lossySend link packet).1 rest).2[k]? = _
          rw [ih, lossySend_eq, Function.iterate_succ_apply]
          rfl

theorem lossySends_dropped_iff {link : LossyLink} {packets : List Bytes} {k : Nat}
    (hk : k < packets.length) :
    (lossySends link packets).2[k]? = some none ↔
      uniformOf (drawnFrom (nextState^[k] link.rng)) < link.loss := by
  rw [lossySends_getElem?, List.getElem?_eq_getElem hk, Option.map_some, Option.some_inj]
  split <;> simp_all

/-! ## Counting draws -/

/-- The rate in units of `2 ^ -53`, rounded up. -/
def dropLevel (loss : Rat) : Nat :=
  ⌈loss * 2 ^ 53⌉₊

theorem uniformOf_lt_iff (drawn : UInt64) (loss : Rat) :
    uniformOf drawn < loss ↔ drawn.toNat < dropLevel loss * 2 ^ 11 := by
  have hshift : (drawn >>> 11).toNat = drawn.toNat / 2 ^ 11 := by
    rw [UInt64.toNat_shiftRight, Nat.shiftRight_eq_div_pow]
    rfl
  rw [uniformOf, div_lt_iff₀ (by positivity), ← Nat.lt_ceil, hshift,
    Nat.div_lt_iff_lt_mul (by positivity)]
  rfl

theorem dropLevel_le {loss : Rat} (hone : loss ≤ 1) : dropLevel loss ≤ 2 ^ 53 := by
  apply Nat.ceil_le.mpr
  push_cast
  linarith

theorem dropLevel_pos_iff (loss : Rat) : 0 < dropLevel loss ↔ 0 < loss := by
  rw [dropLevel, Nat.ceil_pos]
  exact mul_pos_iff_of_pos_right (by positivity)

/-- The draws below the rate, the word zero left out. -/
theorem ncard_dropping_draws {loss : Rat} (hone : loss ≤ 1) :
    ({drawn | uniformOf drawn < loss} \ {0}).ncard =
      dropLevel loss * 2 ^ 11 - (if 0 < loss then 1 else 0) := by
  have hwords : {drawn | uniformOf drawn < loss} =
      {drawn : UInt64 | drawn.toNat < dropLevel loss * 2 ^ 11} :=
    Set.ext fun drawn => uniformOf_lt_iff drawn loss
  have hbound : dropLevel loss * 2 ^ 11 ≤ 2 ^ 64 := by
    have hlevel := dropLevel_le hone
    omega
  split
  · next hpos =>
      have hlevel := (dropLevel_pos_iff loss).mpr hpos
      have hzero : (0 : UInt64) ∈ {drawn : UInt64 | drawn.toNat < dropLevel loss * 2 ^ 11} := by
        show (0 : UInt64).toNat < dropLevel loss * 2 ^ 11
        rw [UInt64.toNat_zero]
        omega
      rw [hwords, Set.ncard_sdiff_singleton_of_mem hzero, ncard_words_lt hbound]
  · next hnone =>
      have hlevel : dropLevel loss = 0 := by
        have hnot := (dropLevel_pos_iff loss).not.mpr hnone
        omega
      have hempty : {drawn : UInt64 | drawn.toNat < dropLevel loss * 2 ^ 11} = ∅ := by
        simp [hlevel]
      rw [hwords, hempty, hlevel, Set.empty_sdiff, Set.ncard_empty]
      rfl

/-! ## Counting seeds -/

/-- The seeds other than zero that make packet number `k` drop.  Zero is left out
because `lossy_init` puts another seed in its place. -/
def droppingSeeds (fd : Int) (loss : Rat) (packets : List Bytes) (k : Nat) : Set UInt64 :=
  {seed | seed ≠ 0 ∧ (lossySends (lossyInit fd loss seed) packets).2[k]? = some none}

/-- The rate that `lossy_init` stores. -/
theorem lossyInit_loss (fd : Int) (loss : Rat) (seed : UInt64) :
    (lossyInit fd loss seed).loss = max 0 (min loss 1) := by
  show (if loss < 0 then 0 else if 1 < loss then 1 else loss) = max 0 (min loss 1)
  split
  · next hneg => rw [min_eq_left (by linarith), max_eq_left hneg.le]
  · next hpos =>
      split
      · next hone => rw [min_eq_right hone.le, max_eq_right zero_le_one]
      · next hone => rw [min_eq_left (not_lt.mp hone), max_eq_right (not_lt.mp hpos)]

theorem droppingSeeds_eq {fd : Int} {loss : Rat} {packets : List Bytes} {k : Nat}
    (hk : k < packets.length) :
    droppingSeeds fd loss packets k =
      {seed | seed ≠ 0 ∧
        drawnFrom (nextState^[k] seed) ∈ {drawn | uniformOf drawn < max 0 (min loss 1)}} := by
  ext seed
  refine and_congr_right fun hseed => ?_
  have hrng : (lossyInit fd loss seed).rng = seed := if_pos hseed
  rw [lossySends_dropped_iff hk, lossyInit_loss, hrng]
  rfl

theorem ncard_droppingSeeds {fd : Int} {loss : Rat} {packets : List Bytes} {k : Nat}
    (hk : k < packets.length) :
    (droppingSeeds fd loss packets k).ncard =
      dropLevel (max 0 (min loss 1)) * 2 ^ 11 - (if 0 < loss then 1 else 0) := by
  have hone : max 0 (min loss 1) ≤ 1 := max_le zero_le_one (min_le_right _ _)
  have hpos : 0 < max 0 (min loss 1) ↔ 0 < loss := by simp
  have hstill : nextState 0 = 0 := congrArg Prod.fst xs64_zero
  have hself : drawnFrom 0 = 0 := congrArg Prod.snd xs64_zero
  rw [droppingSeeds_eq hk,
    ncard_draw_iterate_ne nextState_injective drawnFrom_injective hstill hself,
    ncard_dropping_draws hone]
  simp only [hpos]

/-- Rounding up and leaving out the word zero change the rate by less than two units
of the comparison. -/
theorem dropLevel_rate {loss : Rat} (hzero : 0 ≤ loss) (hone : loss ≤ 1) {left : Nat}
    (hleft : left ≤ 1) :
    |((dropLevel loss * 2 ^ 11 - left : Nat) : Rat) / (2 ^ 64 - 1) - loss| < 1 / 2 ^ 52 := by
  have hlevel : (dropLevel loss : Rat) < loss * 2 ^ 53 + 1 :=
    Nat.ceil_lt_add_one (mul_nonneg hzero (by positivity))
  have hceil : loss * 2 ^ 53 ≤ dropLevel loss := Nat.le_ceil _
  have hupper : ((dropLevel loss * 2 ^ 11 - left : Nat) : Rat) ≤ dropLevel loss * 2 ^ 11 := by
    exact_mod_cast Nat.sub_le _ _
  have hlower : (dropLevel loss * 2 ^ 11 : Rat) ≤
      ((dropLevel loss * 2 ^ 11 - left : Nat) : Rat) + 1 := by
    exact_mod_cast (by omega : dropLevel loss * 2 ^ 11 ≤ dropLevel loss * 2 ^ 11 - left + 1)
  generalize ((dropLevel loss * 2 ^ 11 - left : Nat) : Rat) = count at hupper hlower ⊢
  have hwords : (0 : Rat) < 2 ^ 64 - 1 := by norm_num
  rw [abs_lt]
  constructor
  · rw [lt_sub_iff_add_lt, lt_div_iff₀ hwords]
    linarith
  · rw [sub_lt_iff_lt_add, div_lt_iff₀ hwords]
    linarith

/-- For every packet of a run, however late, the seeds that drop it are as many as
the draws below the rate.  A seed taken at random therefore drops each packet with
the rate asked for, brought into `0, ..., 1`, to within `2 ^ -52`. -/
theorem loss_rate_exact (fd : Int) (loss : Rat) (packets : List Bytes) (k : Nat)
    (hk : k < packets.length) :
    (droppingSeeds fd loss packets k).ncard =
        dropLevel (max 0 (min loss 1)) * 2 ^ 11 - (if 0 < loss then 1 else 0) ∧
      |((droppingSeeds fd loss packets k).ncard : Rat) / (2 ^ 64 - 1) -
          max 0 (min loss 1)| < 1 / 2 ^ 52 := by
  have hcount := @ncard_droppingSeeds fd loss _ _ hk
  refine ⟨hcount, ?_⟩
  rw [hcount]
  apply dropLevel_rate (le_max_left _ _) (max_le zero_le_one (min_le_right _ _))
  split <;> omega

/-- A rate of one half drops half of the draws, of which zero is one. -/
theorem loss_rate_exact_half :
    (droppingSeeds 0 (1 / 2) [[], []] 1).ncard = 2 ^ 63 - 1 := by
  have hrate : max 0 (min (1 / 2) 1) = (1 / 2 : Rat) := by norm_num
  have hlevel : dropLevel (1 / 2) = 2 ^ 52 := by
    rw [dropLevel, show (1 / 2 : Rat) * 2 ^ 53 = ((2 ^ 52 : Nat) : Rat) by norm_num,
      Nat.ceil_natCast]
  have hexact := (loss_rate_exact 0 (1 / 2) [[], []] 1 (by decide)).1
  rw [hrate, hlevel] at hexact
  simpa using hexact

end Wire
end PeerShare
