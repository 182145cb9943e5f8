import PeerShare.Foundation.XorShift
import PeerShare.Wire.LossyUdp

/-!
# The generator behind the lossy link

`xs64` combines the state with three shifts of itself, so it loses nothing: the
only state that leads to zero is zero.  `lossy_init` never stores zero, and no
number of calls of `lossy_send` gets there.  From zero there would be no way out:
it is the one state that `xs64` does not move, every number drawn from it is zero,
and every packet is dropped.
-/

namespace PeerShare
namespace Wire

open Foundation

/-- `lossy_send` on each packet in turn: the link afterwards and what has left. -/
def lossySends : LossyLink → List Bytes → LossyLink × List (Option Bytes)
  | link, [] => (link, [])
  | link, packet :: rest =>
      let (next, left) := lossySend link packet
      let (last, later) := lossySends next rest
      (last, left :: later)

/-! ## The three steps -/

/-- The three assignments to `x`, on bits. -/
theorem toBitVec_xs64 (state : UInt64) :
    (xs64 state).1.toBitVec =
      let x := state.toBitVec ^^^ (state.toBitVec >>> 12)
      let y := x ^^^ (x <<< 25)
      y ^^^ (y >>> 27) := rfl

theorem xs64_injective : Function.Injective fun state => (xs64 state).1 := by
  intro state other hsame
  have hwords := congrArg UInt64.toBitVec hsame
  simp only [toBitVec_xs64] at hwords
  -- the last step is undone first
  have hlast := xor_ushiftRight_injective (by norm_num) hwords
  have hmiddle := xor_shiftLeft_injective (by norm_num) hlast
  have hfirst := xor_ushiftRight_injective (by norm_num) hmiddle
  exact UInt64.toBitVec_inj.mp hfirst

theorem xs64_zero : xs64 0 = (0, 0) := rfl

/-- No other state leads to zero. -/
theorem xs64_state_eq_zero_iff (state : UInt64) : (xs64 state).1 = 0 ↔ state = 0 := by
  constructor
  · intro hzero
    exact xs64_injective (hzero.trans (congrArg Prod.fst xs64_zero).symm)
  · rintro rfl
    rfl

/-- The multiplier is odd, so a draw is zero only where the state is. -/
theorem xs64_draw_eq_zero_iff (state : UInt64) : (xs64 state).2 = 0 ↔ state = 0 := by
  have hinverse : (2685821657736338717 : UInt64) * 6415128727920758069 = 1 := by decide
  rw [← xs64_state_eq_zero_iff state]
  show (xs64 state).1 * 2685821657736338717 = 0 ↔ _
  constructor
  · intro hdraw
    have hback := congrArg (· * (6415128727920758069 : UInt64)) hdraw
    simp only [UInt64.mul_assoc, hinverse, UInt64.mul_one, UInt64.zero_mul] at hback
    exact hback
  · intro hzero
    rw [hzero, UInt64.zero_mul]

/-! ## The one state that is not moved -/

/-- The bits of the word between the second and the third step of a state that
`xs64` does not move.  Every bit is tied to bits above it, in two ways where the
ranges overlap. -/
structure UnmovedBits (bit : Nat → Bool) : Prop where
  above : ∀ k, 64 ≤ k → bit k = false
  middle : ∀ k, 12 ≤ k → k < 37 → bit k = (bit (k + 15) ^^ bit (k + 27))
  low : ∀ k, k < 25 → bit k = (bit (k + 37) ^^ bit (k + 52))
  high : ∀ k, 25 ≤ k → k < 39 → bit k = (bit (k + 12) ^^ bit (k + 27) ^^ bit (k + 37))

namespace UnmovedBits

variable {bit : Nat → Bool}

/-- Both descriptions of the bits `25, ..., 36`. -/
theorem step_three (h : UnmovedBits bit) {k : Nat} (hlow : 37 ≤ k) (hhigh : k < 49) :
    bit (k + 3) = (bit k ^^ bit (k + 25)) := by
  obtain ⟨j, rfl⟩ : ∃ j, k = j + 12 := ⟨k - 12, by omega⟩
  have hmiddle := h.middle j (by omega) (by omega)
  have hboth := h.high j (by omega) (by omega)
  rw [hmiddle, Bool.xor_assoc, Bool.xor_comm (bit (j + 27)), ← Bool.xor_assoc] at hboth
  exact Bool.xor_left_inj.mp hboth

/-- The two highest bits. -/
theorem top (h : UnmovedBits bit) : bit 62 = false ∧ bit 63 = false := by
  -- going up in steps of three, the bits 40 and 41 come back as the bits 37 and 38
  have hperiod : ∀ k, 39 ≤ k → k < 49 → bit (k + 3) = bit k := by
    intro k hlow hhigh
    rw [h.step_three (by omega) hhigh, h.above (k + 25) (by omega), Bool.xor_false]
  have hfirst : bit 37 = bit 49 := by
    rw [h.high 37 (by norm_num) (by norm_num), h.above 64 le_rfl, h.above 74 (by norm_num),
      Bool.xor_false, Bool.xor_false]
  have hsecond : bit 38 = bit 50 := by
    rw [h.high 38 (by norm_num) (by norm_num), h.above 65 (by norm_num),
      h.above 75 (by norm_num), Bool.xor_false, Bool.xor_false]
  have hfortieth : bit 40 = bit 37 := by
    rw [hfirst, hperiod 46 (by norm_num) (by norm_num), hperiod 43 (by norm_num) (by norm_num),
      hperiod 40 (by norm_num) (by norm_num)]
  have hnext : bit 41 = bit 38 := by
    rw [hsecond, hperiod 47 (by norm_num) (by norm_num), hperiod 44 (by norm_num) (by norm_num),
      hperiod 41 (by norm_num) (by norm_num)]
  constructor
  · rw [h.step_three (k := 37) le_rfl (by norm_num)] at hfortieth
    exact Bool.xor_right_inj.mp (hfortieth.trans (Bool.xor_false _).symm)
  · rw [h.step_three (k := 38) (by norm_num) (by norm_num)] at hnext
    exact Bool.xor_right_inj.mp (hnext.trans (Bool.xor_false _).symm)

/-- The bits `37, ..., 51` repeat after three places. -/
theorem period_three (h : UnmovedBits bit) {k : Nat} (hlow : 37 ≤ k) (hhigh : k < 49) :
    bit (k + 3) = bit k := by
  have hgone : bit (k + 25) = false := by
    by_cases hfirst : k = 37
    · rw [hfirst]
      exact h.top.1
    by_cases hsecond : k = 38
    · rw [hsecond]
      exact h.top.2
    · exact h.above (k + 25) (by omega)
  rw [h.step_three hlow hhigh, hgone, Bool.xor_false]

/-- Both descriptions of the bits `12, ..., 24`. -/
theorem step_twelve (h : UnmovedBits bit) {k : Nat} (hlow : 27 ≤ k) (hhigh : k < 40) :
    (bit k ^^ bit (k + 12)) = bit (k + 22) := by
  obtain ⟨j, rfl⟩ : ∃ j, k = j + 15 := ⟨k - 15, by omega⟩
  have hmiddle := h.middle j (by omega) (by omega)
  have hboth := h.low j (by omega)
  rw [hmiddle, h.above (j + 52) (by omega), Bool.xor_false] at hboth
  exact hboth

/-- The bits `49, ..., 63` repeat after five places. -/
theorem period_five (h : UnmovedBits bit) {k : Nat} (hlow : 49 ≤ k) (hhigh : k < 59) :
    bit (k + 5) = bit k := by
  obtain ⟨j, rfl⟩ : ∃ j, k = j + 22 := ⟨k - 22, by omega⟩
  have hmiddle := h.middle j (by omega) (by omega)
  have htwelve := h.step_twelve (k := j) (by omega) (by omega)
  have hthree := h.period_three (k := j + 12) (by omega) (by omega)
  rw [hmiddle, hthree, Bool.xor_comm (bit (j + 12)), Bool.xor_assoc, Bool.xor_self,
    Bool.xor_false] at htwelve
  exact htwelve

/-- The bits `49, 50, 51`, from which the two periods reach the others. -/
theorem seed (h : UnmovedBits bit) {k : Nat} (hlow : 37 ≤ k) (hhigh : k < 40) :
    bit (k + 12) = false := by
  have hthree : bit (k + 12) = bit k := by
    rw [h.period_three (k := k + 9) (by omega) (by omega),
      h.period_three (k := k + 6) (by omega) (by omega),
      h.period_three (k := k + 3) (by omega) (by omega), h.period_three hlow (by omega)]
  have htwelve := h.step_twelve (k := k) (by omega) hhigh
  rw [hthree, Bool.xor_self, h.period_five (k := k + 17) (by omega) (by omega),
    h.period_five (k := k + 12) (by omega) (by omega)] at htwelve
  exact htwelve.symm

/-- From its top down to bit 37 the word is zero. -/
theorem upper (h : UnmovedBits bit) {k : Nat} (hlow : 37 ≤ k) : bit k = false := by
  have hdown : ∀ n, n < 59 → 49 ≤ n → bit (n + 5) = false → bit n = false := by
    intro n hn hn' hfive
    rw [← h.period_five hn' hn]
    exact hfive
  have hup : ∀ n, n < 59 → 49 ≤ n → bit n = false → bit (n + 5) = false := by
    intro n hn hn' hnone
    rw [h.period_five hn' hn]
    exact hnone
  have hfive : ∀ n, 49 ≤ n → n < 64 → bit n = false := by
    obtain ⟨hpenultimate, hlast⟩ := h.top
    have h49 := h.seed (k := 37) (by norm_num) (by norm_num)
    have h50 := h.seed (k := 38) (by norm_num) (by norm_num)
    have h51 := h.seed (k := 39) (by norm_num) (by norm_num)
    have h57 := hdown 57 (by norm_num) (by norm_num) hpenultimate
    have h58 := hdown 58 (by norm_num) (by norm_num) hlast
    have h52 := hdown 52 (by norm_num) (by norm_num) h57
    have h53 := hdown 53 (by norm_num) (by norm_num) h58
    have h54 := hup 49 (by norm_num) (by norm_num) h49
    have h55 := hup 50 (by norm_num) (by norm_num) h50
    have h56 := hup 51 (by norm_num) (by norm_num) h51
    have h59 := hup 54 (by norm_num) (by norm_num) h54
    have h60 := hup 55 (by norm_num) (by norm_num) h55
    have h61 := hup 56 (by norm_num) (by norm_num) h56
    intro n hn hn'
    interval_cases n <;> assumption
  by_cases hbeyond : 64 ≤ k
  · exact h.above k hbeyond
  -- below 49 in steps of three
  induction hdistance : 64 - k using Nat.strong_induction_on generalizing k with
  | _ distance ih =>
      by_cases hthree : k < 49
      · rw [← h.period_three hlow hthree]
        exact ih (64 - (k + 3)) (by omega) (by omega) (by omega) rfl
      · exact hfive k (by omega) (by omega)

theorem eq_false (h : UnmovedBits bit) (k : Nat) : bit k = false := by
  have hmiddle : ∀ n, 22 ≤ n → n < 37 → bit n = false := by
    intro n hn hn'
    rw [h.middle n (by omega) hn', h.upper (by omega), h.upper (by omega), Bool.xor_self]
  by_cases hupper : 37 ≤ k
  · exact h.upper hupper
  by_cases hsecond : 22 ≤ k
  · exact hmiddle k hsecond (by omega)
  by_cases hthird : 12 ≤ k
  · rw [h.middle k hthird (by omega), hmiddle (k + 15) (by omega) (by omega),
      h.upper (by omega), Bool.xor_self]
  · rw [h.low k (by omega), h.upper (by omega), h.upper (by omega), Bool.xor_self]

end UnmovedBits

/-- Solving an equation between bits for one of them. -/
theorem xor_solve_middle : ∀ {p a b c : Bool}, p = ((p ^^ b) ^^ (a ^^ c)) → a = (b ^^ c) := by
  decide

theorem xor_solve_low : ∀ {p s t a b c d : Bool},
    p = (((p ^^ s) ^^ (t ^^ false)) ^^ ((a ^^ b) ^^ (c ^^ d))) → c = (b ^^ d) →
      a = (t ^^ s) := by
  decide

theorem xor_solve_high : ∀ {p t a b c : Bool},
    p = (((p ^^ false) ^^ (t ^^ false)) ^^ ((a ^^ b) ^^ (c ^^ false))) →
      a = (c ^^ b ^^ t) := by
  decide

/-- The steps of `xs64`, bit by bit, where the last one leads back to the state. -/
theorem unmovedBits_of_fixed {x y z : BitVec 64} (hy : y = x ^^^ (x >>> 12))
    (hz : z = y ^^^ (y <<< 25)) (hx : x = z ^^^ (z >>> 27)) :
    UnmovedBits fun k => z.getLsbD k := by
  have habove : ∀ k, 64 ≤ k → z.getLsbD k = false := fun k hk => BitVec.getLsbD_of_ge z k hk
  have hybit : ∀ k, y.getLsbD k =
      ((z.getLsbD k ^^ z.getLsbD (k + 27)) ^^ (z.getLsbD (k + 12) ^^ z.getLsbD (k + 39))) := by
    intro k
    have hfar : 27 + (k + 12) = k + 39 := by omega
    rw [hy, hx]
    simp only [BitVec.getLsbD_xor, BitVec.getLsbD_ushiftRight, hfar, Nat.add_comm 27 k,
      Nat.add_comm 12 k]
  have hlower : ∀ k, k < 25 → z.getLsbD k = y.getLsbD k := by
    intro k hk
    have hbit := congrArg (fun word => word.getLsbD k) hz
    simp only [BitVec.getLsbD_xor, BitVec.getLsbD_shiftLeft, hk, decide_true, Bool.not_true,
      Bool.and_false, Bool.false_and, Bool.xor_false] at hbit
    exact hbit
  have hupper : ∀ k, k < 39 → z.getLsbD (k + 25) = (y.getLsbD (k + 25) ^^ y.getLsbD k) := by
    intro k hk
    have hbit := congrArg (fun word => word.getLsbD (k + 25)) hz
    have hinside : k + 25 < 64 := by omega
    have hshifted : ¬ k + 25 < 25 := by omega
    simp only [BitVec.getLsbD_xor, BitVec.getLsbD_shiftLeft, hinside, hshifted, decide_true,
      decide_false, Bool.not_false, Bool.true_and, Nat.add_sub_cancel] at hbit
    exact hbit
  have hmiddle : ∀ k, k < 25 →
      z.getLsbD (k + 12) = (z.getLsbD (k + 27) ^^ z.getLsbD (k + 39)) := by
    intro k hk
    exact xor_solve_middle ((hlower k hk).trans (hybit k))
  refine ⟨habove, ?_, ?_, ?_⟩
  · intro k hlow hhigh
    obtain ⟨j, rfl⟩ : ∃ j, k = j + 12 := ⟨k - 12, by omega⟩
    exact hmiddle j (by omega)
  · intro k hk
    have hbit := hupper k (by omega)
    rw [hybit, hybit, habove (k + 25 + 39) (by omega)] at hbit
    exact xor_solve_low hbit (hmiddle k hk)
  · intro k hlow hhigh
    have hbit := hupper k hhigh
    rw [hybit, hybit, habove (k + 25 + 39) (by omega), habove (k + 25 + 27) (by omega),
      habove (k + 39) (by omega)] at hbit
    exact xor_solve_high hbit

/-- A word that the three steps lead back to. -/
theorem eq_zero_of_fixed {x y z : BitVec 64} (hy : y = x ^^^ (x >>> 12))
    (hz : z = y ^^^ (y <<< 25)) (hx : x = z ^^^ (z >>> 27)) : x = 0#64 := by
  have hnone : z = 0#64 := by
    apply BitVec.eq_of_getLsbD_eq
    intro k _
    rw [(unmovedBits_of_fixed hy hz hx).eq_false k, BitVec.getLsbD_zero]
  rw [hx, hnone]
  rfl

theorem xs64_fixed_iff (state : UInt64) : (xs64 state).1 = state ↔ state = 0 := by
  constructor
  · intro hfixed
    have hword := congrArg UInt64.toBitVec hfixed
    rw [toBitVec_xs64] at hword
    exact UInt64.toBitVec_inj.mp (eq_zero_of_fixed rfl rfl hword.symm)
  · rintro rfl
    rfl

/-! ## Runs of the link -/

theorem lossyInit_rng_ne_zero (fd : Int) (loss : Rat) (seed : UInt64) :
    (lossyInit fd loss seed).rng ≠ 0 := by
  show (if seed ≠ 0 then seed else 88172645463393265) ≠ 0
  split
  · next hseed => exact hseed
  · decide

/-- One call: the generator moves on, and what it has drawn decides about the packet. -/
theorem lossySend_eq (link : LossyLink) (packet : Bytes) :
    lossySend link packet = ({ link with rng := (xs64 link.rng).1 },
      if (((xs64 link.rng).2 >>> 11).toNat : Rat) / 2 ^ 53 < link.loss then none
      else some packet) := rfl

theorem lossySends_rng_ne_zero {link : LossyLink} (hrng : link.rng ≠ 0)
    (packets : List Bytes) : (lossySends link packets).1.rng ≠ 0 := by
  induction packets generalizing link with
  | nil => exact hrng
  | cons packet rest ih =>
      show (lossySends (lossySend link packet).1 rest).1.rng ≠ 0
      apply ih
      rw [lossySend_eq]
      exact (xs64_state_eq_zero_iff link.rng).not.mpr hrng

/-- A collapsed generator stays where it is and draws zero. -/
theorem lossySend_of_zero {link : LossyLink} (hrng : link.rng = 0) (hloss : 0 < link.loss)
    (packet : Bytes) : lossySend link packet = (link, none) := by
  have hdraw : (((0 : UInt64) >>> 11).toNat : Rat) / 2 ^ 53 < link.loss := by
    simpa using hloss
  rw [lossySend_eq, hrng, xs64_zero, if_pos hdraw, ← hrng]

theorem lossySends_of_zero {link : LossyLink} (hrng : link.rng = 0) (hloss : 0 < link.loss)
    (packets : List Bytes) :
    lossySends link packets = (link, List.replicate packets.length none) := by
  induction packets with
  | nil => rfl
  | cons packet rest ih =>
      simp only [lossySends, lossySend_of_zero hrng hloss, ih]
      rfl

/-- The update of the state is injective, so no seed and no number of packets leads
to the state zero.  That is the one state `xs64` does not move and the one state it
draws zero from; a link in it would drop every packet. -/
theorem loss_generator_never_collapses :
    (Function.Injective fun state => (xs64 state).1) ∧
      (∀ (fd : Int) (loss : Rat) (seed : UInt64) (packets : List Bytes),
        (lossySends (lossyInit fd loss seed) packets).1.rng ≠ 0) ∧
      (∀ state, (xs64 state).1 = state ↔ state = 0) ∧
      (∀ state, (xs64 state).2 = 0 ↔ state = 0) ∧
      ∀ link : LossyLink, link.rng = 0 → 0 < link.loss → ∀ packets,
        lossySends link packets = (link, List.replicate packets.length none) := by
  refine ⟨xs64_injective, ?_, xs64_fixed_iff, xs64_draw_eq_zero_iff, ?_⟩
  · intro fd loss seed packets
    exact lossySends_rng_ne_zero (lossyInit_rng_ne_zero fd loss seed) packets
  · intro link hrng hloss packets
    exact lossySends_of_zero hrng hloss packets

end Wire
end PeerShare
