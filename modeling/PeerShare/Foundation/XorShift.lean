import Mathlib.Tactic

/-!
# Words combined with their own shifts

A shift keeps exclusive or and loses every bit after enough repetitions.  For such
a map `shift` the word `x ^^^ shift x` determines `x`: two words with the same
image differ by a word that `shift` does not move, and only zero is not moved.
-/

namespace PeerShare
namespace Foundation

variable {width : Nat}

/-- Combining a word with a part of itself that dies out loses nothing. -/
theorem xor_injective_of_iterate_eq_zero {shift : BitVec width → BitVec width}
    (hxor : ∀ x y, shift (x ^^^ y) = shift x ^^^ shift y) (count : Nat)
    (hzero : ∀ x, shift^[count] x = BitVec.ofNat width 0) :
    Function.Injective fun x => x ^^^ shift x := by
  intro x y hsame
  have hfixed : Function.IsFixedPt shift (x ^^^ y) := by
    -- the difference of the images is the difference of the words and its shift
    have hmoved : (x ^^^ y) ^^^ shift (x ^^^ y) = BitVec.ofNat width 0 := by
      calc (x ^^^ y) ^^^ shift (x ^^^ y)
          = (x ^^^ shift x) ^^^ (y ^^^ shift y) := by
            rw [hxor]
            ac_rfl
        _ = BitVec.ofNat width 0 := BitVec.xor_eq_zero_iff.mpr hsame
    exact (BitVec.xor_eq_zero_iff.mp hmoved).symm
  have hnone : x ^^^ y = BitVec.ofNat width 0 := by
    rw [← hzero (x ^^^ y)]
    exact (hfixed.iterate count).symm
  exact BitVec.xor_eq_zero_iff.mp hnone

theorem iterate_ushiftRight (distance count : Nat) (x : BitVec width) :
    (fun word : BitVec width => word >>> distance)^[count] x = x >>> (distance * count) := by
  induction count with
  | zero => simp
  | succ count ih =>
      rw [Function.iterate_succ_apply', ih, Nat.mul_succ, BitVec.shiftRight_add]

theorem iterate_shiftLeft (distance count : Nat) (x : BitVec width) :
    (fun word : BitVec width => word <<< distance)^[count] x = x <<< (distance * count) := by
  induction count with
  | zero => simp
  | succ count ih =>
      rw [Function.iterate_succ_apply', ih, Nat.mul_succ, BitVec.shiftLeft_add]

theorem xor_ushiftRight_injective {distance : Nat} (hpos : 0 < distance) :
    Function.Injective fun x : BitVec width => x ^^^ (x >>> distance) := by
  apply xor_injective_of_iterate_eq_zero _ width
  · intro x
    rw [iterate_ushiftRight]
    exact BitVec.ushiftRight_eq_zero (Nat.le_mul_of_pos_left width hpos)
  · intro x y
    exact BitVec.ushiftRight_xor_distrib x y distance

theorem xor_shiftLeft_injective {distance : Nat} (hpos : 0 < distance) :
    Function.Injective fun x : BitVec width => x ^^^ (x <<< distance) := by
  apply xor_injective_of_iterate_eq_zero _ width
  · intro x
    rw [iterate_shiftLeft]
    exact BitVec.shiftLeft_eq_zero (Nat.le_mul_of_pos_left width hpos)
  · intro x y
    exact BitVec.shiftLeft_xor_distrib x y distance

end Foundation
end PeerShare
