import Mathlib.Tactic

/-!
# A ring of slots under a sliding window

Sequence number `q` lives in slot `q % size`.  Inside one window
`base, ..., base + size - 1` the slots are pairwise different and all of them
are used, so a ring may be read as a function of the sequence numbers of the
current window.  Every fact about reuse of a slot follows from these two.
-/

namespace PeerShare
namespace Foundation

/-- A fixed number of slots, addressed by sequence numbers modulo `size`. -/
def SlotRing (size : Nat) (α : Type) : Type := Fin size → α

namespace SlotRing

instance {size : Nat} {α : Type} [DecidableEq α] : DecidableEq (SlotRing size α) :=
  inferInstanceAs (DecidableEq (Fin size → α))

variable {size : Nat} [NeZero size] {α : Type}

/-- The slot of a sequence number. -/
def index (size : Nat) [NeZero size] (seq : Nat) : Fin size :=
  Fin.ofNat size seq

/-- All slots hold the same value. -/
def filled (value : α) : SlotRing size α := fun _ => value

/-- The content of the slot of `seq`. -/
def read (ring : SlotRing size α) (seq : Nat) : α := ring (index size seq)

/-- Overwrite the slot of `seq`. -/
def write (ring : SlotRing size α) (seq : Nat) (value : α) : SlotRing size α :=
  fun slot => if slot = index size seq then value else ring slot

@[simp] theorem read_filled (value : α) (seq : Nat) :
    (filled value : SlotRing size α).read seq = value := rfl

@[simp] theorem read_write_self (ring : SlotRing size α) (seq : Nat) (value : α) :
    (ring.write seq value).read seq = value := by
  simp [read, write]

theorem read_write_of_index_ne (ring : SlotRing size α) {seq other : Nat}
    (value : α) (hindex : index size other ≠ index size seq) :
    (ring.write seq value).read other = ring.read other := by
  simp [read, write, hindex]

theorem index_eq_iff (seq other : Nat) :
    index size seq = index size other ↔ seq % size = other % size := by
  simp [index, Fin.ext_iff]

/-- Two numbers of one window share a slot only when they are equal. -/
theorem eq_of_index_eq {base seq other : Nat}
    (hseq : base ≤ seq ∧ seq < base + size)
    (hother : base ≤ other ∧ other < base + size)
    (hindex : index size seq = index size other) : seq = other := by
  rw [index_eq_iff] at hindex
  obtain ⟨hlow, hhigh⟩ := hseq
  obtain ⟨hlow', hhigh'⟩ := hother
  have hmod : (seq - base) % size = (other - base) % size := by
    apply Nat.ModEq.add_right_cancel' base
    rw [Nat.sub_add_cancel hlow, Nat.sub_add_cancel hlow']
    exact hindex
  rw [Nat.mod_eq_of_lt (by omega), Nat.mod_eq_of_lt (by omega)] at hmod
  omega

/-- Writing one number of a window leaves the other numbers of it alone. -/
theorem read_write_of_window (ring : SlotRing size α) {base seq other : Nat}
    (value : α) (hseq : base ≤ seq ∧ seq < base + size)
    (hother : base ≤ other ∧ other < base + size) (hne : other ≠ seq) :
    (ring.write seq value).read other = ring.read other := by
  apply read_write_of_index_ne
  intro hindex
  exact hne (eq_of_index_eq hother hseq hindex)

/-- The slot of the number that enters a window is the slot of the number
that leaves it. -/
theorem index_add_size (seq : Nat) :
    index size (seq + size) = index size seq := by
  rw [index_eq_iff, Nat.add_mod_right]

/-- Every slot belongs to exactly one number of the window. -/
theorem exists_seq_of_index (base : Nat) (slot : Fin size) :
    ∃ seq, base ≤ seq ∧ seq < base + size ∧ index size seq = slot := by
  have hsize : 0 < size := Nat.pos_of_ne_zero (NeZero.ne size)
  have hdiv : size * (base / size) + base % size = base := Nat.div_add_mod base size
  have hlt : base % size < size := Nat.mod_lt base hsize
  have hslot : slot.val < size := slot.isLt
  by_cases hle : base % size ≤ slot.val
  · refine ⟨size * (base / size) + slot.val, by omega, by omega, ?_⟩
    apply Fin.ext
    simp [index, Fin.ofNat, Nat.mod_eq_of_lt hslot]
  · refine ⟨size * (base / size) + slot.val + size, by omega, by omega, ?_⟩
    rw [index_add_size]
    apply Fin.ext
    simp [index, Fin.ofNat, Nat.mod_eq_of_lt hslot]

end SlotRing
end Foundation
end PeerShare
