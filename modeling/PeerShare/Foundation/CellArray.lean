import Mathlib.Tactic

/-!
# Arrays in memory

A C array is memory from an address on: a function from indices to cells that
is defined past the end of the array too.  `entries` are the cells in use.
Loops over the memory report the cells they read, so that staying inside the
part in use is a statement about them.
-/

namespace PeerShare
namespace Foundation

variable {α : Type}

/-- The first `count` cells. -/
def entries (cells : Nat → α) (count : Nat) : List α := (List.range count).map cells

@[simp] theorem entries_length (cells : Nat → α) (count : Nat) :
    (entries cells count).length = count := by
  simp [entries]

theorem entries_getElem? (cells : Nat → α) (count k : Nat) :
    (entries cells count)[k]? = if k < count then some (cells k) else none := by
  by_cases hk : k < count
  · simp [entries, hk]
  · simp [entries, hk]

/-- Memory after a loop, and the cells the loop read. -/
structure Walk (α : Type) where
  cells : Nat → α
  read : List Nat

/-- `for (j = from; j < count - 1; j++) cells[j] = cells[j + 1]`. -/
def shiftLoop (count j : Nat) (cells : Nat → α) : Walk α :=
  if j < count - 1 then
    let rest := shiftLoop count (j + 1) (Function.update cells j (cells (j + 1)))
    { rest with read := (j + 1) :: rest.read }
  else
    ⟨cells, []⟩
termination_by count - 1 - j

/-- Every cell from `j` on takes the value of the next one, except the last. -/
theorem shiftLoop_apply (count j : Nat) (cells : Nat → α) (k : Nat) :
    (shiftLoop count j cells).cells k =
      if j ≤ k ∧ k < count - 1 then cells (k + 1) else cells k := by
  induction j, cells using shiftLoop.induct count with
  | case1 j cells hj ih =>
      rw [shiftLoop, if_pos hj]
      simp only [ih]
      -- the cell just written is behind the rest of the loop
      by_cases hk : k = j
      · subst hk
        simp [hj]
      · have hsame : j + 1 ≤ k ∧ k < count - 1 ↔ j ≤ k ∧ k < count - 1 := by omega
        by_cases hinside : j ≤ k ∧ k < count - 1
        · rw [if_pos (hsame.mpr hinside), if_pos hinside,
            Function.update_of_ne (by omega : k + 1 ≠ j)]
        · rw [if_neg (mt hsame.mp hinside), if_neg hinside, Function.update_of_ne hk]
  | case2 j cells hj =>
      rw [shiftLoop, if_neg hj, if_neg (by omega)]

theorem shiftLoop_read_lt (count j : Nat) (cells : Nat → α) :
    ∀ k ∈ (shiftLoop count j cells).read, k < count := by
  induction j, cells using shiftLoop.induct count with
  | case1 j cells hj ih =>
      rw [shiftLoop, if_pos hj]
      intro k hk
      rcases List.mem_cons.mp hk with rfl | hrest
      · omega
      · exact ih k hrest
  | case2 j cells hj =>
      rw [shiftLoop, if_neg hj]
      simp

/-- Shifting the tail down over a cell and shortening the array by one drops the
cell. -/
theorem entries_shiftLoop {count i : Nat} (hi : i < count) (cells : Nat → α) :
    entries (shiftLoop count i cells).cells (count - 1) = (entries cells count).eraseIdx i := by
  apply List.ext_getElem?
  intro k
  rw [List.getElem?_eraseIdx, entries_getElem?, entries_getElem?, entries_getElem?,
    shiftLoop_apply]
  by_cases hk : k < i
  · have hcell : ¬ (i ≤ k ∧ k < count - 1) := by omega
    have hold : k < count := by omega
    have hnew : k < count - 1 := by omega
    rw [if_neg hcell, if_pos hk, if_pos hold, if_pos hnew]
  · rw [if_neg hk]
    by_cases hlast : k < count - 1
    · have hnext : k + 1 < count := by omega
      rw [if_pos hlast, if_pos ⟨not_lt.mp hk, hlast⟩, if_pos hnext]
    · have hnext : ¬ k + 1 < count := by omega
      rw [if_neg hlast, if_neg hnext]

end Foundation
end PeerShare
