import Mathlib.Tactic

/-!
# Tables that are searched from the front

C programs keep their sessions in a fixed array and search it from the front.
`firstSlot` is that search and `slotCount` the number of slots with a property,
together with what overwriting one slot does to the number.  Records in a list
are searched by key; distinct keys make the search exact.
-/

namespace PeerShare
namespace Foundation

variable {size : Nat} {α : Type}

/-- The first slot with a property, as a loop from index 0 finds it. -/
def firstSlot (test : α → Bool) (slots : Fin size → α) : Option (Fin size) :=
  (List.finRange size).find? fun slot => test (slots slot)

theorem firstSlot_eq_some {test : α → Bool} {slots : Fin size → α} {slot : Fin size}
    (hfound : firstSlot test slots = some slot) : test (slots slot) = true :=
  List.find?_some (p := fun slot => test (slots slot)) hfound

/-- The slots in front of the one found do not have the property. -/
theorem firstSlot_before {test : α → Bool} {slots : Fin size → α} {slot : Fin size}
    (hfound : firstSlot test slots = some slot) {earlier : Fin size} (hlt : earlier < slot) :
    test (slots earlier) = false := by
  obtain ⟨-, k, hk, hslot, hbefore⟩ := List.find?_eq_some_iff_getElem.mp hfound
  rw [List.getElem_finRange] at hslot
  have hvalue : slot.val = k := by
    rw [← hslot]
    rfl
  have hearlier := hbefore earlier.val (by omega)
  rw [List.getElem_finRange] at hearlier
  simpa using hearlier

theorem firstSlot_eq_none_iff {test : α → Bool} {slots : Fin size → α} :
    firstSlot test slots = none ↔ ∀ slot, test (slots slot) = false := by
  simp [firstSlot]

/-- A slot that is the only one with the property is the one found. -/
theorem firstSlot_of_unique {test : α → Bool} {slots : Fin size → α} {slot : Fin size}
    (htest : test (slots slot) = true)
    (hunique : ∀ other, test (slots other) = true → other = slot) :
    firstSlot test slots = some slot := by
  cases hfound : firstSlot test slots with
  | none =>
      rw [firstSlot_eq_none_iff] at hfound
      rw [hfound slot] at htest
      cases htest
  | some other => rw [hunique other (firstSlot_eq_some hfound)]

/-- Records that are kept in the order of their keys have distinct keys. -/
theorem nodup_keys_of_increasing {β : Type} [Preorder β] {key : α → β} {records : List α}
    (hincreasing : records.Pairwise fun record later => key record < key later) :
    (records.map key).Nodup := by
  rw [List.nodup_iff_pairwise_ne, List.pairwise_map]
  exact hincreasing.imp fun hlt => hlt.ne

/-- A search by key finds the record it was given the key of. -/
theorem find?_eq_of_nodup_keys {β : Type} [DecidableEq β] {key : α → β} {records : List α}
    (hnodup : (records.map key).Nodup) {record : α} (hmem : record ∈ records) :
    records.find? (fun other => key other = key record) = some record := by
  cases hfound : records.find? (fun other => key other = key record) with
  | none =>
      have hmissing := List.find?_eq_none.mp hfound record hmem
      simp at hmissing
  | some found =>
      have hsame : key found = key record := by
        simpa using List.find?_some hfound
      rw [List.inj_on_of_nodup_map hnodup (List.mem_of_find?_eq_some hfound) hmem hsame]

/-- How many slots have a property. -/
def slotCount (test : α → Bool) (slots : Fin size → α) : Nat :=
  (Finset.univ.filter fun slot => test (slots slot) = true).card

theorem slotCount_eq_sum (test : α → Bool) (slots : Fin size → α) :
    slotCount test slots = ∑ slot, (test (slots slot)).toNat := by
  rw [slotCount, Finset.card_filter]
  refine Finset.sum_congr rfl ?_
  intro slot _
  cases test (slots slot) <;> rfl

/-- Overwriting a slot trades its share of the count for that of the new value. -/
theorem slotCount_update (test : α → Bool) (slots : Fin size → α) (slot : Fin size)
    (value : α) :
    slotCount test (Function.update slots slot value) + (test (slots slot)).toNat =
      slotCount test slots + (test value).toNat := by
  -- the other slots are the same on both sides
  have hrest :
      ∑ other ∈ Finset.univ.erase slot, (test (Function.update slots slot value other)).toNat =
        ∑ other ∈ Finset.univ.erase slot, (test (slots other)).toNat := by
    refine Finset.sum_congr rfl ?_
    intro other hother
    rw [Function.update_of_ne (Finset.ne_of_mem_erase hother)]
  rw [slotCount_eq_sum, slotCount_eq_sum,
    ← Finset.add_sum_erase _ _ (Finset.mem_univ slot),
    ← Finset.add_sum_erase _ (fun other => (test (slots other)).toNat) (Finset.mem_univ slot),
    hrest, Function.update_self]
  omega

end Foundation
end PeerShare
