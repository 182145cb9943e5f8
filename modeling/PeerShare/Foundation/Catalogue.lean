import PeerShare.Foundation.LabelledRun

/-!
# A catalogue of published items

Members join under numbers of their own and are reached at a place.  They publish
items, again under numbers, and when a member leaves its items leave with it.  Who
looks for a number is told the item and where its publisher is reached.

A catalogue is a pair of partial functions and two counters.  Nothing is said about how
it is stored; the only limit is how many items it may hold.
-/

namespace PeerShare
namespace Foundation

variable {Place Item : Type}

structure Catalogue (Place Item : Type) where
  /-- Where a member is reached. -/
  place : Nat → Option Place
  /-- The publisher of an item, and the item. -/
  entry : Nat → Option (Nat × Item)
  nextMember : Nat
  nextEntry : Nat

/-- What is asked of a catalogue; `idle` is nothing. -/
inductive CatalogueRequest (Place Item : Type) where
  | idle
  | join (place : Place)
  | publish (member : Nat) (item : Item)
  | browse
  | find (number : Nat)
  | leave (member : Nat)

inductive CatalogueAnswer (Place Item : Type) where
  | silent
  | joined (member : Nat)
  | published (number : Nat)
  | refused
  | listing (entries : Nat → Option (Nat × Item))
  | found (place : Place) (item : Item)
  | unknown

namespace Catalogue

/-- The numbers of the published items. -/
def numbers (catalogue : Catalogue Place Item) : Set Nat :=
  {number | (catalogue.entry number).isSome}

/-- Nobody has joined yet. -/
def empty : Catalogue Place Item where
  place := fun _ => none
  entry := fun _ => none
  nextMember := 1
  nextEntry := 1

def joined (catalogue : Catalogue Place Item) (place : Place) : Catalogue Place Item :=
  { catalogue with
    place := Function.update catalogue.place catalogue.nextMember (some place)
    nextMember := catalogue.nextMember + 1 }

def published (catalogue : Catalogue Place Item) (member : Nat) (item : Item) :
    Catalogue Place Item :=
  { catalogue with
    entry := Function.update catalogue.entry catalogue.nextEntry (some (member, item))
    nextEntry := catalogue.nextEntry + 1 }

def left (catalogue : Catalogue Place Item) (member : Nat) : Catalogue Place Item :=
  { catalogue with
    place := Function.update catalogue.place member none
    entry := fun number => (catalogue.entry number).filter fun entry => entry.1 ≠ member }

@[simp] theorem joined_place (c : Catalogue Place Item) (place : Place) :
    (c.joined place).place = Function.update c.place c.nextMember (some place) := rfl

@[simp] theorem published_entry (c : Catalogue Place Item) (member : Nat) (item : Item) :
    (c.published member item).entry =
      Function.update c.entry c.nextEntry (some (member, item)) := rfl

@[simp] theorem left_place (c : Catalogue Place Item) (member : Nat) :
    (c.left member).place = Function.update c.place member none := rfl

/-- A request with its answer.  An item is refused only when the catalogue is full. -/
inductive Step (capacity : Nat) : Catalogue Place Item →
    CatalogueRequest Place Item × CatalogueAnswer Place Item → Catalogue Place Item → Prop
  | idle (c : Catalogue Place Item) : Step capacity c (.idle, .silent) c
  | join (c : Catalogue Place Item) (place : Place) :
      Step capacity c (.join place, .joined c.nextMember) (c.joined place)
  | publish (c : Catalogue Place Item) {member : Nat} (item : Item)
      (hmember : (c.place member).isSome) (hroom : c.numbers.ncard < capacity) :
      Step capacity c (.publish member item, .published c.nextEntry) (c.published member item)
  | refuse (c : Catalogue Place Item) (member : Nat) (item : Item)
      (hfull : c.numbers.ncard = capacity) :
      Step capacity c (.publish member item, .refused) c
  | browse (c : Catalogue Place Item) : Step capacity c (.browse, .listing c.entry) c
  | find (c : Catalogue Place Item) {number publisher : Nat} {place : Place} {item : Item}
      (hentry : c.entry number = some (publisher, item)) (hplace : c.place publisher = some place) :
      Step capacity c (.find number, .found place item) c
  | miss (c : Catalogue Place Item) {number : Nat} (hentry : c.entry number = none) :
      Step capacity c (.find number, .unknown) c
  | leave (c : Catalogue Place Item) {member : Nat} (hmember : (c.place member).isSome) :
      Step capacity c (.leave member, .silent) (c.left member)

/-- Every item has a publisher that can be reached, and no number is ahead of its
counter. -/
structure Consistent (capacity : Nat) (c : Catalogue Place Item) : Prop where
  reachable : ∀ number publisher item, c.entry number = some (publisher, item) →
    (c.place publisher).isSome
  member_lt : ∀ member, (c.place member).isSome → member < c.nextMember
  number_lt : ∀ number, (c.entry number).isSome → number < c.nextEntry
  capacity_le : c.numbers.ncard ≤ capacity

section Runs

variable {capacity : Nat} {c c' : Catalogue Place Item}
  {label : CatalogueRequest Place Item × CatalogueAnswer Place Item}

/-- The entries that are left when a member leaves. -/
theorem left_entry_eq_some {member number : Nat} {entry : Nat × Item} :
    (c.left member).entry number = some entry ↔
      c.entry number = some entry ∧ entry.1 ≠ member := by
  simp [left, Option.filter_eq_some_iff]

theorem numbers_finite (hbound : ∀ number, (c.entry number).isSome → number < c.nextEntry) :
    c.numbers.Finite :=
  (Set.finite_Iio c.nextEntry).subset hbound

theorem consistent_empty (capacity : Nat) : Consistent capacity (empty : Catalogue Place Item) where
  reachable := fun _ _ _ hentry => absurd hentry (by simp [empty])
  member_lt := fun _ hmember => absurd hmember (by simp [empty])
  number_lt := fun _ hentry => absurd hentry (by simp [empty])
  capacity_le := by
    have hnone : (empty : Catalogue Place Item).numbers = ∅ := by
      ext number
      simp [numbers, empty]
    rw [hnone, Set.ncard_empty]
    exact Nat.zero_le _

theorem Consistent.joined (h : Consistent capacity c) (place : Place) :
    Consistent capacity (c.joined place) where
  reachable := by
    intro number publisher item hentry
    have hold := h.reachable number publisher item hentry
    have hne : publisher ≠ c.nextMember := (h.member_lt publisher hold).ne
    rwa [joined_place, Function.update_of_ne hne]
  member_lt := by
    intro member hmember
    by_cases heq : member = c.nextMember
    · rw [heq]
      exact Nat.lt_succ_self _
    · rw [joined_place, Function.update_of_ne heq] at hmember
      exact Nat.lt_succ_of_lt (h.member_lt member hmember)
  number_lt := h.number_lt
  capacity_le := h.capacity_le

theorem Consistent.published (h : Consistent capacity c) {member : Nat} (item : Item)
    (hmember : (c.place member).isSome) (hroom : c.numbers.ncard < capacity) :
    Consistent capacity (c.published member item) where
  reachable := by
    intro number publisher other hentry
    by_cases heq : number = c.nextEntry
    · rw [heq, published_entry, Function.update_self] at hentry
      cases hentry
      exact hmember
    · rw [published_entry, Function.update_of_ne heq] at hentry
      exact h.reachable number publisher other hentry
  member_lt := h.member_lt
  number_lt := by
    intro number hentry
    by_cases heq : number = c.nextEntry
    · rw [heq]
      exact Nat.lt_succ_self _
    · rw [published_entry, Function.update_of_ne heq] at hentry
      exact Nat.lt_succ_of_lt (h.number_lt number hentry)
  capacity_le := by
    have hsub : (c.published member item).numbers ⊆ insert c.nextEntry c.numbers := by
      intro number hnumber
      by_cases heq : number = c.nextEntry
      · exact .inl heq
      · right
        simpa [numbers, Function.update_of_ne heq] using hnumber
    have hfinite : (insert c.nextEntry c.numbers).Finite := (numbers_finite h.number_lt).insert _
    calc (c.published member item).numbers.ncard
        ≤ (insert c.nextEntry c.numbers).ncard := Set.ncard_le_ncard hsub hfinite
      _ ≤ c.numbers.ncard + 1 := Set.ncard_insert_le _ _
      _ ≤ capacity := hroom

theorem Consistent.left (h : Consistent capacity c) (member : Nat) :
    Consistent capacity (c.left member) where
  reachable := by
    intro number publisher item hentry
    obtain ⟨hold, hne⟩ := left_entry_eq_some.mp hentry
    rw [left_place, Function.update_of_ne hne]
    exact h.reachable number publisher item hold
  member_lt := by
    intro other hother
    by_cases heq : other = member
    · rw [heq, left_place, Function.update_self] at hother
      cases hother
    · rw [left_place, Function.update_of_ne heq] at hother
      exact h.member_lt other hother
  number_lt := by
    intro number hentry
    obtain ⟨entry, hsome⟩ := Option.isSome_iff_exists.mp hentry
    rw [left_entry_eq_some] at hsome
    exact h.number_lt number (by rw [hsome.1]; rfl)
  capacity_le := by
    have hsub : (c.left member).numbers ⊆ c.numbers := by
      intro number hentry
      obtain ⟨entry, hsome⟩ := Option.isSome_iff_exists.mp hentry
      rw [left_entry_eq_some] at hsome
      show (c.entry number).isSome
      rw [hsome.1]
      rfl
    exact (Set.ncard_le_ncard hsub (numbers_finite h.number_lt)).trans h.capacity_le

theorem Consistent.step (h : Consistent capacity c) (hstep : Step capacity c label c') :
    Consistent capacity c' := by
  cases hstep with
  | join place => exact h.joined place
  | publish item hmember hroom => exact h.published item hmember hroom
  | leave => exact h.left _
  | _ => exact h

/-- The runs of a catalogue. -/
theorem consistent_run {labels : List (CatalogueRequest Place Item × CatalogueAnswer Place Item)}
    (hrun : Run (Step capacity) empty labels c) : Consistent capacity c :=
  hrun.invariant (fun _ _ _ h hstep => h.step hstep) (consistent_empty capacity)

end Runs
end Catalogue
end Foundation
end PeerShare
