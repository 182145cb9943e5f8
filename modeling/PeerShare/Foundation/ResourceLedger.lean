import Mathlib.Data.Finset.Basic
import Mathlib.Data.Finset.Insert

/-!
# Acquire, use, release

A program acquires resources, uses them and gives them back.  The ledger follows the
resources it holds through the trace of what it does, and fails at the first misuse: a
resource that is used or released while it is not held, or acquired while it is.

So a trace that the ledger accepts has no double release and no use after a release, and
what the ledger ends with is what the program has not given back.
-/

namespace PeerShare
namespace Foundation

inductive ResourceEvent (R : Type) where
  | acquire (resource : R)
  | use (resource : R)
  | release (resource : R)

namespace Ledger

variable {R : Type} [DecidableEq R]

/-- The resources held after an event, unless it is a misuse. -/
def step (held : Finset R) : ResourceEvent R → Option (Finset R)
  | .acquire resource => if resource ∈ held then none else some (insert resource held)
  | .use resource => if resource ∈ held then some held else none
  | .release resource => if resource ∈ held then some (held.erase resource) else none

/-- The resources held after a trace, unless there was a misuse. -/
def after (held : Finset R) : List (ResourceEvent R) → Option (Finset R)
  | [] => some held
  | event :: events => (step held event).bind fun next => after next events

variable {held held' : Finset R} {resource : R} {events first second : List (ResourceEvent R)}

@[simp] theorem after_nil : after held [] = some held := rfl

theorem after_acquire (hfree : resource ∉ held) :
    after held (.acquire resource :: events) = after (insert resource held) events := by
  simp [after, step, hfree]

theorem after_use (hheld : resource ∈ held) :
    after held (.use resource :: events) = after held events := by
  simp [after, step, hheld]

theorem after_release (hheld : resource ∈ held) :
    after held (.release resource :: events) = after (held.erase resource) events := by
  simp [after, step, hheld]

theorem after_append (hfirst : after held first = some held') :
    after held (first ++ second) = after held' second := by
  induction first generalizing held with
  | nil =>
      cases hfirst
      rfl
  | cons event first ih =>
      rw [after, Option.bind_eq_some_iff] at hfirst
      obtain ⟨next, hnext, hrest⟩ := hfirst
      rw [List.cons_append, after, hnext, Option.bind_some]
      exact ih hrest

/-- Using what is held, any number of times, changes nothing. -/
theorem after_uses (huses : ∀ event ∈ events, ∃ resource ∈ held, event = .use resource) :
    after held events = some held := by
  induction events with
  | nil => rfl
  | cons event events ih =>
      obtain ⟨resource, hheld, rfl⟩ := huses event List.mem_cons_self
      rw [after_use hheld]
      exact ih fun event hevent => huses event (List.mem_cons_of_mem _ hevent)

/-- Giving back distinct resources, one after the other. -/
theorem after_releases {resources : List R} (hdistinct : resources.Nodup)
    (hheld : ∀ resource ∈ resources, resource ∈ held) :
    after held (resources.map .release) = some (held \ resources.toFinset) := by
  induction resources generalizing held with
  | nil => simp
  | cons resource resources ih =>
      obtain ⟨hnew, hrest⟩ := List.nodup_cons.mp hdistinct
      have hothers : ∀ other ∈ resources, other ∈ held.erase resource := by
        intro other hother
        refine Finset.mem_erase.mpr ⟨?_, hheld other (List.mem_cons_of_mem _ hother)⟩
        rintro rfl
        exact hnew hother
      rw [List.map_cons, after_release (hheld resource List.mem_cons_self), ih hrest hothers,
        List.toFinset_cons, Finset.sdiff_insert, Finset.erase_sdiff_comm]

end Ledger
end Foundation
end PeerShare
