import Mathlib.Tactic

/-!
# Runs of a labelled transition relation

A run records the labels it went through.  Safety results use `Run.invariant`
only: a predicate kept by every step is kept by every run.  Results about
continuations use that runs compose.
-/

namespace PeerShare
namespace Foundation

/-- `Run step s labels t`: from `s` the steps labelled `labels` lead to `t`. -/
inductive Run {σ α : Type} (step : σ → α → σ → Prop) : σ → List α → σ → Prop
  | nil (s : σ) : Run step s [] s
  | snoc {s t u : σ} {labels : List α} {label : α}
      (hrun : Run step s labels t) (hstep : step t label u) :
      Run step s (labels ++ [label]) u

namespace Run

variable {σ α : Type} {step : σ → α → σ → Prop}

theorem single {s t : σ} {label : α} (hstep : step s label t) :
    Run step s [label] t :=
  Run.snoc (Run.nil s) hstep

theorem append {s t u : σ} {first second : List α}
    (hfirst : Run step s first t) (hsecond : Run step t second u) :
    Run step s (first ++ second) u := by
  induction hsecond with
  | nil => simpa using hfirst
  | snoc _ hstep ih =>
      rw [← List.append_assoc]
      exact Run.snoc ih hstep

/-- What every step keeps, every run keeps. -/
theorem invariant {P : σ → Prop} (hkeep : ∀ s label t, P s → step s label t → P t)
    {s t : σ} {labels : List α} (hrun : Run step s labels t) (hstart : P s) :
    P t := by
  induction hrun with
  | nil => exact hstart
  | snoc _ hstep ih => exact hkeep _ _ _ ih hstep

/-- The same for a predicate that is kept only inside a region which runs cannot
enter from outside, such as a bound on a counter. -/
theorem invariant_within {P Q : σ → Prop} (hback : ∀ s label t, step s label t → Q t → Q s)
    (hkeep : ∀ s label t, P s → step s label t → Q t → P t)
    {s t : σ} {labels : List α} (hrun : Run step s labels t) (hstart : P s) (hwithin : Q t) :
    P t := by
  induction hrun with
  | nil => exact hstart
  | snoc _ hstep ih => exact hkeep _ _ _ (ih (hback _ _ _ hstep hwithin)) hstep hwithin

/-- The start of a run lies in such a region if its end does. -/
theorem within_start {Q : σ → Prop} (hback : ∀ s label t, step s label t → Q t → Q s)
    {s t : σ} {labels : List α} (hrun : Run step s labels t) (hwithin : Q t) : Q s := by
  induction hrun with
  | nil => exact hwithin
  | snoc _ hstep ih => exact ih (hback _ _ _ hstep hwithin)

/-- A run of a restricted relation is a run of the relation. -/
theorem mono {step' : σ → α → σ → Prop}
    (himp : ∀ s label t, step s label t → step' s label t)
    {s t : σ} {labels : List α} (hrun : Run step s labels t) :
    Run step' s labels t := by
  induction hrun with
  | nil => exact Run.nil _
  | snoc _ hstep ih => exact Run.snoc ih (himp _ _ _ hstep)

/-- If from every state of an invariant either the goal holds or some run leads
to a state of the invariant with a smaller measure, the goal is reachable. -/
theorem reaches_of_measure {I G : σ → Prop} (measure : σ → Nat)
    (hprogress : ∀ s, I s → G s ∨
      ∃ labels t, Run step s labels t ∧ I t ∧ measure t < measure s)
    {s : σ} (hs : I s) : ∃ labels t, Run step s labels t ∧ I t ∧ G t := by
  induction hm : measure s using Nat.strong_induction_on generalizing s with
  | _ m ih =>
      rcases hprogress s hs with hgoal | ⟨labels, t, hrun, ht, hlt⟩
      · exact ⟨[], s, Run.nil s, hs, hgoal⟩
      · obtain ⟨labels', u, hrun', hu, hgoal⟩ := ih (measure t) (hm ▸ hlt) ht rfl
        exact ⟨labels ++ labels', u, hrun.append hrun', hu, hgoal⟩

theorem eq_of_nil {s t : σ} (hrun : Run step s [] t) : s = t := by
  generalize hall : ([] : List α) = all at hrun
  cases hrun with
  | nil => rfl
  | snoc => exact absurd hall (by simp)

/-- The last step of a run. -/
theorem last {s u : σ} {labels : List α} {label : α} (hrun : Run step s (labels ++ [label]) u) :
    ∃ t, Run step s labels t ∧ step t label u := by
  generalize hall : labels ++ [label] = all at hrun
  cases hrun with
  | nil => exact absurd hall (by simp)
  | @snoc t _ before final hbefore hstep =>
      obtain ⟨rfl, hlabel⟩ := List.append_inj' hall rfl
      obtain rfl := List.singleton_inj.mp hlabel
      exact ⟨t, hbefore, hstep⟩

/-- Two relations with the same steps, seen through maps of the states and the labels, have
the same runs. -/
theorem map_iff {τ β : Type} {step' : τ → β → τ → Prop} (view : σ → τ) (name : α → β)
    (hforth : ∀ s label t, step s label t → step' (view s) (name label) (view t))
    (hback : ∀ s label t', step' (view s) (name label) t' → ∃ t, step s label t ∧ view t = t')
    {s : σ} {labels : List α} {t' : τ} :
    (∃ t, Run step s labels t ∧ view t = t') ↔ Run step' (view s) (labels.map name) t' := by
  constructor
  · rintro ⟨t, hrun, rfl⟩
    induction hrun with
    | nil => exact nil _
    | snoc _ hstep ih =>
        rw [List.map_append]
        exact snoc ih (hforth _ _ _ hstep)
  · intro hrun
    induction labels using List.reverseRecOn generalizing t' with
    | nil =>
        exact ⟨s, nil s, hrun.eq_of_nil⟩
    | append_singleton labels label ih =>
        rw [List.map_append] at hrun
        obtain ⟨u', hbefore, hstep⟩ := hrun.last
        obtain ⟨u, hfirst, rfl⟩ := ih hbefore
        obtain ⟨t, hlast, rfl⟩ := hback _ _ _ hstep
        exact ⟨t, snoc hfirst hlast, rfl⟩

/-- A function moves along `labels` and is allowed to at every state on the way. -/
def Allowed (allow : σ → α → Prop) (next : σ → α → σ) : σ → List α → Prop
  | _, [] => True
  | s, label :: labels => allow s label ∧ Allowed allow next (next s label) labels

instance {allow : σ → α → Prop} [∀ s label, Decidable (allow s label)] {next : σ → α → σ} :
    (s : σ) → (labels : List α) → Decidable (Allowed allow next s labels)
  | _, [] => isTrue trivial
  | s, label :: labels =>
      have : Decidable (Allowed allow next (next s label) labels) :=
        instDecidableAllowed (next s label) labels
      inferInstanceAs (Decidable (allow s label ∧ Allowed allow next (next s label) labels))

/-- A run whose steps are the moves of a function ends where the function does. -/
theorem eq_foldl {next : σ → α → σ} (hnext : ∀ s label t, step s label t → t = next s label)
    {s t : σ} {labels : List α} (hrun : Run step s labels t) : t = labels.foldl next s := by
  induction hrun with
  | nil => rfl
  | snoc _ hstep ih => rw [List.foldl_concat, ← ih, hnext _ _ _ hstep]

/-- Running a function whose moves are steps. -/
theorem of_allowed {allow : σ → α → Prop} {next : σ → α → σ}
    (hstep : ∀ s label, allow s label → step s label (next s label)) {s : σ} {labels : List α}
    (hallowed : Allowed allow next s labels) : Run step s labels (labels.foldl next s) := by
  induction labels generalizing s with
  | nil => exact Run.nil s
  | cons label labels ih =>
      obtain ⟨hfirst, hrest⟩ := hallowed
      exact (single (hstep s label hfirst)).append (ih hrest)

end Run
end Foundation
end PeerShare
