import PeerShare.Foundation.LabelledRun

/-!
# Simulation

One relation simulates another if every step of the second is matched by a run of the
first, however many steps that takes.  What can be observed of a step is a list, so that
the observations of a run are one list and a matching run has the same one.
-/

namespace PeerShare
namespace Foundation
namespace Run

variable {σ τ α β γ : Type} {step : σ → α → σ → Prop} {step' : τ → β → τ → Prop}

/-- A run is matched by a run, step by step. -/
theorem simulated {R : σ → τ → Prop} (observe : α → List γ) (observe' : β → List γ)
    (hmatch : ∀ s label t u, R s u → step s label t → ∃ labels' v,
      Run step' u labels' v ∧ labels'.flatMap observe' = observe label ∧ R t v)
    {s t : σ} {u : τ} {labels : List α} (hrun : Run step s labels t) (hstart : R s u) :
    ∃ labels' v, Run step' u labels' v ∧
      labels'.flatMap observe' = labels.flatMap observe ∧ R t v := by
  induction hrun with
  | nil => exact ⟨[], u, nil u, rfl, hstart⟩
  | snoc _ hstep ih =>
      obtain ⟨before, v, hbefore, hobserved, hrelated⟩ := ih
      obtain ⟨last, w, hlast, hlabel, hend⟩ := hmatch _ _ _ _ hrelated hstep
      refine ⟨before ++ last, w, hbefore.append hlast, ?_, hend⟩
      rw [List.flatMap_append, List.flatMap_append, hobserved, hlabel, List.flatMap_singleton]

end Run
end Foundation
end PeerShare
