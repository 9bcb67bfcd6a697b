import Mathlib.Data.List.Basic

/-!
# Runs of a machine

A machine makes one step for each input. When every step from a sound state is harmless under a
condition that is known before it, a property of states that follows from soundness holds along a
whole run exactly when all its steps meet the condition.
-/

namespace Runs

variable {σ α : Type} (step : σ → α → σ)

/-- Every step of the run meets the condition. -/
def AllSteps (keeps : σ → α → Prop) : σ → List α → Prop
  | _, [] => True
  | s, a :: as => keeps s a ∧ AllSteps keeps (step s a) as

variable {step} {keeps : σ → α → Prop} {sound property : σ → Prop}

/-- A property holds in every state of a run exactly when all steps meet the condition. -/
theorem forall_scanl_iff (hsound : ∀ s, sound s → property s)
    (hstep : ∀ s a, sound s → (property (step s a) ↔ keeps s a) ∧
      (property (step s a) → sound (step s a)))
    {s : σ} (h : sound s) (as : List α) :
    (∀ s' ∈ as.scanl step s, property s') ↔ AllSteps step keeps s as := by
  induction as generalizing s with
  | nil => simpa [AllSteps] using hsound s h
  | cons a as ih =>
    rw [List.scanl_cons, List.forall_mem_cons, AllSteps]
    obtain ⟨hiff, hnext⟩ := hstep s a h
    constructor
    · rintro ⟨-, hrest⟩
      have hproperty : property (step s a) := hrest _ (by cases as <;> simp)
      exact ⟨hiff.mp hproperty, (ih (hnext hproperty)).mp hrest⟩
    · rintro ⟨hkeeps, hrest⟩
      exact ⟨hsound s h, (ih (hnext (hiff.mpr hkeeps))).mpr hrest⟩

end Runs
