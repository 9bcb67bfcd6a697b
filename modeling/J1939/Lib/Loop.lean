import Mathlib.Logic.Function.Iterate
import Mathlib.Tactic.Common

/-!
# Loops that may not end

A loop whose body goes on with a new state or ends with a result. It is run for a number of
rounds, and more rounds do not change a result.
-/

namespace Loop

variable {σ ρ : Type} {body : σ → σ ⊕ ρ}

/-- Run the loop for at most so many rounds. -/
def run (body : σ → σ ⊕ ρ) : ℕ → σ → Option ρ
  | 0, _ => none
  | fuel + 1, s =>
    match body s with
    | .inl s' => run body fuel s'
    | .inr r => some r

theorem run_mono {m n : ℕ} {s : σ} {r : ρ} (h : run body m s = some r) (hle : m ≤ n) :
    run body n s = some r := by
  induction m generalizing n s with
  | zero => cases h
  | succ m ih =>
    obtain ⟨n, rfl⟩ := Nat.exists_eq_add_of_le' (Nat.one_le_of_lt hle)
    rw [run] at h ⊢
    cases hbody : body s with
    | inl s' =>
      rw [hbody] at h
      exact ih h (by omega)
    | inr r' =>
      rw [hbody] at h
      exact h

/-- The loop ends with a result. -/
def Ends (body : σ → σ ⊕ ρ) (s : σ) (r : ρ) : Prop := ∃ fuel, run body fuel s = some r

theorem Ends.of_inr {s : σ} {r : ρ} (h : body s = .inr r) : Ends body s r :=
  ⟨1, by rw [run, h]⟩

theorem Ends.of_inl {s s' : σ} {r : ρ} (h : body s = .inl s') (hends : Ends body s' r) :
    Ends body s r := by
  obtain ⟨fuel, hrun⟩ := hends
  exact ⟨fuel + 1, by rw [run, h]; exact hrun⟩

/-- When the rounds change a part of the state step by step, and the loop ends as soon as the part
passes a test, it ends exactly when some number of steps leads there. -/
theorem exists_ends_iff {β : Type} {part : σ → β} {step : β → β} {passes : β → Prop}
    (hround : ∀ s, ¬passes (part s) → ∃ s', body s = .inl s' ∧ part s' = step (part s))
    (hlast : ∀ s, passes (part s) → ∃ r, body s = .inr r) (s : σ) :
    (∃ r, Ends body s r) ↔ ∃ j, passes (step^[j] (part s)) := by
  constructor
  · rintro ⟨r, fuel, hrun⟩
    induction fuel generalizing s with
    | zero => cases hrun
    | succ fuel ih =>
      by_cases hpasses : passes (part s)
      · exact ⟨0, hpasses⟩
      · obtain ⟨s', hbody, hpart⟩ := hround s hpasses
        rw [run, hbody] at hrun
        obtain ⟨j, hj⟩ := ih s' hrun
        rw [hpart] at hj
        exact ⟨j + 1, hj⟩
  · rintro ⟨j, hj⟩
    induction j generalizing s with
    | zero =>
      obtain ⟨r, hr⟩ := hlast s hj
      exact ⟨r, .of_inr hr⟩
    | succ j ih =>
      by_cases hpasses : passes (part s)
      · obtain ⟨r, hr⟩ := hlast s hpasses
        exact ⟨r, .of_inr hr⟩
      · obtain ⟨s', hbody, hpart⟩ := hround s hpasses
        obtain ⟨r, hr⟩ := ih s' (by rw [hpart]; exact hj)
        exact ⟨r, .of_inl hbody hr⟩

/-- One state leads to another in some rounds. -/
def Leads (body : σ → σ ⊕ ρ) (s s' : σ) : Prop := ∀ r, Ends body s' r → Ends body s r

theorem Leads.refl (s : σ) : Leads body s s := fun _ h => h

theorem Leads.trans {s s' s'' : σ} (h : Leads body s s') (h' : Leads body s' s'') :
    Leads body s s'' := fun r hr => h r (h' r hr)

theorem Leads.of_inl {s s' : σ} (h : body s = .inl s') : Leads body s s' := fun _ => .of_inl h

end Loop
