import Mathlib.Data.List.Basic
import Mathlib.Tactic.Common

/-!
# Machines made of independent parts

A machine with outputs reads inputs that each concern one part, or none. When a step
changes and observes only the part its input concerns, a run seen from one part is
that part's own run on the inputs that concern it.
-/

/-- Run a machine: the final state and the output of each input. -/
def runMachine {σ ι o : Type} (step : σ → ι → σ × o) : σ → List ι → σ × List (ι × o)
  | s, [] => (s, [])
  | s, i :: is =>
    let rest := runMachine step (step s i).1 is
    (rest.1, (i, (step s i).2) :: rest.2)

section Run

variable {σ ι o : Type} {step : σ → ι → σ × o}

@[simp] theorem runMachine_nil (s : σ) : runMachine step s [] = (s, []) := rfl

@[simp] theorem runMachine_cons (s : σ) (i : ι) (is : List ι) :
    runMachine step s (i :: is) =
      ((runMachine step (step s i).1 is).1,
        (i, (step s i).2) :: (runMachine step (step s i).1 is).2) := rfl

/-- A run over two lists of inputs is one run after the other. -/
theorem runMachine_append (s : σ) (is js : List ι) :
    runMachine step s (is ++ js) =
      ((runMachine step (runMachine step s is).1 js).1,
        (runMachine step s is).2 ++ (runMachine step (runMachine step s is).1 js).2) := by
  induction is generalizing s with
  | nil => simp
  | cons i is ih => simp [ih]

/-- What every step preserves holds after a run. -/
theorem runMachine_invariant {inv : σ → Prop} (hstep : ∀ s i, inv s → inv (step s i).1) {s : σ}
    (hs : inv s) (is : List ι) : inv (runMachine step s is).1 := by
  induction is generalizing s with
  | nil => exact hs
  | cons i is ih => exact ih (hstep s i hs)

end Run

/-- A machine whose state is seen, under each key, as a part that only the inputs with
that key change. The invariant may be used to show it. -/
structure Keyed (σ ι o κ τ : Type) [DecidableEq κ] where
  step : σ → ι → σ × o
  key : ι → Option κ
  view : κ → σ → τ
  part : κ → τ → ι → τ × o
  inv : σ → Prop
  inv_step : ∀ s i, inv s → inv (step s i).1
  view_of_key : ∀ s i k, inv s → key i = some k → (view k (step s i).1, (step s i).2) =
    part k (view k s) i
  view_of_ne : ∀ s i k, inv s → key i ≠ some k → view k (step s i).1 = view k s

namespace Keyed

variable {σ ι o κ τ : Type} [DecidableEq κ] (m : Keyed σ ι o κ τ)

/-- The inputs of one part. -/
def inputsOf (k : κ) (is : List ι) : List ι := is.filter fun i => m.key i = some k

/-- The outputs that a run produces for the inputs of one part. -/
def outputsOf (k : κ) (out : List (ι × o)) : List (ι × o) := out.filter fun e => m.key e.1 = some k

/-- A run seen from one part is the run of that part. -/
theorem view_run (k : κ) {s : σ} (hs : m.inv s) (is : List ι) :
    (m.view k (runMachine m.step s is).1, m.outputsOf k (runMachine m.step s is).2) =
      runMachine (m.part k) (m.view k s) (m.inputsOf k is) := by
  induction is generalizing s with
  | nil => rfl
  | cons i is ih =>
    have hrest := ih (m.inv_step s i hs)
    by_cases hkey : m.key i = some k
    · have hpart := m.view_of_key s i k hs hkey
      rw [inputsOf, List.filter_cons_of_pos (by simpa using hkey), runMachine_cons,
        runMachine_cons, outputsOf, List.filter_cons_of_pos (by simpa using hkey), ← hpart]
      rw [inputsOf] at hrest
      rw [← hrest]
      rfl
    · have hpart := m.view_of_ne s i k hs hkey
      rw [inputsOf, List.filter_cons_of_neg (by simpa using hkey), runMachine_cons, outputsOf,
        List.filter_cons_of_neg (by simpa using hkey)]
      rw [inputsOf, hpart] at hrest
      exact hrest

/-- Non-interference: a part is the same after the run on all inputs and after the
run on its own inputs. -/
theorem view_run_inputsOf (k : κ) {s : σ} (hs : m.inv s) (is : List ι) :
    m.view k (runMachine m.step s is).1 =
      m.view k (runMachine m.step s (m.inputsOf k is)).1 := by
  have hall := congrArg Prod.fst (m.view_run k hs is)
  have hown := congrArg Prod.fst (m.view_run k hs (m.inputsOf k is))
  have htwice : m.inputsOf k (m.inputsOf k is) = m.inputsOf k is := by
    simp [inputsOf, List.filter_filter]
  rw [htwice] at hown
  exact hall.trans hown.symm

end Keyed
