import Mathlib.Tactic.Common

/-!
# Results of programs that may stop

What a program with exceptions guarantees of its result, if it has one. Programs that take a state
to a state are steps, and a relation that every step respects is respected by all of them together.
-/

namespace Except

variable {ε α β : Type}

/-- If the program returns, its result has the property. -/
def Yields (x : Except ε α) (Q : α → Prop) : Prop := ∀ a, x = .ok a → Q a

theorem yields_ok {a : α} {Q : α → Prop} (h : Q a) : (Except.ok a : Except ε α).Yields Q := by
  rintro _ ⟨⟩
  exact h

theorem yields_pure {a : α} {Q : α → Prop} (h : Q a) : (pure a : Except ε α).Yields Q :=
  yields_ok h

theorem yields_error {e : ε} {Q : α → Prop} : (Except.error e : Except ε α).Yields Q := by
  rintro _ ⟨⟩

theorem Yields.mono {x : Except ε α} {P Q : α → Prop} (h : x.Yields P) (hmono : ∀ a, P a → Q a) :
    x.Yields Q := fun a ha => hmono a (h a ha)

/-- One program after another. -/
theorem Yields.bind {x : Except ε α} {f : α → Except ε β} {P : α → Prop} {Q : β → Prop}
    (h : x.Yields P) (hf : ∀ a, P a → (f a).Yields Q) : (x >>= f).Yields Q := by
  cases x with
  | error e => rintro _ ⟨⟩
  | ok a => exact hf a (h a rfl)

/-- The result of the first program does not matter. -/
theorem yields_bind {x : Except ε α} {f : α → Except ε β} {Q : β → Prop}
    (hf : ∀ a, (f a).Yields Q) : (x >>= f).Yields Q :=
  Yields.bind (P := fun _ => True) (fun _ _ => trivial) fun a _ => hf a

theorem bind_eq_ok_iff {x : Except ε α} {f : α → Except ε β} {b : β} :
    x >>= f = .ok b ↔ ∃ a, x = .ok a ∧ f a = .ok b := by
  cases x with
  | error e =>
    constructor
    · rintro ⟨⟩
    · rintro ⟨a, ⟨⟩, -⟩
  | ok a =>
    constructor
    · exact fun h => ⟨a, rfl, h⟩
    · rintro ⟨_, ⟨⟩, h⟩
      exact h

/-- Steps that respect a relation, one after the other. -/
theorem yields_foldlM {σ : Type} {step : σ → β → Except ε σ} {R : σ → σ → Prop}
    (hrefl : ∀ s, R s s) (htrans : ∀ {s s' s''}, R s s' → R s' s'' → R s s'') {bs : List β}
    (hstep : ∀ s, ∀ b ∈ bs, (step s b).Yields (R s)) (s : σ) :
    (bs.foldlM step s).Yields (R s) := by
  induction bs generalizing s with
  | nil => exact yields_pure (hrefl s)
  | cons b bs ih =>
    rw [List.foldlM_cons]
    refine (hstep s b List.mem_cons_self).bind fun s' hs' => ?_
    exact (ih (fun s b hb => hstep s b (List.mem_cons_of_mem _ hb)) s').mono fun _ => htrans hs'

/-- Steps under an invariant that knows what is left to do. -/
theorem yields_foldlM_rest {σ : Type} {step : σ → β → Except ε σ} {I : List β → σ → Prop}
    (hstep : ∀ b bs s, I (b :: bs) s → (step s b).Yields (I bs)) {bs : List β} {s : σ}
    (h : I bs s) : (bs.foldlM step s).Yields (I []) := by
  induction bs generalizing s with
  | nil => exact yields_pure h
  | cons b bs ih =>
    rw [List.foldlM_cons]
    exact (hstep b bs s h).bind fun _ hs => ih hs

/-! ### Errors that do not happen -/

/-- The program does not end with the error. -/
def Avoids (x : Except ε α) (e : ε) : Prop := x ≠ .error e

variable {e : ε}

theorem avoids_ok {a : α} : (Except.ok a : Except ε α).Avoids e := by rintro ⟨⟩

theorem avoids_pure {a : α} : (pure a : Except ε α).Avoids e := avoids_ok

theorem avoids_error {e' : ε} (h : e' ≠ e) : (Except.error e' : Except ε α).Avoids e := by
  rintro ⟨⟩
  exact h rfl

/-- Two programs end with an error when the first one does, or the second one behind it. -/
theorem bind_eq_error_iff {x : Except ε α} {f : α → Except ε β} :
    x >>= f = .error e ↔ x = .error e ∨ ∃ a, x = .ok a ∧ f a = .error e := by
  cases x with
  | error e' =>
    constructor
    · rintro ⟨⟩
      exact .inl rfl
    · rintro (⟨⟨⟩⟩ | ⟨a, ⟨⟩, -⟩)
      rfl
  | ok a =>
    constructor
    · intro h
      exact .inr ⟨a, rfl, h⟩
    · rintro (⟨⟨⟩⟩ | ⟨_, ⟨⟩, h⟩)
      exact h

theorem Avoids.bind_eq_error_iff {x : Except ε α} {f : α → Except ε β} (h : x.Avoids e) :
    x >>= f = .error e ↔ ∃ a, x = .ok a ∧ f a = .error e :=
  Except.bind_eq_error_iff.trans (or_iff_right h)

/-- The second program avoids the error after all that the first one guarantees. -/
theorem Avoids.bind {x : Except ε α} {f : α → Except ε β} {P : α → Prop} (h : x.Avoids e)
    (hyields : x.Yields P) (hf : ∀ a, P a → (f a).Avoids e) : (x >>= f).Avoids e := by
  intro herror
  obtain ⟨a, ha, hfa⟩ := h.bind_eq_error_iff.mp herror
  exact hf a (hyields a ha) hfa

theorem avoids_bind {x : Except ε α} {f : α → Except ε β} (h : x.Avoids e)
    (hf : ∀ a, (f a).Avoids e) : (x >>= f).Avoids e :=
  Avoids.bind (P := fun _ => True) h (fun _ _ => trivial) fun a _ => hf a

theorem avoids_mapM {f : α → Except ε β} {as : List α} (h : ∀ a ∈ as, (f a).Avoids e) :
    (as.mapM f).Avoids e := by
  induction as with
  | nil => exact avoids_pure
  | cons a as ih =>
    rw [List.mapM_cons]
    refine avoids_bind (h a List.mem_cons_self) fun b => ?_
    exact avoids_bind (ih fun a ha => h a (List.mem_cons_of_mem _ ha)) fun bs => avoids_pure

/-- Steps that avoid the error as long as a property holds, which they keep. -/
theorem avoids_foldlM {σ : Type} {step : σ → β → Except ε σ} {I : σ → Prop} {bs : List β}
    (hstep : ∀ s, I s → ∀ b ∈ bs, (step s b).Avoids e) (hkeep : ∀ s b, I s → (step s b).Yields I)
    {s : σ} (h : I s) : (bs.foldlM step s).Avoids e := by
  induction bs generalizing s with
  | nil => exact avoids_pure
  | cons b bs ih =>
    rw [List.foldlM_cons]
    refine (hstep s h b List.mem_cons_self).bind (hkeep s b h) fun s' hs' => ?_
    exact ih (fun s hs b hb => hstep s hs b (List.mem_cons_of_mem _ hb)) hs'

end Except
