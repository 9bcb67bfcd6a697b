import Mathlib.Data.List.Basic
import Mathlib.Tactic.Common

/-!
# Where a list splits

A test that holds from some element on splits a list in two. Halving the range finds the place,
and so does going forward from any place before it.
-/

namespace List

variable {α : Type} {above later : α → Bool} {l : List α} {m n : ℕ}

/-- The test fails before the index, and holds from it on. -/
structure SplitsAt (above : α → Bool) (l : List α) (n : ℕ) : Prop where
  le_length : n ≤ l.length
  below : ∀ i a, i < n → l[i]? = some a → above a = false
  above : ∀ i a, n ≤ i → l[i]? = some a → above a = true

/-- The steps of `std::upper_bound`: halve the `count` elements from index `first` on. -/
def searchFrom (above : α → Bool) (l : List α) : ℕ → ℕ → ℕ → ℕ
  | 0, first, _ => first
  | fuel + 1, first, count =>
    if count = 0 then first
    else
      match l[first + count / 2]? with
      | none => first
      | some a =>
        if above a then searchFrom above l fuel first (count / 2)
        else searchFrom above l fuel (first + count / 2 + 1) (count - count / 2 - 1)

/-- `std::upper_bound`, for the test whether an element is above the value. -/
def upperBound (above : α → Bool) (l : List α) : ℕ := searchFrom above l l.length 0 l.length

/-- Halving keeps the place between the elements that were tested. -/
theorem splitsAt_searchFrom (hmono : l.Pairwise fun a b => above a = true → above b = true)
    {fuel first count : ℕ} (hfuel : count ≤ fuel) (hend : first + count ≤ l.length)
    (hbelow : ∀ i a, i < first → l[i]? = some a → above a = false)
    (habove : ∀ i a, first + count ≤ i → l[i]? = some a → above a = true) :
    SplitsAt above l (searchFrom above l fuel first count) := by
  induction fuel generalizing first count with
  | zero =>
    obtain rfl : count = 0 := by omega
    exact ⟨hend, hbelow, habove⟩
  | succ fuel ih =>
    rw [searchFrom]
    by_cases hcount : count = 0
    · subst hcount
      rw [if_pos rfl]
      exact ⟨hend, hbelow, habove⟩
    · have hmid : first + count / 2 < l.length := by omega
      rw [if_neg hcount, getElem?_eq_getElem hmid]
      simp only
      by_cases htest : above l[first + count / 2] = true
      · rw [if_pos htest]
        refine ih (by omega) (by omega) hbelow fun i a hi ha => ?_
        -- what comes after an element above the value is above it
        rcases Nat.eq_or_lt_of_le hi with rfl | hi
        · rw [getElem?_eq_getElem hmid] at ha
          rwa [← Option.some.inj ha]
        · obtain ⟨hlt, rfl⟩ := getElem?_eq_some_iff.mp ha
          exact pairwise_iff_getElem.mp hmono _ _ hmid hlt hi htest
      · rw [if_neg htest]
        refine ih (by omega) (by omega) (fun i a hi ha => ?_) fun i a hi ha =>
          habove i a (by omega) ha
        obtain ⟨hlt, rfl⟩ := getElem?_eq_some_iff.mp ha
        rw [← Bool.not_eq_true]
        intro hi'
        rcases Nat.eq_or_lt_of_le (Nat.lt_succ_iff.mp hi) with rfl | hi
        · exact htest hi'
        · exact htest (pairwise_iff_getElem.mp hmono _ _ hlt hmid hi hi')

theorem splitsAt_upperBound (hmono : l.Pairwise fun a b => above a = true → above b = true) :
    SplitsAt above l (upperBound above l) :=
  splitsAt_searchFrom hmono (Nat.le_refl _) (by omega) (fun _ _ h => absurd h (Nat.not_lt_zero _))
    fun i a hi ha => by
      rw [getElem?_eq_none (by omega)] at ha
      cases ha

/-- A test that holds less often splits later. -/
theorem SplitsAt.le_of_imp (h : SplitsAt above l m) (h' : SplitsAt later l n)
    (himp : ∀ a, later a = true → above a = true) : m ≤ n := by
  by_contra hlt
  have hlen := h.le_length
  have hget : l[n]? = some l[n] := getElem?_eq_getElem (by omega)
  have hbelow := h.below n _ (by omega) hget
  rw [himp _ (h'.above n _ (Nat.le_refl n) hget)] at hbelow
  cases hbelow

/-- From the place on nothing is left to pass. -/
theorem SplitsAt.takeWhile_drop (h : SplitsAt above l n) {k : ℕ} (hk : n ≤ k) :
    ((l.drop k).takeWhile fun a => !above a) = [] := by
  cases hdrop : l.drop k with
  | nil => rfl
  | cons a rest =>
    have hget : l[k]? = some a := by
      rw [← Nat.add_zero k, ← getElem?_drop, hdrop]
      rfl
    rw [takeWhile_cons_of_neg]
    simp [h.above k a hk hget]

/-- Going forward while the test fails ends at the place. -/
theorem SplitsAt.length_takeWhile (h : SplitsAt above l n) (k : ℕ) :
    ((l.drop k).takeWhile fun a => !above a).length = n - k := by
  rcases Nat.le_total n k with hk | hk
  · rw [h.takeWhile_drop hk, length_nil]
    omega
  · have hsplit : l.drop k = (l.drop k).take (n - k) ++ l.drop n := by
      conv_lhs => rw [← take_append_drop (n - k) (l.drop k), drop_drop, Nat.add_sub_cancel' hk]
    have hall : ∀ a ∈ (l.drop k).take (n - k), (!above a) = true := by
      intro a ha
      obtain ⟨i, hi, rfl⟩ := mem_iff_getElem.mp ha
      rw [length_take, length_drop] at hi
      rw [getElem_take, getElem_drop]
      simp [h.below (k + i) _ (by omega) (getElem?_eq_getElem (by omega))]
    have hlen := h.le_length
    rw [hsplit, takeWhile_append_of_pos hall, h.takeWhile_drop (Nat.le_refl n), append_nil,
      length_take, length_drop]
    omega

end List
