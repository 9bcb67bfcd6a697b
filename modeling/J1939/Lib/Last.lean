import Mathlib.Data.List.Induction
import Mathlib.Tactic.Common

/-!
# The last element with a property

Where a list has its last element with a property, as the list grows at its end.
-/

namespace List

variable {α : Type} {p : α → Prop} {l : List α} {n : ℕ} {a b : α}

/-- The element at the index has the property, and none behind it. -/
structure IsLast (p : α → Prop) (l : List α) (n : ℕ) (a : α) : Prop where
  get : l[n]? = some a
  holds : p a
  none_after : ∀ m b, n < m → l[m]? = some b → ¬p b

theorem IsLast.lt (h : IsLast p l n a) : n < l.length := by
  by_contra hle
  have hget := h.get
  rw [getElem?_eq_none (Nat.not_lt.mp hle)] at hget
  cases hget

/-- A new element with the property is the last one. -/
theorem isLast_concat_of_holds (hb : p b) :
    IsLast p (l ++ [b]) n a ↔ n = l.length ∧ a = b := by
  have hnew : (l ++ [b])[l.length]? = some b := getElem?_concat_length
  constructor
  · intro h
    have hlt := h.lt
    rw [length_append, length_singleton] at hlt
    have hn : n = l.length := by
      by_contra hne
      exact h.none_after l.length b (by omega) hnew hb
    subst hn
    exact ⟨rfl, Option.some.inj (h.get.symm.trans hnew)⟩
  · rintro ⟨rfl, rfl⟩
    refine ⟨hnew, hb, fun m c hm hc => ?_⟩
    rw [getElem?_eq_none (by rw [length_append, length_singleton]; omega)] at hc
    cases hc

/-- A new element without the property changes nothing. -/
theorem isLast_concat_of_not (hb : ¬p b) : IsLast p (l ++ [b]) n a ↔ IsLast p l n a := by
  constructor
  · intro h
    have hlt : n < l.length := by
      have hlt := h.lt
      rw [length_append, length_singleton] at hlt
      by_contra hle
      obtain rfl : n = l.length := by omega
      have hget := h.get
      rw [getElem?_concat_length] at hget
      obtain rfl := Option.some.inj hget
      exact hb h.holds
    refine ⟨?_, h.holds, fun m c hm hc => h.none_after m c hm ?_⟩
    · rw [← h.get, getElem?_append_left hlt]
    · have hm' : m < l.length := by
        by_contra hle
        rw [getElem?_eq_none (Nat.not_lt.mp hle)] at hc
        cases hc
      rw [getElem?_append_left hm', hc]
  · intro h
    have hlt := h.lt
    refine ⟨by rw [getElem?_append_left hlt, h.get], h.holds, fun m c hm hc => ?_⟩
    rcases Nat.lt_trichotomy m l.length with hm' | rfl | hm'
    · rw [getElem?_append_left hm'] at hc
      exact h.none_after m c hm hc
    · rw [getElem?_concat_length] at hc
      obtain rfl := Option.some.inj hc
      exact hb
    · rw [getElem?_eq_none (by rw [length_append, length_singleton]; omega)] at hc
      cases hc

/-- A list with an element that has the property has a last one. -/
theorem exists_isLast (h : ∃ a ∈ l, p a) : ∃ n a, IsLast p l n a := by
  induction l using List.reverseRecOn with
  | nil =>
    obtain ⟨a, ha, -⟩ := h
    exact absurd ha not_mem_nil
  | append_singleton l b ih =>
    by_cases hb : p b
    · exact ⟨_, _, (isLast_concat_of_holds hb).mpr ⟨rfl, rfl⟩⟩
    · obtain ⟨a, ha, hpa⟩ := h
      have hmem : a ∈ l := by
        rcases mem_append.mp ha with ha | ha
        · exact ha
        · rw [mem_singleton.mp ha] at hpa
          exact absurd hpa hb
      obtain ⟨n, c, hlast⟩ := ih ⟨a, hmem, hpa⟩
      exact ⟨n, c, (isLast_concat_of_not hb).mpr hlast⟩

/-- The last value that a function gives on a list. -/
def lastSome? {β : Type} (f : α → Option β) (l : List α) : Option β := (l.filterMap f).getLast?

section LastSome

variable {β : Type} {f : α → Option β}

@[simp] theorem lastSome?_nil : lastSome? f [] = none := rfl

@[simp] theorem lastSome?_append (l l' : List α) :
    lastSome? f (l ++ l') = (lastSome? f l').or (lastSome? f l) := by
  rw [lastSome?, filterMap_append, getLast?_append]
  rfl

@[simp] theorem lastSome?_singleton (a : α) : lastSome? f [a] = f a := by
  rw [lastSome?, filterMap_cons, filterMap_nil]
  cases f a <;> rfl

theorem lastSome?_cons (a : α) (l : List α) :
    lastSome? f (a :: l) = (lastSome? f l).or (f a) := by
  rw [← singleton_append, lastSome?_append, lastSome?_singleton]

theorem exists_of_lastSome? {b : β} (h : lastSome? f l = some b) : ∃ a ∈ l, f a = some b :=
  mem_filterMap.mp (mem_of_getLast? h)

end LastSome

end List
