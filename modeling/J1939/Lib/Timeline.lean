import J1939.Lib.BinarySearch
import Mathlib.Data.List.Induction
import Mathlib.Order.Lattice

/-!
# Values over time

A list of events in the order of their times shows at each time the value of the last event that
is not after it, and before all events that of the first. Keeping only the events that change the
value shows the same.
-/

namespace Timeline

variable {α τ ν : Type} [LinearOrder τ] {time : α → τ} {value : α → ν} {events : List α}

/-- The event shown at a time. -/
def shown (time : α → τ) (events : List α) (c : τ) : Option α :=
  (events.reverse.find? fun e => time e ≤ c).or events.head?

/-- The events that are after a time. -/
def isAfter (time : α → τ) (c : τ) (e : α) : Bool := c < time e

theorem mono_isAfter (h : events.Pairwise fun a b => time a ≤ time b) (c : τ) :
    events.Pairwise fun a b => isAfter time c a = true → isAfter time c b = true :=
  h.imp fun hle hafter => by
    rw [isAfter, decide_eq_true_eq] at hafter ⊢
    exact lt_of_lt_of_le hafter hle

theorem shown_concat (events : List α) (e : α) (c : τ) :
    shown time (events ++ [e]) c =
      if time e ≤ c then some e
      else if events = [] then some e else shown time events c := by
  rw [shown, List.reverse_append, List.reverse_singleton, List.singleton_append, List.find?_cons]
  by_cases hle : time e ≤ c
  · simp [hle]
  · cases events with
    | nil => simp [hle]
    | cons first events => simp [hle, shown]

/-- When there are events, every time shows one. -/
theorem exists_shown (h : events ≠ []) (c : τ) : ∃ e, shown time events c = some e := by
  cases events with
  | nil => exact absurd rfl h
  | cons first events =>
    rw [shown, List.head?_cons]
    cases (first :: events).reverse.find? fun e => time e ≤ c with
    | none => exact ⟨first, rfl⟩
    | some e => exact ⟨e, rfl⟩

/-- What is shown of other events with the same times. -/
theorem map_shown {β : Type} (time : β → τ) (f : α → β) (events : List α) (c : τ) :
    (shown (time ∘ f) events c).map f = shown time (events.map f) c := by
  rw [shown, shown, ← List.map_reverse, List.find?_map, List.head?_map, Option.map_or]
  rfl

/-- The event shown stands right before the place of the time, or is the first one. -/
theorem shown_eq_getElem? {c : τ} {n : ℕ} (h : events.SplitsAt (isAfter time c) n) :
    shown time events c = events[n - 1]? := by
  have hsplit := List.take_append_drop n events
  have hlater : (events.drop n).reverse.find? (fun e => time e ≤ c) = none := by
    rw [List.find?_eq_none]
    intro e he
    obtain ⟨i, hi⟩ := List.mem_iff_getElem?.mp (List.mem_reverse.mp he)
    rw [List.getElem?_drop] at hi
    have hafter := h.above (n + i) e (by omega) hi
    rw [isAfter, decide_eq_true_eq] at hafter
    simpa using hafter
  have hfind : events.reverse.find? (fun e => time e ≤ c) =
      (events.take n).reverse.find? fun e => time e ≤ c := by
    conv_lhs => rw [← hsplit, List.reverse_append, List.find?_append, hlater, Option.none_or]
  rw [shown, hfind]
  cases n with
  | zero =>
    rw [List.take_zero, List.reverse_nil, List.find?_nil, Option.none_or, List.head?_eq_getElem?]
  | succ n =>
    have hlt : n < events.length := h.le_length
    have hget : events[n]? = some events[n] := List.getElem?_eq_getElem hlt
    have hbefore := h.below n _ (Nat.lt_succ_self n) hget
    rw [isAfter, decide_eq_false_iff_not, not_lt] at hbefore
    rw [List.take_add_one, hget, Option.toList_some, List.reverse_append, List.reverse_singleton,
      List.singleton_append, List.find?_cons_of_pos (by simpa using hbefore), Option.some_or,
      Nat.add_sub_cancel, hget]

section Changes

variable [DecidableEq ν]

/-- Keep an event unless it has the value of the last one kept. -/
def recordChange (value : α → ν) (kept : List α) (e : α) : List α :=
  if kept.getLast?.map value = some (value e) then kept else kept ++ [e]

/-- What the kept events have in common with all events. -/
structure Keeps (time : α → τ) (value : α → ν) (events kept : List α) : Prop where
  sublist : kept.Sublist events
  nil_iff : kept = [] ↔ events = []
  last : kept.getLast?.map value = events.getLast?.map value
  shown : ∀ c, (shown time kept c).map value = (shown time events c).map value

/-- The last event is the one shown at its time and later. -/
theorem shown_of_last {e : α} {c : τ} (h : events.getLast? = some e) (hle : time e ≤ c) :
    shown time events c = some e := by
  obtain ⟨rest, rfl⟩ := List.getLast?_eq_some_iff.mp h
  rw [shown_concat, if_pos hle]

theorem Keeps.record {kept : List α} (h : Keeps time value events kept) {e : α}
    (hsorted : ∀ a ∈ events, time a ≤ time e) :
    Keeps time value (events ++ [e]) (recordChange value kept e) := by
  unfold recordChange
  by_cases hsame : kept.getLast?.map value = some (value e)
  · rw [if_pos hsame]
    obtain ⟨last, hlast, hvalue⟩ := Option.map_eq_some_iff.mp hsame
    have hkept : kept ≠ [] := by
      rintro rfl
      cases hlast
    have hevents : events ≠ [] := fun hnil => hkept (h.nil_iff.mpr hnil)
    refine ⟨h.sublist.trans (List.sublist_append_left ..), by simp [hkept], ?_, fun c => ?_⟩
    · rw [List.getLast?_concat, hsame, Option.map_some]
    · rw [shown_concat]
      by_cases hle : time e ≤ c
      · -- the last event kept has the value of the event left out
        have hmem : last ∈ events := h.sublist.subset (List.mem_of_getLast? hlast)
        rw [if_pos hle, shown_of_last hlast (le_trans (hsorted last hmem) hle), Option.map_some,
          Option.map_some, hvalue]
      · rw [if_neg hle, if_neg hevents]
        exact h.shown c
  · rw [if_neg hsame]
    refine ⟨h.sublist.append_right _, by simp, by simp, fun c => ?_⟩
    rw [shown_concat, shown_concat]
    by_cases hle : time e ≤ c
    · rw [if_pos hle, if_pos hle]
    · by_cases hnil : events = []
      · rw [if_neg hle, if_neg hle, if_pos hnil, if_pos (h.nil_iff.mpr hnil)]
      · rw [if_neg hle, if_neg hle, if_neg hnil, if_neg (h.nil_iff.not.mpr hnil)]
        exact h.shown c

/-- Keeping only changes loses nothing. -/
theorem keeps_foldl (hsorted : events.Pairwise fun a b => time a ≤ time b) :
    Keeps time value events (events.foldl (recordChange value) []) := by
  induction events using List.reverseRecOn with
  | nil => exact ⟨List.Sublist.refl _, Iff.rfl, rfl, fun _ => rfl⟩
  | append_singleton events e ih =>
    rw [List.pairwise_append] at hsorted
    rw [List.foldl_append, List.foldl_cons, List.foldl_nil]
    exact (ih hsorted.1).record fun a ha => hsorted.2.2 a ha e (List.mem_singleton_self e)

end Changes

end Timeline
