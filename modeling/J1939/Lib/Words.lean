import Mathlib.Data.List.TakeWhile
import Mathlib.Tactic.Common

/-!
# Words between separators

A text is cut into words at the runs of a separator. A separator in front of the text leaves an
empty first word, one behind the text leaves nothing.
-/

namespace Words

variable {α : Type} [DecidableEq α] {sep : α} {text word : List α} {words : List (List α)}

/-- What follows the first word and the separators behind it. -/
def rest (sep : α) (text : List α) : List α :=
  (text.dropWhile (· ≠ sep)).dropWhile (· = sep)

/-- A separator stands behind the first word. -/
theorem eq_sep_of_dropWhile {c : α} {tail : List α} (h : text.dropWhile (· ≠ sep) = c :: tail) :
    c = sep := by
  induction text with
  | nil => cases h
  | cons a text ih =>
    by_cases ha : a = sep
    · rw [List.dropWhile_cons_of_neg (by simpa using ha)] at h
      exact (List.cons.inj h).1.symm.trans ha
    · rw [List.dropWhile_cons_of_pos (by simpa using ha)] at h
      exact ih h

theorem head?_rest : (rest sep text).head? ≠ some sep := by
  intro h
  rw [rest] at h
  have hnot := List.head?_dropWhile_not (· = sep) (text.dropWhile (· ≠ sep))
  rw [h] at hnot
  simp at hnot

/-- A text is its first word, the separators behind it, and what follows them. -/
theorem eq_append_rest (sep : α) (text : List α) : ∃ word gap, sep ∉ word ∧
    word = text.takeWhile (· ≠ sep) ∧
    text = word ++ List.replicate gap sep ++ rest sep text ∧ (rest sep text ≠ [] → 0 < gap) := by
  refine ⟨_, ((text.dropWhile (· ≠ sep)).takeWhile (· = sep)).length, ?_, rfl, ?_, fun hne => ?_⟩
  · intro hmem
    simpa using List.mem_takeWhile_imp hmem
  · have hgap : (text.dropWhile (· ≠ sep)).takeWhile (· = sep) =
        List.replicate ((text.dropWhile (· ≠ sep)).takeWhile (· = sep)).length sep := by
      rw [List.eq_replicate_iff]
      exact ⟨rfl, fun c hc => by simpa using List.mem_takeWhile_imp hc⟩
    rw [← hgap, List.append_assoc, rest, List.takeWhile_append_dropWhile,
      List.takeWhile_append_dropWhile]
  · cases hdrop : text.dropWhile (· ≠ sep) with
    | nil =>
      rw [rest, hdrop] at hne
      exact absurd rfl hne
    | cons c tail =>
      rw [List.takeWhile_cons_of_pos (by simpa using eq_sep_of_dropWhile hdrop)]
      exact Nat.succ_pos _

theorem length_rest_lt (h : rest sep text ≠ []) : (rest sep text).length < text.length := by
  obtain ⟨word, gap, -, -, htext, hgap⟩ := eq_append_rest sep text
  have hlength := congrArg List.length htext
  rw [List.length_append, List.length_append, List.length_replicate] at hlength
  have hpos := hgap h
  omega

/-- The words of a text. -/
def split (sep : α) (text : List α) : List (List α) :=
  if _h : rest sep text = [] then [text.takeWhile (· ≠ sep)]
  else text.takeWhile (· ≠ sep) :: split sep (rest sep text)
termination_by text.length
decreasing_by exact length_rest_lt _h

/-- The text shows the words, with separators between them and perhaps behind them. -/
inductive Shows (sep : α) : List α → List (List α) → Prop
  | last {word : List α} (hword : sep ∉ word) (gap : ℕ) :
    Shows sep (word ++ List.replicate gap sep) [word]
  | cons {word text : List α} {words : List (List α)} (hword : sep ∉ word) {gap : ℕ}
    (hgap : 0 < gap) (hnext : text ≠ []) (hhead : text.head? ≠ some sep)
    (hrest : Shows sep text words) :
    Shows sep (word ++ List.replicate gap sep ++ text) (word :: words)

/-- The first word ends at the first separator. -/
theorem span_word (hword : sep ∉ word) {tail : List α} (h : ∀ c ∈ tail.head?, c = sep) :
    (word ++ tail).takeWhile (· ≠ sep) = word ∧ (word ++ tail).dropWhile (· ≠ sep) = tail := by
  have hall : ∀ c ∈ word, decide (c ≠ sep) = true :=
    fun c hc => decide_eq_true fun heq => hword (heq ▸ hc)
  rw [List.takeWhile_append_of_pos hall, List.dropWhile_append_of_pos hall]
  cases tail with
  | nil => simp
  | cons c tail =>
    have hc : c = sep := h c rfl
    simp [hc]

theorem rest_word (hword : sep ∉ word) {gap : ℕ} (h : text.head? ≠ some sep)
    (hgap : text ≠ [] → 0 < gap) :
    (word ++ List.replicate gap sep ++ text).takeWhile (· ≠ sep) = word ∧
      rest sep (word ++ List.replicate gap sep ++ text) = text := by
  have hhead : ∀ c ∈ (List.replicate gap sep ++ text).head?, c = sep := by
    cases gap with
    | zero =>
      cases text with
      | nil => simp
      | cons c tail => exact absurd (hgap (by simp)) (lt_irrefl 0)
    | succ gap =>
      rintro c ⟨⟩
      rfl
  obtain ⟨htake, hdrop⟩ := span_word hword hhead
  rw [← List.append_assoc] at htake hdrop
  refine ⟨htake, ?_⟩
  have hall : ∀ c ∈ List.replicate gap sep, decide (c = sep) = true :=
    fun c hc => decide_eq_true (List.eq_of_mem_replicate hc)
  rw [rest, hdrop, List.dropWhile_append_of_pos hall]
  cases text with
  | nil => rfl
  | cons c tail => exact List.dropWhile_cons_of_neg (by simpa using h)

/-- The words of a text are those that it shows. -/
theorem Shows.split_eq (h : Shows sep text words) : split sep text = words := by
  induction h with
  | @last word hword gap =>
    obtain ⟨htake, hrest⟩ := @rest_word α _ sep [] word hword gap (by simp) (by simp)
    rw [List.append_nil] at htake hrest
    rw [split, dif_pos hrest, htake]
  | @cons word text words hword gap hgap hnext hhead hrest ih =>
    obtain ⟨htake, hfollows⟩ := rest_word hword hhead fun _ => hgap
    rw [split, dif_neg (by rw [hfollows]; exact hnext), hfollows, ih, htake]

/-- Every text shows its words. -/
theorem shows_split (sep : α) (text : List α) : Shows sep text (split sep text) := by
  induction text using split.induct sep with
  | case1 text hrest =>
    obtain ⟨word, gap, hword, htake, htext, -⟩ := eq_append_rest sep text
    rw [split, dif_pos hrest, ← htake]
    rw [hrest, List.append_nil] at htext
    rw [htext]
    exact .last hword gap
  | case2 text hrest ih =>
    obtain ⟨word, gap, hword, htake, htext, hgap⟩ := eq_append_rest sep text
    rw [split, dif_neg hrest, ← htake]
    have hshows := Shows.cons hword (hgap hrest) hrest head?_rest ih
    rwa [← htext] at hshows

/-- Cutting a text is the inverse of showing words. -/
theorem split_eq_iff : split sep text = words ↔ Shows sep text words :=
  ⟨fun h => h ▸ shows_split sep text, Shows.split_eq⟩

end Words
