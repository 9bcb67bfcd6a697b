import Mathlib.Data.List.Pairwise
import Mathlib.Data.List.Sort
import Mathlib.Order.Lattice
import Mathlib.Tactic.Common

/-!
# Ordered maps

A map iterated in the order of its keys, kept as the sorted list of its entries.
Sortedness is a field, so a map has one representation and two maps with the
same look-ups are equal.
-/

/-- A finite map from `κ` to `α` whose entries are listed by increasing key. -/
structure SortedMap (κ α : Type) [LinearOrder κ] where
  entries : List (κ × α)
  sorted : entries.Pairwise fun a b => a.1 < b.1

namespace SortedMap

variable {κ α : Type} [LinearOrder κ]

instance [DecidableEq α] : DecidableEq (SortedMap κ α) := fun a b =>
  decidable_of_iff (a.entries = b.entries) ⟨fun h => by cases a; cases b; congr, fun h => h ▸ rfl⟩

instance : EmptyCollection (SortedMap κ α) := ⟨⟨[], List.Pairwise.nil⟩⟩

instance : Inhabited (SortedMap κ α) := ⟨∅⟩

/-- The value stored in a sorted entry list under a key. -/
def findIn (k : κ) : List (κ × α) → Option α
  | [] => none
  | (j, v) :: rest => if j = k then some v else findIn k rest

/-- Store a value in a sorted entry list, replacing the one with the same key. -/
def insertIn (k : κ) (v : α) : List (κ × α) → List (κ × α)
  | [] => [(k, v)]
  | (j, w) :: rest =>
    if k < j then (k, v) :: (j, w) :: rest
    else if k = j then (k, v) :: rest
    else (j, w) :: insertIn k v rest

theorem mem_insertIn {k : κ} {v : α} {e : κ × α} {l : List (κ × α)} (h : e ∈ insertIn k v l) :
    e = (k, v) ∨ e ∈ l := by
  induction l with
  | nil => simpa [insertIn] using h
  | cons a rest ih =>
    obtain ⟨j, w⟩ := a
    simp only [insertIn] at h
    split_ifs at h with hlt heq
    · simpa using h
    · rcases List.mem_cons.mp h with h | h
      · exact Or.inl h
      · exact Or.inr (List.mem_cons_of_mem _ h)
    · rcases List.mem_cons.mp h with h | h
      · exact Or.inr (by simp [h])
      · exact (ih h).imp_right (List.mem_cons_of_mem _)

theorem insertIn_sorted {k : κ} {v : α} {l : List (κ × α)}
    (h : l.Pairwise fun a b => a.1 < b.1) : (insertIn k v l).Pairwise fun a b => a.1 < b.1 := by
  induction l with
  | nil => exact List.pairwise_singleton _ _
  | cons a rest ih =>
    obtain ⟨j, w⟩ := a
    have hrest := List.pairwise_cons.mp h
    simp only [insertIn]
    split_ifs with hlt heq
    · refine List.pairwise_cons.mpr ⟨fun e he => ?_, h⟩
      rcases List.mem_cons.mp he with rfl | he
      · exact hlt
      · exact hlt.trans (hrest.1 e he)
    · subst heq
      exact List.pairwise_cons.mpr ⟨hrest.1, hrest.2⟩
    · refine List.pairwise_cons.mpr ⟨fun e he => ?_, ih hrest.2⟩
      rcases mem_insertIn he with rfl | he
      · exact lt_of_le_of_ne (not_lt.mp hlt) (Ne.symm heq)
      · exact hrest.1 e he

/-- Look a key up. -/
def find? (m : SortedMap κ α) (k : κ) : Option α := findIn k m.entries

/-- Assign a value to a key. -/
def insert (m : SortedMap κ α) (k : κ) (v : α) : SortedMap κ α :=
  ⟨insertIn k v m.entries, insertIn_sorted m.sorted⟩

/-- Remove a key. -/
def erase (m : SortedMap κ α) (k : κ) : SortedMap κ α :=
  ⟨m.entries.filter fun e => e.1 ≠ k, m.sorted.filter _⟩

/-- The entry with the smallest key. -/
def first? (m : SortedMap κ α) : Option (κ × α) := m.entries.head?

/-- The entry with the largest key. -/
def last? (m : SortedMap κ α) : Option (κ × α) := m.entries.getLast?

/-- Replace the values of an entry list one by one, keeping the keys. -/
def setValuesIn : List (κ × α) → List α → List (κ × α)
  | e :: es, v :: vs => (e.1, v) :: setValuesIn es vs
  | es, [] => es
  | [], _ => []

omit [LinearOrder κ] in
theorem map_fst_setValuesIn (es : List (κ × α)) (vs : List α) :
    (setValuesIn es vs).map Prod.fst = es.map Prod.fst := by
  induction es generalizing vs with
  | nil => cases vs <;> rfl
  | cons e es ih =>
    cases vs with
    | nil => rfl
    | cons v vs => simp only [setValuesIn, List.map_cons, ih]

/-- Replace the values by increasing key. -/
def setValues (m : SortedMap κ α) (vs : List α) : SortedMap κ α where
  entries := setValuesIn m.entries vs
  sorted := by
    have hkeys := List.pairwise_map.mpr m.sorted
    rw [← map_fst_setValuesIn m.entries vs] at hkeys
    exact List.pairwise_map.mp hkeys

/-- The number of entries. -/
def size (m : SortedMap κ α) : ℕ := m.entries.length

/-- The values by increasing key. -/
def values (m : SortedMap κ α) : List α := m.entries.map Prod.snd

@[simp] theorem entries_empty : (∅ : SortedMap κ α).entries = [] := rfl

@[simp] theorem find?_empty (k : κ) : (∅ : SortedMap κ α).find? k = none := rfl

omit [LinearOrder κ] in
theorem map_snd_setValuesIn {es : List (κ × α)} {vs : List α} (h : vs.length = es.length) :
    (setValuesIn es vs).map Prod.snd = vs := by
  induction es generalizing vs with
  | nil => rw [List.length_eq_zero_iff.mp h]; rfl
  | cons e es ih =>
    cases vs with
    | nil => simp at h
    | cons v vs => rw [setValuesIn, List.map_cons, ih (by simpa using h)]

@[simp] theorem length_values (m : SortedMap κ α) : m.values.length = m.entries.length := by
  simp [values]

/-- The new values are read back when there is one for each key. -/
theorem values_setValues {m : SortedMap κ α} {vs : List α} (h : vs.length = m.values.length) :
    (m.setValues vs).values = vs :=
  map_snd_setValuesIn (by simpa using h)

theorem findIn_insertIn (k i : κ) (v : α) (l : List (κ × α)) :
    findIn i (insertIn k v l) = if i = k then some v else findIn i l := by
  induction l with
  | nil =>
    simp only [insertIn, findIn]
    exact if_congr eq_comm rfl rfl
  | cons a rest ih =>
    obtain ⟨j, w⟩ := a
    have hhead : ∀ tail : List (κ × α),
        findIn i ((k, v) :: tail) = if i = k then some v else findIn i tail := fun tail => by
      rw [findIn]
      exact if_congr eq_comm rfl rfl
    rw [insertIn]
    by_cases hlt : k < j
    · rw [if_pos hlt, hhead]
    by_cases heq : k = j
    · subst heq
      rw [if_neg hlt, if_pos rfl, hhead, findIn]
      by_cases hik : i = k
      · rw [if_pos hik, if_pos hik]
      · rw [if_neg hik, if_neg hik, if_neg (Ne.symm hik)]
    · rw [if_neg hlt, if_neg heq, findIn, findIn, ih]
      by_cases hji : j = i
      · rw [if_pos hji, if_pos hji, if_neg fun h => heq (h.symm.trans hji.symm)]
      · rw [if_neg hji, if_neg hji]

@[simp] theorem find?_insert (m : SortedMap κ α) (k i : κ) (v : α) :
    (m.insert k v).find? i = if i = k then some v else m.find? i :=
  findIn_insertIn k i v m.entries

theorem findIn_filter_ne (k i : κ) (l : List (κ × α)) :
    findIn i (l.filter fun e => e.1 ≠ k) = if i = k then none else findIn i l := by
  induction l with
  | nil => simp [findIn]
  | cons a rest ih =>
    obtain ⟨j, w⟩ := a
    by_cases hjk : j = k
    · subst hjk
      rw [List.filter_cons_of_neg (by simp), ih, findIn]
      by_cases hij : i = j
      · simp [hij]
      · rw [if_neg hij, if_neg hij, if_neg (Ne.symm hij)]
    · rw [List.filter_cons_of_pos (by simpa using hjk), findIn, findIn, ih]
      by_cases hji : j = i
      · subst hji
        simp [hjk]
      · simp [hji]

@[simp] theorem find?_erase (m : SortedMap κ α) (k i : κ) :
    (m.erase k).find? i = if i = k then none else m.find? i :=
  findIn_filter_ne k i m.entries

theorem findIn_eq_some_mem {k : κ} {v : α} {l : List (κ × α)} (h : findIn k l = some v) :
    (k, v) ∈ l := by
  induction l with
  | nil => simp [findIn] at h
  | cons a rest ih =>
    obtain ⟨j, w⟩ := a
    rw [findIn] at h
    split_ifs at h with hjk
    · cases h
      simp [hjk]
    · exact List.mem_cons_of_mem _ (ih h)

/-- An entry of the map is found under its key. -/
theorem find?_of_mem {m : SortedMap κ α} {k : κ} {v : α} (h : (k, v) ∈ m.entries) :
    m.find? k = some v := by
  obtain ⟨l, hl⟩ := m
  simp only [find?] at h ⊢
  induction l with
  | nil => simp at h
  | cons a rest ih =>
    obtain ⟨j, w⟩ := a
    have hrest := List.pairwise_cons.mp hl
    rcases List.mem_cons.mp h with h | h
    · cases h
      simp [findIn]
    · have hlt : j < k := hrest.1 _ h
      rw [findIn, if_neg hlt.ne]
      exact ih hrest.2 h

theorem mem_entries_iff {m : SortedMap κ α} {k : κ} {v : α} :
    (k, v) ∈ m.entries ↔ m.find? k = some v :=
  ⟨find?_of_mem, findIn_eq_some_mem⟩

theorem find?_first? {m : SortedMap κ α} {k : κ} {v : α} (h : m.first? = some (k, v)) :
    m.find? k = some v :=
  find?_of_mem (List.mem_of_mem_head? h)

/-- Assigning to a key of the map replaces its value in place. -/
theorem entries_insert_of_find? {m : SortedMap κ α} {k : κ} {v w : α} (h : m.find? k = some w) :
    (m.insert k v).entries = m.entries.map fun e => if e.1 = k then (k, v) else e := by
  obtain ⟨l, hl⟩ := m
  simp only [find?, insert] at h ⊢
  induction l with
  | nil => cases h
  | cons a rest ih =>
    obtain ⟨j, u⟩ := a
    obtain ⟨hfirst, hrest⟩ := List.pairwise_cons.mp hl
    rw [insertIn, List.map_cons]
    by_cases hj : j = k
    · subst hj
      have hothers : rest.map (fun e => if e.1 = j then (j, v) else e) = rest := by
        conv_rhs => rw [← List.map_id rest]
        exact List.map_congr_left fun e he => if_neg (hfirst e he).ne'
      rw [if_neg (lt_irrefl j), if_pos rfl, if_pos rfl, hothers]
    · rw [findIn, if_neg hj] at h
      have hlt : j < k := hfirst _ (findIn_eq_some_mem h)
      rw [if_neg hlt.not_gt, if_neg (Ne.symm hj), if_neg hj, ih hrest h]

/-- The entries before and behind a key. They stay when the key is assigned or removed. -/
theorem exists_split {m : SortedMap κ α} {k : κ} {v : α} (h : m.find? k = some v) :
    ∃ before after, m.entries = before ++ (k, v) :: after ∧ (∀ e ∈ before, e.1 < k) ∧
      (∀ e ∈ after, k < e.1) ∧ (m.erase k).entries = before ++ after ∧
        ∀ w, (m.insert k w).entries = before ++ (k, w) :: after := by
  obtain ⟨before, after, hsplit⟩ := List.append_of_mem (mem_entries_iff.mpr h)
  have hsorted := m.sorted
  rw [hsplit, List.pairwise_append, List.pairwise_cons] at hsorted
  obtain ⟨-, ⟨hafter, -⟩, hbefore⟩ := hsorted
  have hbefore' : ∀ e ∈ before, e.1 < k := fun e he => hbefore e he _ (List.mem_cons_self ..)
  refine ⟨before, after, hsplit, hbefore', hafter, ?_, fun w => ?_⟩
  · have hkept : ∀ l : List (κ × α), (∀ e ∈ l, e.1 ≠ k) → l.filter (fun e => e.1 ≠ k) = l :=
      fun l hl => List.filter_eq_self.mpr fun e he => decide_eq_true (hl e he)
    change m.entries.filter (fun e => e.1 ≠ k) = _
    rw [hsplit, List.filter_append, List.filter_cons_of_neg (by simp),
      hkept before fun e he => (hbefore' e he).ne, hkept after fun e he => (hafter e he).ne']
  · have hkept : ∀ l : List (κ × α), (∀ e ∈ l, e.1 ≠ k) →
        l.map (fun e => if e.1 = k then (k, w) else e) = l :=
      fun l hl => (List.map_congr_left fun e he => if_neg (hl e he)).trans (List.map_id' l)
    rw [entries_insert_of_find? h, hsplit, List.map_append, List.map_cons, if_pos rfl,
      hkept before fun e he => (hbefore' e he).ne, hkept after fun e he => (hafter e he).ne']

/-- A key that is not above the first one comes first. -/
theorem first?_insert {m : SortedMap κ α} {k : κ} {v : α} (h : ∀ e ∈ m.first?, k ≤ e.1) :
    (m.insert k v).first? = some (k, v) := by
  obtain ⟨l, hl⟩ := m
  simp only [first?, insert] at h ⊢
  cases l with
  | nil => rfl
  | cons a rest =>
    obtain ⟨j, w⟩ := a
    have hk : k ≤ j := h (j, w) rfl
    rw [insertIn]
    split_ifs with hlt heq
    · rfl
    · rfl
    · exact absurd (lt_of_le_of_ne hk heq) hlt

/-- Inserting above every key appends the entry. -/
theorem entries_insert_of_lt {m : SortedMap κ α} {k : κ} {v : α}
    (h : ∀ e ∈ m.entries, e.1 < k) : (m.insert k v).entries = m.entries ++ [(k, v)] := by
  obtain ⟨l, hl⟩ := m
  simp only [insert] at h ⊢
  clear hl
  induction l with
  | nil => rfl
  | cons a rest ih =>
    obtain ⟨j, w⟩ := a
    have hj : j < k := h (j, w) (by simp)
    rw [insertIn, if_neg hj.not_gt, if_neg hj.ne', List.cons_append,
      ih fun e he => h e (List.mem_cons_of_mem _ he)]

/-- Maps with the same entries are equal. -/
theorem ext_entries {m m' : SortedMap κ α} (h : m.entries = m'.entries) : m = m' := by
  cases m
  cases m'
  cases h
  rfl

/-- Assigning the entries of a map to an empty one, in order. -/
theorem foldl_insert_entries (m : SortedMap κ α) :
    m.entries.foldl (fun m e => m.insert e.1 e.2) ∅ = m := by
  have hlist : ∀ (l : List (κ × α)) (m' : SortedMap κ α),
      (m'.entries ++ l).Pairwise (fun a b => a.1 < b.1) →
        (l.foldl (fun m e => m.insert e.1 e.2) m').entries = m'.entries ++ l := by
    intro l
    induction l with
    | nil => exact fun m' _ => (List.append_nil _).symm
    | cons e l ih =>
      intro m' hsorted
      have hlast : ∀ x ∈ m'.entries, x.1 < e.1 := fun x hx =>
        (List.pairwise_append.mp hsorted).2.2 x hx e (List.mem_cons_self ..)
      have hentries : (m'.insert e.1 e.2).entries = m'.entries ++ [e] := entries_insert_of_lt hlast
      rw [List.foldl_cons, ih, hentries, List.append_assoc, List.singleton_append]
      rw [hentries, List.append_assoc, List.singleton_append]
      exact hsorted
  exact ext_entries (hlist m.entries ∅ m.sorted)

/-- Maps with the same look-ups are equal. -/
theorem ext_find? {m m' : SortedMap κ α} (h : ∀ k, m.find? k = m'.find? k) : m = m' := by
  have hirrefl : Std.Irrefl fun a b : κ × α => a.1 < b.1 := ⟨fun a => lt_irrefl a.1⟩
  have hasymm : Std.Asymm fun a b : κ × α => a.1 < b.1 := ⟨fun _ _ => lt_asymm⟩
  refine ext_entries (m.sorted.eq_of_mem_iff m'.sorted fun e => ?_)
  rw [← Prod.mk.eta (p := e), mem_entries_iff, mem_entries_iff, h]

theorem isSome_find?_iff {m : SortedMap κ α} {k : κ} :
    (m.find? k).isSome ↔ k ∈ m.entries.map Prod.fst := by
  rw [List.mem_map, Option.isSome_iff_exists]
  constructor
  · rintro ⟨v, hfind⟩
    exact ⟨(k, v), mem_entries_iff.mpr hfind, rfl⟩
  · rintro ⟨e, he, rfl⟩
    exact ⟨e.2, find?_of_mem he⟩

/-- The keys of a map, from its look-ups. -/
theorem keys_eq_of_find? {m : SortedMap κ α} {ks : List κ}
    (h : ∀ k, (m.find? k).isSome ↔ k ∈ ks) (hks : ks.Pairwise (· < ·)) :
    m.entries.map Prod.fst = ks := by
  have hirrefl : Std.Irrefl fun a b : κ => a < b := ⟨lt_irrefl⟩
  have hasymm : Std.Asymm fun a b : κ => a < b := ⟨fun _ _ => lt_asymm⟩
  refine (List.pairwise_map.mpr m.sorted).eq_of_mem_iff hks fun k => ?_
  rw [← h, isSome_find?_iff]

omit [LinearOrder κ] in
theorem setValuesIn_map_snd {es es' : List (κ × α)}
    (h : es.map Prod.fst = es'.map Prod.fst) : setValuesIn es (es'.map Prod.snd) = es' := by
  induction es generalizing es' with
  | nil =>
    cases es' with
    | nil => rfl
    | cons e' es' => cases h
  | cons e es ih =>
    cases es' with
    | nil => cases h
    | cons e' es' =>
      rw [List.map_cons, List.map_cons, List.cons.injEq] at h
      rw [List.map_cons, setValuesIn, ih h.2, h.1]

/-- Giving a map the values of another one with the same keys makes them equal. -/
theorem setValues_values {m m' : SortedMap κ α}
    (h : m.entries.map Prod.fst = m'.entries.map Prod.fst) : m.setValues m'.values = m' :=
  ext_entries (setValuesIn_map_snd h)

omit [LinearOrder κ] in
theorem setValuesIn_map (es : List (κ × α)) (g : α → α) :
    setValuesIn es (es.map fun e => g e.2) = es.map fun e => (e.1, g e.2) := by
  induction es with
  | nil => rfl
  | cons e es ih => rw [List.map_cons, setValuesIn, ih, List.map_cons]

omit [LinearOrder κ] in
/-- New values that depend on the keys. -/
theorem setValuesIn_map_entries (es : List (κ × α)) (g : κ × α → α) :
    setValuesIn es (es.map g) = es.map fun e => (e.1, g e) := by
  induction es with
  | nil => rfl
  | cons e es ih => rw [List.map_cons, setValuesIn, ih, List.map_cons]

theorem entries_setValues_map (m : SortedMap κ α) (g : α → α) :
    (m.setValues (m.values.map g)).entries = m.entries.map fun e => (e.1, g e.2) := by
  rw [values, List.map_map]
  exact setValuesIn_map m.entries g

/-- Applying a function to all values applies it to each one that is found. -/
theorem find?_setValues_map (m : SortedMap κ α) (g : α → α) (k : κ) :
    (m.setValues (m.values.map g)).find? k = (m.find? k).map g := by
  rw [find?, entries_setValues_map, find?]
  induction m.entries with
  | nil => rfl
  | cons e es ih =>
    rw [List.map_cons, findIn, findIn]
    split_ifs
    · rfl
    · exact ih

end SortedMap

/-! ### Machine words as keys -/

instance instLinearOrderUInt8 : LinearOrder UInt8 where
  le_refl := UInt8.le_refl
  le_trans _ _ _ := UInt8.le_trans
  le_antisymm _ _ := UInt8.le_antisymm
  le_total := UInt8.le_total
  lt_iff_le_not_ge a b := by
    rw [UInt8.lt_iff_toNat_lt, UInt8.le_iff_toNat_le, UInt8.le_iff_toNat_le]
    omega
  toDecidableLE := inferInstance
  toDecidableEq := inferInstance
  toDecidableLT := inferInstance
  min_def _ _ := rfl
  max_def _ _ := rfl
  compare_eq_compareOfLessAndEq _ _ := rfl

instance instLinearOrderUInt32 : LinearOrder UInt32 where
  le_refl := UInt32.le_refl
  le_trans _ _ _ := UInt32.le_trans
  le_antisymm _ _ := UInt32.le_antisymm
  le_total := UInt32.le_total
  lt_iff_le_not_ge a b := by
    rw [UInt32.lt_iff_toNat_lt, UInt32.le_iff_toNat_le, UInt32.le_iff_toNat_le]
    omega
  toDecidableLE := inferInstance
  toDecidableEq := inferInstance
  toDecidableLT := inferInstance
  min_def _ _ := rfl
  max_def _ _ := rfl
  compare_eq_compareOfLessAndEq _ _ := rfl
