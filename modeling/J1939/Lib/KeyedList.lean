import Mathlib.Data.List.Nodup
import Mathlib.Logic.Function.Basic
import Mathlib.Tactic.Common

/-!
# Lists that stand for maps

A list of entries stands for a partial map from keys to values when no key occurs twice.
Erasing the first entry with a key then removes the key, and a new entry at the end adds one.
-/

namespace List

variable {α κ β : Type} {key : α → κ} {value : α → β} {l l' : List α} {m : κ → Option β}

/-- The list stands for the map: no two entries have the same key, and the map holds exactly the
values of the entries. -/
structure Represents (key : α → κ) (value : α → β) (l : List α) (m : κ → Option β) : Prop where
  nodup : (l.map key).Nodup
  lookup : ∀ k v, m k = some v ↔ ∃ a ∈ l, key a = k ∧ value a = v

theorem represents_nil : Represents key value [] fun _ => none :=
  ⟨nodup_nil, fun k v => by simp⟩

/-- A key is in the map exactly when an entry has it. -/
theorem Represents.ne_none_iff (h : Represents key value l m) (k : κ) :
    m k ≠ none ↔ ∃ a ∈ l, key a = k := by
  rw [Option.ne_none_iff_exists']
  constructor
  · rintro ⟨v, hv⟩
    obtain ⟨a, ha, hk, -⟩ := (h.lookup k v).mp hv
    exact ⟨a, ha, hk⟩
  · rintro ⟨a, ha, hk⟩
    exact ⟨value a, (h.lookup k _).mpr ⟨a, ha, hk, rfl⟩⟩

/-- Only the keys and the values of the entries count. -/
theorem Represents.of_map_eq (h : Represents key value l m)
    (hentries : l'.map (fun a => (key a, value a)) = l.map fun a => (key a, value a)) :
    Represents key value l' m := by
  have hkey : l'.map key = l.map key := by
    have hfst := congrArg (map Prod.fst) hentries
    rw [map_map, map_map] at hfst
    exact hfst
  refine ⟨hkey ▸ h.nodup, fun k v => ?_⟩
  have hmem : (k, v) ∈ l'.map (fun a => (key a, value a)) ↔
      (k, v) ∈ l.map fun a => (key a, value a) := by rw [hentries]
  rw [h.lookup k v]
  simpa only [mem_map, Prod.mk.injEq] using hmem.symm

variable [DecidableEq κ]

/-- Without a double key, erasing the first entry with a key keeps exactly the others. -/
theorem mem_eraseP_key (h : (l.map key).Nodup) {k : κ} {a : α} :
    a ∈ l.eraseP (fun b => key b = k) ↔ a ∈ l ∧ key a ≠ k := by
  induction l with
  | nil => simp
  | cons b l ih =>
    rw [map_cons, nodup_cons] at h
    by_cases hb : key b = k
    · rw [eraseP_cons_of_pos (by simpa using hb), mem_cons]
      constructor
      · intro ha
        exact ⟨.inr ha, fun hk => h.1 (mem_map.mpr ⟨a, ha, hk.trans hb.symm⟩)⟩
      · rintro ⟨rfl | ha, hk⟩
        · exact absurd hb hk
        · exact ha
    · rw [eraseP_cons_of_neg (by simpa using hb), mem_cons, mem_cons, ih h.2]
      constructor
      · rintro (rfl | ⟨ha, hk⟩)
        · exact ⟨.inl rfl, hb⟩
        · exact ⟨.inr ha, hk⟩
      · rintro ⟨rfl | ha, hk⟩
        · exact .inl rfl
        · exact .inr ⟨ha, hk⟩

/-- Erasing the entry with a key removes the key. -/
theorem Represents.erase (h : Represents key value l m) (k : κ) :
    Represents key value (l.eraseP fun a => key a = k) (Function.update m k none) := by
  refine ⟨h.nodup.sublist (eraseP_sublist.map key), fun k' v => ?_⟩
  rw [Function.update_apply]
  split
  · next hk =>
    refine ⟨fun hv => by simp at hv, ?_⟩
    rintro ⟨a, ha, hka, -⟩
    exact absurd (hka.trans hk) ((mem_eraseP_key h.nodup).mp ha).2
  · next hk =>
    rw [h.lookup k' v]
    constructor
    · rintro ⟨a, ha, rfl, hv⟩
      exact ⟨a, (mem_eraseP_key h.nodup).mpr ⟨ha, hk⟩, rfl, hv⟩
    · rintro ⟨a, ha, hka, hv⟩
      exact ⟨a, ((mem_eraseP_key h.nodup).mp ha).1, hka, hv⟩

/-- A new entry at the end, whose key is not in the map, adds the key. -/
theorem Represents.push (h : Represents key value l m) {a : α} (ha : m (key a) = none) :
    Represents key value (l ++ [a]) (Function.update m (key a) (some (value a))) := by
  have hnew : key a ∉ l.map key := by
    intro hmem
    obtain ⟨b, hb, hk⟩ := mem_map.mp hmem
    exact (h.ne_none_iff _).mpr ⟨b, hb, hk⟩ ha
  refine ⟨?_, fun k v => ?_⟩
  · rw [map_append, map_singleton, nodup_append]
    refine ⟨h.nodup, nodup_singleton _, ?_⟩
    rintro k hk k' hk' rfl
    rw [mem_singleton.mp hk'] at hk
    exact hnew hk
  · rw [Function.update_apply]
    split
    · next hk =>
      constructor
      · intro hv
        exact ⟨a, by simp, hk.symm, Option.some.inj hv⟩
      · rintro ⟨b, hb, hkb, hv⟩
        rcases mem_append.mp hb with hb | hb
        · exact absurd (mem_map.mpr ⟨b, hb, hkb.trans hk⟩) hnew
        · rw [← hv, mem_singleton.mp hb]
    · next hk =>
      rw [h.lookup k v]
      constructor
      · rintro ⟨b, hb, hkb, hv⟩
        exact ⟨b, mem_append_left _ hb, hkb, hv⟩
      · rintro ⟨b, hb, hkb, hv⟩
        rcases mem_append.mp hb with hb | hb
        · exact ⟨b, hb, hkb, hv⟩
        · rw [mem_singleton.mp hb] at hkb
          exact absurd hkb.symm hk

/-- An entry that takes the place of the one with the same key. -/
theorem Represents.replace (h : Represents key value l m) (a : α) :
    Represents key value (l.eraseP (fun b => key b = key a) ++ [a])
      (Function.update m (key a) (some (value a))) := by
  have hpush := (h.erase (key a)).push (a := a) (Function.update_self ..)
  rwa [Function.update_idem] at hpush

end List
