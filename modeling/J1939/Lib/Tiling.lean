import Mathlib.Algebra.BigOperators.Group.List.Basic
import Mathlib.Algebra.Group.Embedding
import Mathlib.Algebra.Order.Monoid.Defs
import Mathlib.Algebra.Order.Ring.Nat
import Mathlib.Data.Finset.Card
import Mathlib.Data.Finset.Lattice.Basic

/-!
# Pieces on a line

Pieces that are laid in order, none over another, are determined by the cells that they cover
together.
-/

namespace Tiling

variable {α : Type*} [AddCommMonoid α] [LinearOrder α] [IsOrderedCancelAddMonoid α]

/-- A pattern of cells, the first of them at an offset. -/
structure Piece (α : Type*) [AddCommMonoid α] [LinearOrder α] where
  offset : α
  cells : Finset α
  zero_mem : 0 ∈ cells
  nonneg : ∀ c ∈ cells, 0 ≤ c

namespace Piece

/-- The cells that a piece covers at its offset. -/
def covered (p : Piece α) : Finset α := p.cells.map (addLeftEmbedding p.offset)

theorem mem_covered {p : Piece α} {k : α} : k ∈ p.covered ↔ ∃ c ∈ p.cells, p.offset + c = k := by
  rw [covered, Finset.mem_map]
  rfl

theorem offset_mem_covered (p : Piece α) : p.offset ∈ p.covered :=
  mem_covered.mpr ⟨0, p.zero_mem, add_zero _⟩

theorem offset_le {p : Piece α} {k : α} (h : k ∈ p.covered) : p.offset ≤ k := by
  obtain ⟨c, hc, rfl⟩ := mem_covered.mp h
  exact le_add_of_nonneg_right (p.nonneg c hc)

theorem card_covered (p : Piece α) : p.covered.card = p.cells.card := Finset.card_map _

end Piece

/-- The cells that some piece covers. -/
def covered : List (Piece α) → Finset α
  | [] => ∅
  | p :: ps => p.covered ∪ covered ps

theorem mem_covered {ps : List (Piece α)} {k : α} :
    k ∈ covered ps ↔ ∃ p ∈ ps, k ∈ p.covered := by
  induction ps with
  | nil => simp [covered]
  | cons p ps ih => rw [covered, Finset.mem_union, ih, List.exists_mem_cons_iff]

/-- The pieces lie in the order of their offsets. -/
def Ordered (ps : List (Piece α)) : Prop := ps.Pairwise fun p q => p.offset ≤ q.offset

/-- No piece lies over another one. -/
def Apart (ps : List (Piece α)) : Prop := ps.Pairwise fun p q => Disjoint p.covered q.covered

theorem Apart.disjoint_rest {p : Piece α} {ps : List (Piece α)} (h : Apart (p :: ps)) :
    Disjoint p.covered (covered ps) := by
  rw [Finset.disjoint_left]
  intro k hk hrest
  obtain ⟨q, hq, hkq⟩ := mem_covered.mp hrest
  exact Finset.disjoint_left.mp ((List.pairwise_cons.mp h).1 q hq) hk hkq

theorem card_covered_le (ps : List (Piece α)) :
    (covered ps).card ≤ (ps.map fun p => p.cells.card).sum := by
  induction ps with
  | nil => simp [covered]
  | cons p ps ih =>
    rw [covered, List.map_cons, List.sum_cons, ← p.card_covered]
    exact (Finset.card_union_le _ _).trans (Nat.add_le_add_left ih _)

theorem Apart.card_covered {ps : List (Piece α)} (h : Apart ps) :
    (covered ps).card = (ps.map fun p => p.cells.card).sum := by
  induction ps with
  | nil => rfl
  | cons p ps ih =>
    rw [covered, Finset.card_union_of_disjoint h.disjoint_rest, ih (List.pairwise_cons.mp h).2,
      p.card_covered, List.map_cons, List.sum_cons]

/-- The first of ordered pieces begins at the least covered cell. -/
theorem Ordered.offset_le {p : Piece α} {ps : List (Piece α)} (h : Ordered (p :: ps)) {k : α}
    (hk : k ∈ covered (p :: ps)) : p.offset ≤ k := by
  obtain ⟨q, hq, hkq⟩ := mem_covered.mp hk
  rcases List.mem_cons.mp hq with rfl | hin
  · exact Piece.offset_le hkq
  · exact ((List.pairwise_cons.mp h).1 q hin).trans (Piece.offset_le hkq)

theorem first_mem_covered (p : Piece α) (ps : List (Piece α)) : p.offset ∈ covered (p :: ps) :=
  mem_covered.mpr ⟨p, List.mem_cons_self .., p.offset_mem_covered⟩

/-- The same pieces cover the same cells in one order only. -/
theorem offsets_eq_of_covered {ps qs : List (Piece α)} (hps : Ordered ps) (hqs : Ordered qs)
    (hcells : ps.map Piece.cells = qs.map Piece.cells) (happart : Apart qs)
    (hcovered : covered ps = covered qs) : ps.map Piece.offset = qs.map Piece.offset := by
  induction ps generalizing qs with
  | nil =>
    cases qs with
    | nil => rfl
    | cons q qs => cases hcells
  | cons p ps ih =>
    cases qs with
    | nil => cases hcells
    | cons q qs =>
      rw [List.map_cons, List.map_cons, List.cons.injEq] at hcells
      obtain ⟨hcell, hrest⟩ := hcells
      have hfirst : p.offset = q.offset := by
        apply le_antisymm
        · exact hps.offset_le (hcovered ▸ first_mem_covered q qs)
        · exact hqs.offset_le (hcovered ▸ first_mem_covered p ps)
      have hpiece : p.covered = q.covered := by rw [Piece.covered, Piece.covered, hfirst, hcell]
      have happart' := List.pairwise_cons.mp happart
      -- there is no room for the rest but the cells that the other rest covers
      have hsub : covered qs ⊆ covered ps := by
        intro k hk
        have hall : k ∈ covered (p :: ps) := by
          rw [hcovered]
          exact Finset.mem_union_right _ hk
        rcases Finset.mem_union.mp hall with hin | hin
        · rw [hpiece] at hin
          exact absurd hk (Finset.disjoint_left.mp happart.disjoint_rest hin)
        · exact hin
      have hcard : (covered ps).card ≤ (covered qs).card := by
        have hsizes := congrArg (fun cells => (cells.map Finset.card).sum) hrest
        simp only [List.map_map, Function.comp_def] at hsizes
        rw [Apart.card_covered happart'.2, ← hsizes]
        exact card_covered_le ps
      have hsame : covered ps = covered qs := (Finset.eq_of_subset_of_card_le hsub hcard).symm
      rw [List.map_cons, List.map_cons, hfirst, ih (List.pairwise_cons.mp hps).2
        (List.pairwise_cons.mp hqs).2 hrest happart'.2 hsame]

end Tiling
