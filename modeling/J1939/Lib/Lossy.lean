import J1939.Lib.Keyed
import Mathlib.Data.List.Forall2
import Mathlib.Logic.Relation

/-!
# Transfers over a channel that loses packets

A transfer is an announcement and its packets in order. A receiver that passes over every packet
but the one it waits for, and starts afresh with every announcement, does not mind what a channel
loses, repeats or reorders behind an announcement: a transfer has its one result if its packets
are among what arrives, in order, and else it has none and does no harm to the next one.
-/

/-! ### Related lists -/

section Related

variable {α β δ : Type} {R : α → β → Prop} {S : β → δ → Prop} {as : List α} {bs : List β}
  {ds : List δ}

theorem List.Forall₂.forall_right {P : β → Prop} (h : List.Forall₂ R as bs)
    (hP : ∀ a ∈ as, ∀ b, R a b → P b) : ∀ b ∈ bs, P b := by
  induction h with
  | nil => nofun
  | cons hab _ ih =>
    rw [List.forall_mem_cons] at hP ⊢
    exact ⟨hP.1 _ hab, ih hP.2⟩

theorem List.Forall₂.comp (h : List.Forall₂ R as bs) (h' : List.Forall₂ S bs ds) :
    List.Forall₂ (Relation.Comp R S) as ds := by
  induction h generalizing ds with
  | nil =>
    rw [List.forall₂_nil_left_iff] at h'
    exact h' ▸ .nil
  | cons hab _ ih =>
    obtain ⟨d, ds, hbd, hrest, rfl⟩ := List.forall₂_cons_left_iff.mp h'
    exact .cons ⟨_, hab, hbd⟩ (ih hrest)

end Related

namespace Lossy

/-- The results of a run. -/
def results {σ ι o : Type} (step : σ → ι → σ × Option o) (s : σ) (is : List ι) : List o :=
  (runMachine step s is).2.filterMap Prod.snd

section Results

variable {σ ι o : Type} {step : σ → ι → σ × Option o}

theorem results_cons (s : σ) (i : ι) (is : List ι) :
    results step s (i :: is) = (step s i).2.toList ++ results step (step s i).1 is := by
  rw [results, runMachine_cons, List.filterMap_cons]
  cases (step s i).2 <;> rfl

theorem results_append (s : σ) (is js : List ι) :
    results step s (is ++ js) = results step s is ++ results step (runMachine step s is).1 js := by
  rw [results, runMachine_append, List.filterMap_append]
  rfl

/-- Inputs that have no effect have no result. -/
theorem results_of_ignored {s : σ} {is : List ι} (h : ∀ i ∈ is, step s i = (s, none)) :
    results step s is = [] := by
  induction is with
  | nil => rfl
  | cons i is ih =>
    rw [List.forall_mem_cons] at h
    rw [results_cons, h.1]
    exact ih h.2

end Results

/-- What a receiver makes of one transfer. Its inputs are seen as what they are on the wire; the
state counts the packets that it has. -/
structure Transfer {σ ι o : Type} (γ : Type) (step : σ → ι → σ × Option o) (wire : ι → γ) where
  announcement : γ
  packets : List γ
  state : ℕ → σ
  good : o → Prop
  opens : ∀ s i, wire i = announcement → step s i = (state 0, none)
  next : ∀ k i, k + 1 < packets.length → packets[k]? = some (wire i) →
    step (state k) i = (state (k + 1), none)
  last : ∀ k i, k + 1 = packets.length → packets[k]? = some (wire i) →
    ∃ s out, step (state k) i = (s, some out) ∧ good out ∧
      ∀ i', wire i' ∈ packets → step s i' = (s, none)
  waits : ∀ k i, wire i ∈ packets → packets[k]? ≠ some (wire i) → step (state k) i = (state k, none)

variable {σ ι o γ : Type} {step : σ → ι → σ × Option o} {wire : ι → γ}

/-- The packets from the first `k` on have their result if they arrive in order, and none if they
do not. -/
theorem Transfer.results_packets (t : Transfer γ step wire) {k : ℕ} (hk : k < t.packets.length)
    {is : List ι} (h : ∀ i ∈ is, wire i ∈ t.packets) :
    ((t.packets.drop k).Sublist (is.map wire) →
        ∃ out, results step (t.state k) is = [out] ∧ t.good out) ∧
      (¬(t.packets.drop k).Sublist (is.map wire) → results step (t.state k) is = []) := by
  induction is generalizing k with
  | nil =>
    have hne : ¬(t.packets.drop k).Sublist [] := by
      rw [List.sublist_nil, List.drop_eq_nil_iff]
      omega
    exact ⟨fun hsub => absurd hsub hne, fun _ => rfl⟩
  | cons i is ih =>
    rw [List.forall_mem_cons] at h
    rw [results_cons, List.map_cons]
    by_cases hpacket : t.packets[k]? = some (wire i)
    · have hdrop : t.packets.drop k = wire i :: t.packets.drop (k + 1) := by
        rw [List.drop_eq_getElem?_toList_append, hpacket]
        rfl
      rw [hdrop, List.cons_sublist_cons]
      by_cases hlast : k + 1 = t.packets.length
      · obtain ⟨s, out, hstep, hgood, hover⟩ := t.last k i hlast hpacket
        have hnil : t.packets.drop (k + 1) = [] := List.drop_eq_nil_of_le (by omega)
        rw [hstep, hnil, results_of_ignored fun i' hi' => hover i' (h.2 i' hi')]
        exact ⟨fun _ => ⟨out, rfl, hgood⟩, fun hsub => absurd (List.nil_sublist _) hsub⟩
      · rw [t.next k i (by omega) hpacket]
        exact ih (by omega) h.2
    · -- another packet than the one that is waited for
      have hskip : (t.packets.drop k).Sublist (wire i :: is.map wire) ↔
          (t.packets.drop k).Sublist (is.map wire) := by
        rw [List.sublist_cons_iff, or_iff_left]
        rintro ⟨rest, hdrop, -⟩
        rw [← List.head?_drop, hdrop, List.head?_cons] at hpacket
        exact hpacket rfl
      rw [hskip, t.waits k i h.1 hpacket]
      exact ih hk h.2

/-- A transfer with what arrives behind its announcement. -/
structure Attempt {σ ι o : Type} (γ : Type) (step : σ → ι → σ × Option o) (wire : ι → γ) where
  transfer : Transfer γ step wire
  got : List γ
  got_subset : got ⊆ transfer.packets
  packets_ne_nil : transfer.packets ≠ []

namespace Attempt

/-- What arrives. -/
def arrived (a : Attempt γ step wire) : List γ := a.transfer.announcement :: a.got

variable [DecidableEq γ]

/-- The packets arrive in order, whatever else does. -/
def Complete (a : Attempt γ step wire) : Prop := a.transfer.packets.Sublist a.got

instance (a : Attempt γ step wire) : Decidable a.Complete :=
  inferInstanceAs (Decidable (List.Sublist _ _))

/-- An attempt has its result if it is complete, whatever has been before. -/
theorem results_arrived (a : Attempt γ step wire) (s : σ) {is : List ι}
    (h : is.map wire = a.arrived) :
    List.Forall₂ (fun (b : Attempt γ step wire) out => b.transfer.good out)
      ([a].filter fun b => b.Complete) (results step s is) := by
  obtain ⟨i, is, rfl, hi, hgot⟩ := List.map_eq_cons_iff.mp h
  have hpackets := a.transfer.results_packets (List.length_pos_iff.mpr a.packets_ne_nil)
    fun i' hi' => a.got_subset (hgot ▸ List.mem_map_of_mem hi')
  rw [hgot, List.drop_zero] at hpackets
  rw [results_cons, a.transfer.opens s i hi]
  by_cases hcomplete : a.Complete
  · obtain ⟨out, hout, hgood⟩ := hpackets.1 hcomplete
    rw [List.filter_cons_of_pos (by simpa using hcomplete), hout]
    exact .cons hgood .nil
  · rw [List.filter_cons_of_neg (by simpa using hcomplete), hpackets.2 hcomplete]
    exact .nil

/-- Attempt after attempt, the results are those of the complete ones, in order. -/
theorem results_attempts (attempts : List (Attempt γ step wire)) (s : σ) {is : List ι}
    (h : is.map wire = attempts.flatMap arrived) :
    List.Forall₂ (fun (a : Attempt γ step wire) out => a.transfer.good out)
      (attempts.filter fun a => a.Complete) (results step s is) := by
  induction attempts generalizing s is with
  | nil =>
    obtain rfl : is = [] := List.map_eq_nil_iff.mp h
    exact .nil
  | cons a attempts ih =>
    obtain ⟨is₁, is₂, rfl, hfirst, hrest⟩ := List.map_eq_append_iff.mp h
    rw [results_append, ← List.singleton_append, List.filter_append]
    exact List.rel_append (a.results_arrived s hfirst) (ih _ hrest)

end Attempt

end Lossy
