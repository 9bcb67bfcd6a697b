import Mathlib.Data.List.Basic

/-!
# Updates that are collected and fetched

A writer collects updates in a shared record. A reader fetches the record from time to time,
which leaves an empty one, and merges what it has fetched later on, in order. What the reader
knows in the end does not depend on when it fetches.
-/

namespace Drain

/-- An update of the record, a fetch, and the merging of the next record that has been fetched. -/
inductive Event (W : Type)
  | write (w : W)
  | fetch
  | merge

/-- The update of an event. -/
def Event.update? {W : Type} : Event W → Option W
  | write w => some w
  | _ => none

/-- The operations on records `Δ` and readers `P`. -/
structure Operations (W Δ P : Type) where
  empty : Δ
  apply : Δ → W → Δ
  merge : P → Δ → P

/-- The shared record, the records that have been fetched, and the reader. -/
structure State (Δ P : Type) where
  record : Δ
  fetched : List Δ := []
  reader : P

variable {W Δ P V : Type} (ops : Operations W Δ P)

namespace State

def step (s : State Δ P) : Event W → State Δ P
  | .write w => { s with record := ops.apply s.record w }
  | .fetch => { s with record := ops.empty, fetched := s.fetched ++ [s.record] }
  | .merge =>
    match s.fetched with
    | [] => s
    | record :: fetched => { s with fetched := fetched, reader := ops.merge s.reader record }

def run (s : State Δ P) (events : List (Event W)) : State Δ P := events.foldl (step ops) s

/-- The reader when it has merged everything. -/
def pending (s : State Δ P) : P := (s.fetched ++ [s.record]).foldl ops.merge s.reader

/-- There is nothing to merge. -/
def Settled (s : State Δ P) : Prop := s.record = ops.empty ∧ s.fetched = []

end State

/-- A view of the reader on which merging a record is making its updates. Only updates that fit
are considered. -/
structure Shows (Fits : W → Prop) (view : P → V) (put : V → W → V) : Prop where
  merge_empty : ∀ p, view (ops.merge p ops.empty) = view p
  merge_apply : ∀ p d w, Fits w → view (ops.merge p (ops.apply d w)) = put (view (ops.merge p d)) w

variable {ops} {Fits : W → Prop} {view : P → V} {put : V → W → V}

theorem Shows.view_step (h : Shows ops Fits view put) (s : State Δ P) {event : Event W}
    (hfits : ∀ w ∈ event.update?, Fits w) :
    view ((s.step ops event).pending ops) = event.update?.elim (view (s.pending ops))
      (put (view (s.pending ops))) := by
  cases event with
  | write w =>
    rw [State.pending, State.step, List.foldl_append]
    exact (h.merge_apply _ _ _ (hfits w rfl)).trans (by rw [State.pending, List.foldl_append]; rfl)
  | fetch =>
    rw [State.pending, State.step, List.foldl_append]
    exact h.merge_empty _
  | merge =>
    rw [State.pending, State.step]
    split
    · next hnil => rw [State.pending, hnil]; rfl
    · next record fetched hcons => rw [State.pending, hcons]; rfl

/-- Whenever the reader fetches and merges, what is pending is what the updates make of it. -/
theorem Shows.view_run (h : Shows ops Fits view put) (s : State Δ P) {events : List (Event W)}
    (hfits : ∀ w ∈ events.filterMap Event.update?, Fits w) :
    view ((s.run ops events).pending ops) =
      (events.filterMap Event.update?).foldl put (view (s.pending ops)) := by
  induction events generalizing s with
  | nil => rfl
  | cons event events ih =>
    have hstep : view ((s.step ops event).pending ops) = _ :=
      h.view_step s fun w hw => hfits w (List.mem_filterMap.mpr ⟨event, List.mem_cons_self, hw⟩)
    have hrest := ih (s.step ops event) fun w hw => hfits w (by
      obtain ⟨event', hmem, hw'⟩ := List.mem_filterMap.mp hw
      exact List.mem_filterMap.mpr ⟨event', List.mem_cons_of_mem _ hmem, hw'⟩)
    rw [State.run, List.foldl_cons]
    refine hrest.trans ?_
    rw [hstep, List.filterMap_cons]
    cases event.update? <;> rfl

/-- A reader with nothing to merge shows what is pending. -/
theorem Shows.view_settled (h : Shows ops Fits view put) {s : State Δ P} (hs : s.Settled ops) :
    view s.reader = view (s.pending ops) := by
  rw [State.pending, hs.1, hs.2]
  exact (h.merge_empty s.reader).symm

/-- A fetch and enough merges settle. -/
theorem settled_of_fetch (s : State Δ P) {n : ℕ} (hn : s.fetched.length < n) :
    (s.run ops (.fetch :: List.replicate n (.merge : Event W))).Settled ops := by
  have hmerges : ∀ (n : ℕ) (s : State Δ P), s.record = ops.empty → s.fetched.length ≤ n →
      (s.run ops (List.replicate n (.merge : Event W))).Settled ops := by
    intro n
    induction n with
    | zero => exact fun s hrecord hle => ⟨hrecord, List.length_eq_zero_iff.mp (Nat.le_zero.mp hle)⟩
    | succ n ih =>
      intro s hrecord hle
      rw [List.replicate_succ, State.run, List.foldl_cons]
      apply ih
      · rw [State.step]
        split <;> exact hrecord
      · rw [State.step]
        split
        · next hnil => rw [hnil]; exact Nat.zero_le n
        · next record fetched hcons =>
          rw [hcons, List.length_cons] at hle
          exact Nat.le_of_succ_le_succ hle
  rw [State.run, List.foldl_cons]
  apply hmerges n _ rfl
  rw [State.step, List.length_append]
  exact hn

end Drain
