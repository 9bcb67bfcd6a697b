import J1939.Acceptance
import J1939.DataBase

/-!
# Frames as the parser leaves them

The SPNs of a frame from the database are as their constructors left them, but for the offsets
of strings. Registering them again in order puts the same frame together.
-/

namespace J1939

/-! ### Offsets -/

@[simp] theorem setOffset_setOffset (spn : SPN) (a b : ℕ) :
    (spn.setOffset a).setOffset b = spn.setOffset b := by
  cases spn <;> rfl

theorem setOffset_getOffset (spn : SPN) : spn.setOffset spn.getOffset = spn := by
  cases spn <;> rfl

@[simp] theorem isString_setOffset (spn : SPN) (a : ℕ) :
    (spn.setOffset a).isString = spn.isString := by
  cases spn <;> rfl

@[simp] theorem getSpnNumber_setOffset (spn : SPN) (a : ℕ) :
    (spn.setOffset a).getSpnNumber = spn.getSpnNumber := by
  cases spn <;> rfl

/-- The SPNs without their places. -/
def unplaced (spns : List SPN) : List SPN := spns.map fun spn => spn.setOffset 0

theorem recalculateFrom_congr {next : ℕ} {spns spns' : List SPN}
    (h : unplaced spns = unplaced spns') :
    recalculateFrom next spns = recalculateFrom next spns' := by
  induction spns generalizing next spns' with
  | nil =>
    obtain rfl := List.map_eq_nil_iff.mp h.symm
    rfl
  | cons spn spns ih =>
    obtain ⟨spn', rest, rfl, hspn, hrest⟩ := List.map_eq_cons_iff.mp h.symm
    have hmoved : spn.setOffset next = spn'.setOffset next := by
      have := congrArg (SPN.setOffset next) hspn
      rw [setOffset_setOffset, setOffset_setOffset] at this
      exact this.symm
    rw [recalculateFrom, recalculateFrom, hmoved]
    exact congrArg _ (ih hrest.symm)

/-- The recomputation looks at the offset of the first SPN only. -/
theorem recalculateStringOffsets_congr {spns spns' : List SPN} (h : unplaced spns = unplaced spns')
    (hfirst : spns.head?.map SPN.getOffset = spns'.head?.map SPN.getOffset) :
    recalculateStringOffsets spns = recalculateStringOffsets spns' := by
  cases spns with
  | nil =>
    obtain rfl := List.map_eq_nil_iff.mp h.symm
    rfl
  | cons spn spns =>
    obtain ⟨spn', rest, rfl, hspn, hrest⟩ := List.map_eq_cons_iff.mp h.symm
    have hoffset : spn.getOffset = spn'.getOffset := Option.some.inj hfirst
    have hsame : spn = spn' := by
      rw [← setOffset_getOffset spn, ← setOffset_getOffset spn', ← setOffset_setOffset spn 0,
        ← setOffset_setOffset spn' 0, hoffset, hspn]
    rw [recalculateStringOffsets, recalculateStringOffsets, hsame]
    exact congrArg _ (recalculateFrom_congr hrest.symm)

theorem unplaced_recalculateFrom (next : ℕ) (spns : List SPN) :
    unplaced (recalculateFrom next spns) = unplaced spns := by
  induction spns generalizing next with
  | nil => rfl
  | cons spn spns ih =>
    rw [recalculateFrom]
    exact congrArg₂ List.cons (setOffset_setOffset spn next 0) (ih _)

theorem unplaced_recalculateStringOffsets (spns : List SPN) :
    unplaced (recalculateStringOffsets spns) = unplaced spns := by
  cases spns with
  | nil => rfl
  | cons spn spns => exact congrArg (List.cons _) (unplaced_recalculateFrom _ spns)

theorem head?_recalculateStringOffsets (spns : List SPN) :
    (recalculateStringOffsets spns).head? = spns.head? := by
  cases spns <;> rfl

/-- The offsets of SPNs that are no strings are kept. -/
theorem recalculateStringOffsets_of_fixed {spns : List SPN}
    (h : ∀ spn ∈ spns, spn.isString = false) : recalculateStringOffsets spns = spns := by
  have hfixed : ∀ (spn : SPN) (a : ℕ), spn.isString = false → spn.setOffset a = spn := by
    intro spn a hspn
    cases spn with
    | string s => cases hspn
    | _ => rfl
  have hfrom : ∀ next, ∀ spns : List SPN, (∀ spn ∈ spns, spn.isString = false) →
      recalculateFrom next spns = spns := by
    intro next spns hspns
    induction spns generalizing next with
    | nil => rfl
    | cons spn spns ih =>
      rw [List.forall_mem_cons] at hspns
      rw [recalculateFrom, hfixed spn next hspns.1, ih _ hspns.2]
  cases spns with
  | nil => rfl
  | cons spn spns =>
    rw [List.forall_mem_cons] at h
    rw [recalculateStringOffsets, hfrom _ spns h.2]

/-- Strings stand one behind the other from offset 0 on. -/
def Placed (spns : List SPN) : Prop := recalculateStringOffsets (unplaced spns) = spns

theorem placed_recalculateStringOffsets {spns : List SPN}
    (h : ∀ spn ∈ spns.head?, spn.setOffset 0 = spn) : Placed (recalculateStringOffsets spns) := by
  rw [Placed, unplaced_recalculateStringOffsets]
  refine recalculateStringOffsets_congr ?_ ?_
  · simp [unplaced]
  · rw [unplaced, List.head?_map]
    cases hhead : spns.head? with
    | none => rfl
    | some spn =>
      rw [Option.map_some, Option.map_some, Option.map_some, h spn hhead]

/-! ### Registering an SPN -/

/-- An SPN as its constructor leaves it, with an offset that the parser can read. -/
def SPN.Fresh : SPN → Prop
  | .numeric n => n.spec.offset < 2 ^ 32 ∧ n = { spec := n.spec, numSpec := n.numSpec }
  | .status s => s.spec.offset < 2 ^ 32 ∧ s = { spec := s.spec, statSpec := s.statSpec }
  | .string s => s.spec.offset = 0 ∧ s = { spec := s.spec, offset := s.offset }

theorem fresh_setOffset (spn : SPN) (a : ℕ) : (spn.setOffset a).Fresh ↔ spn.Fresh := by
  cases spn with
  | string s =>
    refine and_congr_right fun _ => ⟨fun h => ?_, fun h => ?_⟩
    · have hvalue : s.value = [] := (SPNString.mk.inj h).2.2
      rw [← hvalue]
    · have hvalue : s.value = [] := by rw [h]
      rw [hvalue]
  | _ => rfl

/-- The SPNs of a frame that the parser has put together. -/
structure ParsedSpns (spns : SortedMap UInt32 SPN) : Prop where
  keys : ∀ e ∈ spns.entries, e.1 = e.2.getSpnNumber
  fresh : ∀ spn ∈ spns.values, spn.Fresh
  placed : Placed spns.values

theorem keys_iff (spns : SortedMap UInt32 SPN) :
    (∀ e ∈ spns.entries, e.1 = e.2.getSpnNumber) ↔
      spns.entries.map Prod.fst = spns.values.map SPN.getSpnNumber := by
  rw [SortedMap.values, List.map_map]
  exact List.map_inj_left.symm

theorem parsedSpns_empty : ParsedSpns ∅ := ⟨by simp, by simp [SortedMap.values], rfl⟩

theorem setValues_values_self (spns : SortedMap UInt32 SPN) : spns.setValues spns.values = spns :=
  SortedMap.setValues_values rfl

section Register

variable {frame : GenericFrame} {spn : SPN}

/-- Registering recomputes the offsets, which does nothing for SPNs that are no strings. -/
theorem registerSPN_eq (h : frame.Uniform) (hassert : frame.registerAssertion spn) :
    frame.registerSPN spn =
      { frame with
        spns := (registeredSpns frame.spns spn).setValues
          (recalculateStringOffsets (registeredSpns frame.spns spn).values) } := by
  rw [registerSPN_eq_ite]
  split_ifs with hstring
  · rfl
  · rw [recalculateStringOffsets_of_fixed, setValues_values_self]
    intro x hx
    rw [isString_registeredSpns h hassert x hx]
    simpa using hstring

theorem ParsedSpns.registerSPN (h : ParsedSpns frame.spns) (huniform : frame.Uniform)
    (hassert : frame.registerAssertion spn) (hfresh : spn.Fresh)
    (hunplaced : spn.setOffset 0 = spn) : ParsedSpns (frame.registerSPN spn).spns := by
  obtain ⟨S, hS⟩ : ∃ S, S = registeredSpns frame.spns spn := ⟨_, rfl⟩
  have hspns : (frame.registerSPN spn).spns = S.setValues (recalculateStringOffsets S.values) := by
    rw [registerSPN_eq huniform hassert, hS]
  have hvalues : (S.setValues (recalculateStringOffsets S.values)).values =
      recalculateStringOffsets S.values :=
    SortedMap.values_setValues (length_recalculateStringOffsets _)
  have hkeys : ∀ e ∈ S.entries, e.1 = e.2.getSpnNumber := by
    rw [hS, registeredSpns]
    cases frame.spns.find? spn.getSpnNumber with
    | none =>
      intro e he
      rcases SortedMap.mem_insertIn he with rfl | he
      · rfl
      · exact h.keys e he
    | some _ => exact h.keys
  have hfreshS : ∀ x ∈ S.values, x.Fresh := by
    rw [hS, registeredSpns]
    cases frame.spns.find? spn.getSpnNumber with
    | none => exact forall_values_insert h.fresh hfresh
    | some _ => exact h.fresh
  rw [hspns]
  constructor
  · -- numbers are kept by the recomputation, and so are the keys
    have hnumbers : (recalculateStringOffsets S.values).map SPN.getSpnNumber =
        S.values.map SPN.getSpnNumber := by
      have hunplacedMap : ∀ l : List SPN, l.map SPN.getSpnNumber =
          (unplaced l).map SPN.getSpnNumber := by
        intro l
        simp [unplaced]
      rw [hunplacedMap, unplaced_recalculateStringOffsets, ← hunplacedMap]
    rw [keys_iff, hvalues, hnumbers, ← (keys_iff S).mp hkeys]
    exact SortedMap.map_fst_setValuesIn _ _
  · rw [hvalues]
    intro x hx
    have hmem := List.mem_map_of_mem (f := fun x : SPN => x.setOffset 0) hx
    rw [← unplaced, unplaced_recalculateStringOffsets] at hmem
    obtain ⟨y, hy, hyx⟩ := List.mem_map.mp hmem
    rw [← fresh_setOffset x 0, ← hyx, fresh_setOffset]
    exact hfreshS y hy
  · rw [hvalues]
    refine placed_recalculateStringOffsets ?_
    rw [hS]
    refine head?_registeredSpns (fun x hx => ?_) hunplaced
    have hplaced := h.placed
    rw [Placed] at hplaced
    rw [← hplaced, head?_recalculateStringOffsets, unplaced, List.head?_map] at hx
    obtain ⟨y, -, rfl⟩ := Option.mem_map.mp hx
    exact setOffset_setOffset y 0 0

end Register

/-! ### Registering all SPNs again -/

/-- The first SPNs of a frame have been registered again, in order. -/
structure Filled (spns : SortedMap UInt32 SPN) (done : List (UInt32 × SPN)) : Prop where
  keys : spns.entries.map Prod.fst = done.map Prod.fst
  values : spns.values = recalculateStringOffsets (unplaced (done.map Prod.snd))

/-- The frame is complete when all of them are. -/
theorem Filled.eq {spns target : SortedMap UInt32 SPN} (h : Filled spns target.entries)
    (hplaced : Placed target.values) : spns = target := by
  have hvalues : spns.values = target.values := h.values.trans hplaced
  rw [← setValues_values_self spns, hvalues]
  exact SortedMap.setValues_values h.keys

section Refill

variable {target : SortedMap UInt32 SPN} {done rest : List (UInt32 × SPN)} {e : UInt32 × SPN}

/-- One more SPN goes behind the others. -/
theorem Filled.register {frame : GenericFrame} (h : Filled frame.spns done)
    (hlt : ∀ d ∈ done, d.1 < e.1) (hkey : e.1 = e.2.getSpnNumber) {b : Bool}
    (hdone : ∀ d ∈ done, d.2.isString = b) (he : e.2.isString = b) :
    ∃ spns, frame.register (e.2.setOffset 0) = .ok { frame with spns := spns } ∧
      Filled spns (done ++ [e]) := by
  have hvalues : ∀ x ∈ frame.spns.values, x.isString = b := by
    rw [h.values]
    refine isString_recalculateStringOffsets fun x hx => ?_
    obtain ⟨y, hy, rfl⟩ := List.mem_map.mp hx
    obtain ⟨d, hd, rfl⟩ := List.mem_map.mp hy
    rw [isString_setOffset, hdone d hd]
  have huniform : frame.Uniform := by
    cases b with
    | true => exact .inl hvalues
    | false => exact .inr hvalues
  have hassert : frame.registerAssertion (e.2.setOffset 0) := by
    intro first hfirst
    rw [hvalues first (List.mem_of_mem_head? hfirst), isString_setOffset, he]
  have hbelow : ∀ d ∈ frame.spns.entries, d.1 < e.1 := by
    intro d hd
    have hmem := List.mem_map_of_mem (f := Prod.fst) hd
    rw [h.keys] at hmem
    obtain ⟨d', hd', heq⟩ := List.mem_map.mp hmem
    rw [← heq]
    exact hlt d' hd'
  have hnone : frame.spns.find? e.1 = none := by
    cases hfind : frame.spns.find? e.1 with
    | none => rfl
    | some x => exact absurd (hbelow _ (SortedMap.findIn_eq_some_mem hfind)) (lt_irrefl _)
  obtain ⟨S, hS⟩ : ∃ S, S = registeredSpns frame.spns (e.2.setOffset 0) := ⟨_, rfl⟩
  have hentries : S.entries = frame.spns.entries ++ [(e.1, e.2.setOffset 0)] := by
    rw [hS, registeredSpns, getSpnNumber_setOffset, ← hkey, hnone]
    exact SortedMap.entries_insert_of_lt hbelow
  have hSvalues : S.values = frame.spns.values ++ [e.2.setOffset 0] := by
    simp [SortedMap.values, hentries]
  refine ⟨S.setValues (recalculateStringOffsets S.values), ?_, ?_, ?_⟩
  · rw [GenericFrame.register, if_pos hassert, registerSPN_eq huniform hassert, hS]
  · refine (SortedMap.map_fst_setValuesIn _ _).trans ?_
    rw [hentries, List.map_append, h.keys, List.map_append]
    rfl
  · rw [SortedMap.values_setValues (length_recalculateStringOffsets _), hSvalues, h.values]
    refine recalculateStringOffsets_congr ?_ ?_
    · rw [unplaced, List.map_append, ← unplaced, unplaced_recalculateStringOffsets]
      simp [unplaced]
    · rw [List.map_append, unplaced, unplaced, List.map_append, List.head?_append,
        List.head?_append, head?_recalculateStringOffsets]
      rfl

/-- Registering the SPNs of a frame in order puts them together again. -/
theorem foldlM_register {frame : GenericFrame} {b : Bool}
    (hsorted : (done ++ rest).Pairwise fun d e => d.1 < e.1)
    (hkeys : ∀ e ∈ rest, e.1 = e.2.getSpnNumber)
    (hstring : ∀ e ∈ done ++ rest, e.2.isString = b) (h : Filled frame.spns done) :
    ∃ spns, (rest.map fun e => e.2.setOffset 0).foldlM GenericFrame.register frame =
        .ok { frame with spns := spns } ∧ Filled spns (done ++ rest) := by
  induction rest generalizing done frame with
  | nil => exact ⟨frame.spns, rfl, by rwa [List.append_nil]⟩
  | cons e rest ih =>
    rw [List.forall_mem_cons] at hkeys
    have hlt : ∀ d ∈ done, d.1 < e.1 := fun d hd =>
      (List.pairwise_append.mp hsorted).2.2 d hd e List.mem_cons_self
    obtain ⟨spns, hregister, hfilled⟩ := h.register hlt hkeys.1
      (fun d hd => hstring d (List.mem_append_left _ hd))
      (hstring e (List.mem_append_right _ List.mem_cons_self))
    have hsplit : done ++ e :: rest = done ++ [e] ++ rest := by simp
    rw [hsplit] at hsorted hstring ⊢
    obtain ⟨spns', hfold, hfilled'⟩ :=
      @ih (done ++ [e]) { frame with spns := spns } hsorted hkeys.2 hstring hfilled
    refine ⟨spns', ?_, hfilled'⟩
    rw [List.map_cons, List.foldlM_cons, hregister]
    exact hfold

/-- The SPNs of a frame that the parser has put together, registered on an empty one. -/
theorem ParsedSpns.foldlM_register {frame : GenericFrame} (h : ParsedSpns target)
    (huniform : GenericFrame.Uniform { pgn := 0, spns := target }) (hempty : frame.spns = ∅) :
    (target.values.map fun spn => spn.setOffset 0).foldlM GenericFrame.register frame =
      .ok { frame with spns := target } := by
  obtain ⟨b, hb⟩ : ∃ b, ∀ spn ∈ target.values, spn.isString = b :=
    huniform.elim (fun h => ⟨true, h⟩) fun h => ⟨false, h⟩
  have hfilled : Filled frame.spns [] := by
    rw [hempty]
    exact ⟨rfl, rfl⟩
  obtain ⟨spns, hfold, hall⟩ := @J1939.foldlM_register [] target.entries frame b
    target.sorted h.keys (fun e he => hb _ (List.mem_map_of_mem he)) hfilled
  obtain rfl := Filled.eq hall h.placed
  rw [SortedMap.values, List.map_map]
  exact hfold

end Refill

end J1939
