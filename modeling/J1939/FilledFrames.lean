import J1939.FrameCopies
import J1939.SenderCommands

/-!
# Frames filled with values

The frames of the sender are copies of prototypes whose header and values are set one by one. What
makes them a message stays that of the prototype.
-/

namespace J1939

/-! ### Filling frames with values -/

section SameSpns

variable {f g : GenericFrame}

theorem SameSpns.refl (f : GenericFrame) : SameSpns f f := ⟨rfl, rfl⟩

theorem SameSpns.trans {k : GenericFrame} (h : SameSpns f g) (h' : SameSpns g k) : SameSpns f k :=
  ⟨h'.types.trans h.types, h'.firstOffset.trans h.firstOffset⟩

/-- An SPN may be replaced by one of the same type at the same offset. -/
theorem sameSpns_insert {number : UInt32} {old spn : SPN} (hfind : f.spns.find? number = some old)
    (htype : spn.typeOf = old.typeOf) (hoffset : spn.getOffset = old.getOffset) :
    SameSpns f { f with spns := f.spns.insert number spn } := by
  have hentries := @SortedMap.entries_insert_of_find? _ _ _ f.spns number spn old hfind
  have hsame : ∀ {α : Type} (φ : SPN → α), φ spn = φ old →
      (f.spns.insert number spn).entries.map (fun e => (e.1, φ e.2)) =
        f.spns.entries.map fun e => (e.1, φ e.2) := by
    intro α φ hφ
    rw [hentries, List.map_map]
    apply List.map_congr_left
    intro e he
    by_cases hk : e.1 = number
    · have hold := SortedMap.mem_entries_iff.mp he
      rw [hk, hfind] at hold
      simp [hk, hφ, ← Option.some.inj hold]
    · simp [hk]
  refine ⟨hsame SPN.typeOf htype, ?_⟩
  have hoffsets := congrArg (List.map Prod.snd) (hsame SPN.getOffset hoffset)
  rw [List.map_map, List.map_map] at hoffsets
  have hhead := congrArg List.head? hoffsets
  rw [List.head?_map, List.head?_map] at hhead
  rw [firstOffset, firstOffset, SortedMap.values, SortedMap.values, List.head?_map, List.head?_map,
    Option.map_map, Option.map_map]
  exact congrArg (·.getD 0) hhead

theorem SameSpns.setNumericValue (f : GenericFrame) (number value : UInt32) :
    SameSpns f (f.setNumericValue number value) := by
  rw [GenericFrame.setNumericValue]
  split
  · next n hfind => exact sameSpns_insert hfind rfl rfl
  · exact .refl f

theorem SameSpns.setStatusValue (f : GenericFrame) (number : UInt32) (value : UInt8) :
    SameSpns f (f.setStatusValue number value) := by
  rw [GenericFrame.setStatusValue]
  split
  · next s hfind =>
    rw [SPNStatus.setValue]
    split_ifs
    · exact sameSpns_insert hfind rfl rfl
    · exact sameSpns_insert hfind rfl rfl
  · exact .refl f

/-- Computing the offsets again changes neither the types nor the first offset. -/
theorem sameSpns_recalculated (f : GenericFrame) :
    SameSpns f { f with spns := f.spns.setValues (recalculateStringOffsets f.spns.values) } := by
  have hvalues := SortedMap.values_setValues (length_recalculateStringOffsets f.spns.values)
  constructor
  · have hkeys : ∀ m : SortedMap UInt32 SPN, m.entries.map (fun e => (e.1, e.2.typeOf)) =
        (m.entries.map Prod.fst).zip (m.values.map SPN.typeOf) := by
      intro m
      rw [SortedMap.values, List.map_map, List.zip_map']
      rfl
    rw [hkeys, hkeys, hvalues, map_typeOf_recalculated]
    exact congrArg (List.zip · _) (SortedMap.map_fst_setValuesIn _ _)
  · have hhead : ∀ spns : List SPN, (recalculateStringOffsets spns).head? = spns.head? := by
      intro spns
      cases spns <;> rfl
    rw [firstOffset, firstOffset, hvalues, hhead]

theorem SameSpns.setStringValue (f : GenericFrame) (number : UInt32) (value : List UInt8) :
    SameSpns f (f.setStringValue number value) := by
  rcases f.setStringValue_cases number value with hsame | ⟨s, spns, hfind, -, rfl, hset⟩
  · rw [hsame]
    exact .refl f
  · rw [hset]
    have hinsert := @sameSpns_insert f number _ (.string { s with value := value }) hfind rfl rfl
    exact hinsert.trans (sameSpns_recalculated _)

end SameSpns

/-- Setting values keeps all that a frame has from the database. -/
structure KeepsDefinition (f g : GenericFrame) : Prop where
  header : g.toHeader = f.toHeader
  pgn : g.pgn = f.pgn
  length : g.length = f.length
  spns : SameSpns f g

theorem KeepsDefinition.setNumericValue (f : GenericFrame) (number value : UInt32) :
    KeepsDefinition f (f.setNumericValue number value) := by
  have hspns := SameSpns.setNumericValue f number value
  rw [GenericFrame.setNumericValue] at hspns ⊢
  split <;> simp_all only <;> exact ⟨rfl, rfl, rfl, hspns⟩

theorem KeepsDefinition.setStatusValue (f : GenericFrame) (number : UInt32) (value : UInt8) :
    KeepsDefinition f (f.setStatusValue number value) := by
  have hspns := SameSpns.setStatusValue f number value
  rw [GenericFrame.setStatusValue] at hspns ⊢
  split <;> simp_all only <;> exact ⟨rfl, rfl, rfl, hspns⟩

theorem KeepsDefinition.setStringValue (f : GenericFrame) (number : UInt32)
    (value : List UInt8) : KeepsDefinition f (f.setStringValue number value) := by
  have hspns := SameSpns.setStringValue f number value
  rcases f.setStringValue_cases number value with hsame | ⟨s, spns, -, -, -, hset⟩
  · rw [hsame] at hspns ⊢
    exact ⟨rfl, rfl, rfl, hspns⟩
  · rw [hset] at hspns ⊢
    exact ⟨rfl, rfl, rfl, hspns⟩

namespace Frame

/-- The same class, PGN, length and types of the SPNs. A frame without SPNs has nothing that is
set but its header. -/
inductive SameMessage : Frame → Frame → Prop
  | generic {f g : GenericFrame} (hpgn : g.pgn = f.pgn) (hlength : g.length = f.length)
    (hspns : SameSpns f g) : SameMessage (.generic f) (.generic g)
  | dm1 {f g : DM1} (hpgn : g.pgn = f.pgn) (hlength : g.length = f.length)
    (hspns : SameSpns f.toGenericFrame g.toGenericFrame) : SameMessage (.dm1 f) (.dm1 g)
  | other {f : Frame} (hnone : f.asGeneric = none) (h : Header) :
    SameMessage f (J1939.withHeader f h)

/-- The frame is the other one with addresses and values of its own. A new priority has three
bits. -/
structure FilledFrom (origin frame : Frame) : Prop where
  message : origin.SameMessage frame
  name : getName frame = getName origin
  priority : getPriority frame = getPriority origin ∨ getPriority frame ≤ 7

theorem SameMessage.withHeader (f : Frame) (h : Header) :
    f.SameMessage (J1939.withHeader f h) := by
  cases f with
  | generic f => exact .generic rfl rfl ⟨rfl, rfl⟩
  | dm1 f => exact .dm1 rfl rfl ⟨rfl, rfl⟩
  | _ => exact .other rfl h

theorem SameMessage.refl (f : Frame) : f.SameMessage f := by
  have hself := SameMessage.withHeader f (J1939.header f)
  rwa [IsJ1939Frame.withHeader_header] at hself

theorem SameMessage.trans {f g k : Frame} (h : f.SameMessage g) (h' : g.SameMessage k) :
    f.SameMessage k := by
  cases h with
  | generic hpgn hlength hspns =>
    cases h' with
    | generic hpgn' hlength' hspns' =>
      exact .generic (hpgn'.trans hpgn) (hlength'.trans hlength) (hspns.trans hspns')
    | other hnone => cases hnone
  | dm1 hpgn hlength hspns =>
    cases h' with
    | dm1 hpgn' hlength' hspns' =>
      exact .dm1 (hpgn'.trans hpgn) (hlength'.trans hlength) (hspns.trans hspns')
    | other hnone => cases hnone
  | other hnone header =>
    cases f <;> cases hnone <;> cases h' <;> exact .other rfl _

theorem FilledFrom.refl (f : Frame) : f.FilledFrom f := ⟨.refl f, rfl, .inl rfl⟩

theorem FilledFrom.trans {f g k : Frame} (h : f.FilledFrom g) (h' : g.FilledFrom k) :
    f.FilledFrom k := by
  refine ⟨h.message.trans h'.message, h'.name.trans h.name, ?_⟩
  rcases h'.priority with hsame | hle
  · rw [hsame]
    exact h.priority
  · exact .inr hle

theorem SameMessage.getPGN_eq {f g : Frame} (h : f.SameMessage g) : getPGN g = getPGN f := by
  cases h with
  | generic hpgn => exact hpgn
  | dm1 hpgn => exact hpgn
  | other _ header => exact IsJ1939Frame.getPGN_withHeader f header

/-- Changing the header, but for the name. -/
theorem FilledFrom.withHeader {f : Frame} {h : Header} (hname : h.name = getName f)
    (hprio : h.priority = getPriority f ∨ h.priority ≤ 7) :
    f.FilledFrom (J1939.withHeader f h) := by
  have hheader := IsJ1939Frame.header_withHeader f h
  refine ⟨.withHeader f h, (congrArg Header.name hheader).trans hname, ?_⟩
  rwa [← hheader] at hprio

/-- Setting a value. -/
theorem FilledFrom.mapGeneric (f : Frame) {φ : GenericFrame → GenericFrame}
    (hφ : ∀ g, KeepsDefinition g (φ g)) : f.FilledFrom (f.mapGeneric φ) := by
  cases f with
  | generic g =>
    obtain ⟨hheader, hpgn, hlength, hspns⟩ := hφ g
    exact ⟨.generic hpgn hlength hspns, congrArg Header.name hheader,
      .inl (congrArg Header.priority hheader)⟩
  | dm1 g =>
    obtain ⟨hheader, hpgn, hlength, hspns⟩ := hφ g.toGenericFrame
    exact ⟨.dm1 hpgn hlength hspns, congrArg Header.name hheader,
      .inl (congrArg Header.priority hheader)⟩
  | _ => exact .refl _

/-- Changing the trouble codes. -/
theorem FilledFrom.setDtcs (f : DM1) (dtcs : List DTC) :
    (dm1 f).FilledFrom (dm1 { f with dtcs := dtcs }) :=
  ⟨.dm1 rfl rfl ⟨rfl, rfl⟩, rfl, .inl rfl⟩

/-- A frame is taken for a DM1 frame when its prototype is one. -/
theorem FilledFrom.exists_dm1 {f : DM1} {frame : Frame} (h : (dm1 f).FilledFrom frame) :
    ∃ g, frame = dm1 g := by
  cases h.message with
  | dm1 => exact ⟨_, rfl⟩
  | other hnone => cases hnone

end Frame

/-! ### Setting the header -/

theorem le_of_eq_and_priorityMask {n : UInt8} (h : n = n &&& priorityMask) : n ≤ 7 := by
  rw [h]
  exact UInt8.le_iff_toNat_le.mpr (by rw [UInt8.toNat_and]; exact Nat.and_le_right)

namespace Frame

theorem FilledFrom.setPriority (f : Frame) {priority : UInt8}
    (h : priority = priority &&& priorityMask) : f.FilledFrom (J1939.setPriority f priority) :=
  .withHeader rfl (.inr (h ▸ le_of_eq_and_priorityMask h))

theorem FilledFrom.setSrcAddr (f : Frame) (src : UInt8) :
    f.FilledFrom (J1939.setSrcAddr f src) :=
  .withHeader rfl (.inl rfl)

theorem FilledFrom.setDstAddr (f : Frame) (dst : UInt8) :
    f.FilledFrom (J1939.setDstAddr f dst) := by
  rw [J1939.setDstAddr]
  split_ifs
  · exact .withHeader rfl (.inl rfl)
  · exact .refl f

end Frame

end J1939
