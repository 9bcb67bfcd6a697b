import J1939.FrameOperations

/-!
# The announced length

`getDataLength` reaches to the end of the last SPN. An SPN that begins earlier may end later, and
the size of a long string is cut to a byte.
-/

namespace J1939

/-- Whether an exception of `encode` says that the buffer is too short. -/
def J1939Exception.isLength : J1939Exception → Bool
  | .encodeLength | .spnEncodeOffset .. | .numericEncodeLength | .stringEncodeLength => true
  | _ => false

namespace SPN

/-- The bytes that `encode` needs for an SPN. -/
def size : SPN → ℕ
  | numeric n => n.getByteSize.toNat
  | status _ => 1
  | string s => s.value.length + 1

/-- The value passes the test of its setter. -/
def ValueAccepted : SPN → Prop
  | numeric _ => True
  | status s => (status s).ValueFits
  | string s => s.value.all SPNString.isAscii = true

instance : (spn : SPN) → Decidable spn.ValueAccepted
  | numeric _ => inferInstanceAs (Decidable True)
  | status s => inferInstanceAs (Decidable (status s).ValueFits)
  | string s => inferInstanceAs (Decidable (s.value.all SPNString.isAscii = true))

theorem size_pos (spn : SPN) : 0 < spn.size := by
  cases spn with
  | numeric n => exact n.numSpec.byteSize_pos
  | status s => exact Nat.zero_lt_one
  | string s => exact Nat.succ_pos _

end SPN

/-- An SPN is encoded when the buffer reaches to its end, and otherwise the length is reported. -/
theorem encodeSpn_length_iff {spn : SPN} (haccepted : spn.ValueAccepted) (length : ℕ)
    (buffer : List UInt8) :
    (spn.getOffset + spn.size ≤ length ∧ ∃ out, encodeSpn length buffer spn = .ok out) ∨
      (¬spn.getOffset + spn.size ≤ length ∧ ∃ e, encodeSpn length buffer spn = .error e ∧
        e.isLength = true) := by
  have hpos := spn.size_pos
  rw [encodeSpn]
  by_cases hoffset : spn.getOffset ≥ length
  · rw [if_pos hoffset]
    exact .inr ⟨by omega, _, rfl, rfl⟩
  rw [if_neg hoffset]
  cases spn with
  | numeric n =>
    have hoffset' : ¬n.spec.offset ≥ length := hoffset
    have hmax : n.getByteSize.toNat ≤ spnNumericMaxByteSize := n.numSpec.byteSize_le
    by_cases hsize : n.getByteSize.toNat > length - n.spec.offset
    · refine .inr ⟨?_, _, if_pos (.inl hsize), rfl⟩
      change ¬n.spec.offset + n.getByteSize.toNat ≤ length
      omega
    · refine .inl ⟨?_, _, if_neg (not_or.mpr ⟨hsize, Nat.not_lt.mpr hmax⟩)⟩
      change n.spec.offset + n.getByteSize.toNat ≤ length
      omega
  | status s =>
    refine .inl ⟨Nat.lt_of_not_ge hoffset, _, (if_neg s.not_formatIncorrect).trans
      (if_neg (not_not.mpr (SPNStatus.encode_test haccepted)))⟩
  | string s =>
    have hoffset' : ¬s.offset ≥ length := hoffset
    by_cases hsize : s.value.length ≥ length - s.offset
    · refine .inr ⟨?_, _, if_pos hsize, rfl⟩
      change ¬s.offset + (s.value.length + 1) ≤ length
      omega
    · refine .inl ⟨?_, _, if_neg hsize⟩
      change s.offset + (s.value.length + 1) ≤ length
      omega

/-- The loop reports the length at the first SPN that ends behind the buffer. -/
theorem encodeSpns_length_iff {spns : List SPN} (haccepted : ∀ spn ∈ spns, spn.ValueAccepted)
    (length : ℕ) (buffer : List UInt8) :
    ((∀ spn ∈ spns, spn.getOffset + spn.size ≤ length) ∧
        ∃ out, encodeSpns length buffer spns = .ok out) ∨
      ((¬∀ spn ∈ spns, spn.getOffset + spn.size ≤ length) ∧
        ∃ e, encodeSpns length buffer spns = .error e ∧ e.isLength = true) := by
  induction spns generalizing buffer with
  | nil => exact .inl ⟨by simp, buffer, rfl⟩
  | cons spn spns ih =>
    rw [List.forall_mem_cons] at haccepted
    rw [List.forall_mem_cons, encodeSpns]
    rcases encodeSpn_length_iff haccepted.1 length buffer with
      ⟨hfits, out, hout⟩ | ⟨hfits, e, herror, hlength⟩
    · rw [hout]
      rcases ih haccepted.2 out with ⟨hrest, out', hout'⟩ | ⟨hrest, e, herror, hlength⟩
      · exact .inl ⟨⟨hfits, hrest⟩, out', hout'⟩
      · exact .inr ⟨fun h => hrest h.2, e, herror, hlength⟩
    · rw [herror]
      exact .inr ⟨fun h => hfits h.1, e, rfl, hlength⟩

namespace GenericFrame

/-- The frames that are built by registering, deleting and setting. -/
inductive Reachable : GenericFrame → Prop
  | new (pgn : UInt32) : Reachable { pgn := pgn }
  | registerSPN {f : GenericFrame} (h : Reachable f) {spn : SPN} (hassert : f.registerAssertion spn)
    (haccepted : spn.ValueAccepted) : Reachable (f.registerSPN spn)
  | deleteSPN {f : GenericFrame} (h : Reachable f) (number : UInt32) :
    Reachable (f.deleteSPN number).1
  | setLength {f : GenericFrame} (h : Reachable f) (length : ℕ) : Reachable (f.setLength length)
  | setNumericValue {f : GenericFrame} (h : Reachable f) (number value : UInt32) :
    Reachable (f.setNumericValue number value)
  | setStatusValue {f : GenericFrame} (h : Reachable f) (number : UInt32) (value : UInt8) :
    Reachable (f.setStatusValue number value)
  | setStringValue {f : GenericFrame} (h : Reachable f) (number : UInt32) (value : List UInt8) :
    Reachable (f.setStringValue number value)

variable {f : GenericFrame}

/-- The frame has a priority in range, and values that their setters accept. -/
structure Encodable (f : GenericFrame) : Prop where
  priority : getPriority f ≤ 7
  accepted : ∀ spn ∈ f.spns.values, spn.ValueAccepted

end GenericFrame

/-- Moving the strings leaves the values as they are. -/
theorem valueAccepted_recalculated {spns : List SPN} (h : ∀ spn ∈ spns, spn.ValueAccepted) :
    ∀ spn ∈ recalculateStringOffsets spns, spn.ValueAccepted := by
  have hmoved : ∀ (next : ℕ) (spn : SPN), spn.ValueAccepted → (spn.setOffset next).ValueAccepted := by
    intro next spn hspn
    cases spn <;> exact hspn
  have hfrom : ∀ (next : ℕ) (spns : List SPN), (∀ spn ∈ spns, spn.ValueAccepted) →
      ∀ spn ∈ recalculateFrom next spns, spn.ValueAccepted := by
    intro next spns hspns
    induction spns generalizing next with
    | nil => exact hspns
    | cons spn spns ih =>
      rw [List.forall_mem_cons] at hspns
      rw [recalculateFrom, List.forall_mem_cons]
      exact ⟨hmoved next spn hspns.1, ih _ hspns.2⟩
  cases spns with
  | nil => exact h
  | cons spn spns =>
    rw [List.forall_mem_cons] at h
    rw [recalculateStringOffsets, List.forall_mem_cons]
    exact ⟨h.1, hfrom _ spns h.2⟩

namespace GenericFrame

variable {f : GenericFrame}

theorem Encodable.recalculated (h : f.Encodable) {spns : SortedMap UInt32 SPN}
    (hspns : ∀ spn ∈ spns.values, spn.ValueAccepted) :
    Encodable { f with spns := spns.setValues (recalculateStringOffsets spns.values) } := by
  refine ⟨h.priority, ?_⟩
  rw [SortedMap.values_setValues (length_recalculateStringOffsets _)]
  exact valueAccepted_recalculated hspns

theorem Encodable.registeredSpns (h : f.Encodable) {spn : SPN} (haccepted : spn.ValueAccepted) :
    ∀ x ∈ (J1939.registeredSpns f.spns spn).values, x.ValueAccepted := by
  rw [J1939.registeredSpns]
  split
  · exact forall_values_insert h.accepted haccepted
  · exact h.accepted

theorem Reachable.encodable (h : f.Reachable) : f.Encodable := by
  induction h with
  | new pgn => exact ⟨(by decide : (0 : UInt8) ≤ 7), by simp [SortedMap.values]⟩
  | @registerSPN f h spn hassert haccepted ih =>
    rw [registerSPN_eq_ite]
    split_ifs
    · exact ih.recalculated (ih.registeredSpns haccepted)
    · exact ⟨ih.priority, ih.registeredSpns haccepted⟩
  | @deleteSPN f h number ih =>
    rw [GenericFrame.deleteSPN]
    split
    · refine ⟨ih.priority, fun spn hspn => ih.accepted spn ?_⟩
      obtain ⟨e, he, rfl⟩ := List.mem_map.mp hspn
      exact List.mem_map_of_mem (List.mem_of_mem_filter he)
    · exact ih
  | setLength h length ih => exact ⟨ih.priority, ih.accepted⟩
  | @setNumericValue f h number value ih =>
    rw [GenericFrame.setNumericValue]
    split
    · exact ⟨ih.priority, forall_values_insert ih.accepted trivial⟩
    · exact ih
  | @setStatusValue f h number value ih =>
    rw [GenericFrame.setStatusValue]
    split
    · next s hfind =>
      have hs : (SPN.status s).ValueFits :=
        ih.accepted _ (List.mem_map_of_mem (SortedMap.mem_entries_iff.mpr hfind))
      exact ⟨ih.priority, forall_values_insert ih.accepted (s.valueFits_setValue hs value)⟩
    · exact ih
  | @setStringValue f h number value ih =>
    rcases f.setStringValue_cases number value with hsame | ⟨s, spns, hfind, hascii, rfl, hset⟩
    · rw [hsame]
      exact ih
    · rw [hset]
      exact ih.recalculated (forall_values_insert ih.accepted hascii)

/-- What `encode` does with a buffer of the announced length. -/
theorem encodeData_announced (f : GenericFrame) :
    J1939.encodeData f (List.replicate (J1939.getDataLength f) 0xFF) =
      encodeSpns f.getDataLength (List.replicate f.getDataLength 0xFF) f.spns.values := by
  change encodeSpns (List.replicate f.getDataLength (0xFF : UInt8)).length _ _ = _
  rw [List.length_replicate]
  rfl

/-- No SPN ends both behind the length of the frame and behind the last SPN, whose size is a
byte. -/
def EndsWithLast (f : GenericFrame) : Prop :=
  ∀ last, IsLast f.spns.values last → ∀ spn ∈ f.spns.values,
    spn.getOffset + spn.size ≤ f.length ∨
      spn.getOffset + spn.size ≤ last.getOffset + last.getByteSize.toNat

/-- The announced length is enough for all SPNs, and so `encode` never finds the buffer too short,
exactly when no SPN ends behind the last one. -/
theorem length_suffices_iff (h : f.Reachable) :
    ((∀ e, encode f (J1939.getDataLength f) = .error e → e.isLength = false) ↔
        f.EndsWithLast) ∧
      ((∀ spn ∈ f.spns.values, spn.getOffset + spn.size ≤ J1939.getDataLength f) ↔
        f.EndsWithLast) := by
  obtain ⟨hprio, haccepted⟩ := h.encodable
  have hends : (∀ spn ∈ f.spns.values, spn.getOffset + spn.size ≤ J1939.getDataLength f) ↔
      f.EndsWithLast := by
    constructor
    · intro hall last hlast spn hspn
      have hle : spn.getOffset + spn.size ≤ f.getDataLength := hall spn hspn
      rw [getDataLength_of_isLast hlast] at hle
      omega
    · intro hends spn hspn
      obtain ⟨last, hlast⟩ := exists_isLast (List.ne_nil_of_mem hspn)
      have hle := hends last hlast spn hspn
      change _ ≤ f.getDataLength
      rw [getDataLength_of_isLast hlast]
      omega
  refine ⟨?_, hends⟩
  rw [← hends]
  have hdata := encodeData_announced f
  rcases encodeSpns_length_iff haccepted f.getDataLength (List.replicate f.getDataLength 0xFF) with
    ⟨hfits, out, hout⟩ | ⟨hfits, e, herror, hlength⟩
  · refine iff_of_true (fun e herror => ?_) hfits
    have hok := (@encode_eq_ok_iff _ _ f (J1939.getDataLength f)
      ⟨getIdentifier f, out, J1939.getDataLength f⟩).mpr
        ⟨hprio, le_rfl, hdata.trans hout, rfl, rfl⟩
    rw [hok] at herror
    cases herror
  · refine iff_of_false (fun hall => ?_) hfits
    rw [hall e (encode_of_error hprio le_rfl (hdata.trans herror))] at hlength
    cases hlength

end GenericFrame

/-- The engine speed alone. -/
def speedFrame : GenericFrame :=
  GenericFrame.registerSPN { pgn := 0xF004 } (.numeric
    { spec := engineSpeed 0, numSpec := engineSpeedSpec })

theorem speedFrame_reachable : speedFrame.Reachable :=
  @GenericFrame.Reachable.registerSPN { pgn := 0xF004 } (.new 0xF004)
    (.numeric { spec := engineSpeed 0, numSpec := engineSpeedSpec }) (by decide) trivial

/-- The announced length is enough for the engine speed. -/
theorem speedFrame_length_suffices :
    ((∀ e, encode speedFrame (getDataLength speedFrame) = .error e → e.isLength = false) ↔
        speedFrame.EndsWithLast) ∧
      ((∀ spn ∈ speedFrame.spns.values, spn.getOffset + spn.size ≤ getDataLength speedFrame) ↔
        speedFrame.EndsWithLast) :=
  GenericFrame.length_suffices_iff speedFrame_reachable

/-- A switch in the first byte of the engine speed, under a smaller number. -/
def pedalSwitch : SPN :=
  .status
    { spec := ⟨91, "Accelerator Pedal Low Idle Switch", 0, by decide⟩
      statSpec := ⟨0, 2, ∅, Nat.two_pos, by decide⟩ }

theorem overlapping_reachable : (speedFrame.registerSPN pedalSwitch).Reachable :=
  speedFrame_reachable.registerSPN (by decide) (by decide : pedalSwitch.ValueFits)

/-- The engine speed does not fit into the byte that is announced for the switch. -/
theorem overlapping_length_not_enough :
    ¬∀ f : GenericFrame, f.Reachable →
      (∀ e, encode f (getDataLength f) = .error e → e.isLength = false) ∧
        ∀ spn ∈ f.spns.values, spn.getOffset + spn.size ≤ getDataLength f := by
  intro h
  have hwrong := (h _ overlapping_reachable).1 .numericEncodeLength (by decide +kernel)
  cases hwrong

end J1939
