import J1939.FrameOperations

/-!
# Detecting changes

`GenericFrame::compare` decides from two payloads which SPNs have changed. It compares whole
bytes, and it relies on the longer payload when the other one is too short.
-/

namespace J1939

namespace SPN

/-- All bytes of the SPN lie in a string of the given size. -/
def Inside (size : ℕ) (spn : SPN) : Prop := ∀ i, spn.getOffset ≤ i → i < spn.maxLength → i < size

theorem inside_iff {size : ℕ} {spn : SPN} (hpos : 0 < spn.getByteSize.toNat) :
    spn.Inside size ↔ spn.maxLength ≤ size := by
  constructor
  · intro h
    have hlast := h (spn.maxLength - 1) (by unfold maxLength; omega) (by unfold maxLength; omega)
    unfold maxLength at hlast ⊢
    omega
  · intro h i _ hi
    omega

end SPN

namespace GenericFrame

variable {f : GenericFrame} {newData oldData : Memory} {newSize oldSize : ℕ} {number : UInt32}

theorem mem_compare : number ∈ f.compare newData oldData newSize oldSize ↔
    ∃ spn, f.spns.find? number = some spn ∧ spn.Changed newData oldData newSize oldSize := by
  simp only [compare, List.mem_map, List.mem_filter, decide_eq_true_eq]
  constructor
  · rintro ⟨⟨_, spn⟩, ⟨hmem, hchanged⟩, rfl⟩
    exact ⟨spn, SortedMap.mem_entries_iff.mp hmem, hchanged⟩
  · rintro ⟨spn, hfind, hchanged⟩
    exact ⟨(number, spn), ⟨SortedMap.mem_entries_iff.mpr hfind, hchanged⟩, rfl⟩

theorem mem_compareAccessed {i : ℕ} : i ∈ f.compareAccessed newSize oldSize ↔
    ∃ spn ∈ f.spns.values, spn.Compared newSize oldSize ∧ spn.getOffset ≤ i ∧
      i < spn.maxLength := by
  simp only [compareAccessed, List.mem_flatMap, List.mem_filter, decide_eq_true_eq,
    List.mem_range'_1, SPN.maxLength, and_assoc]

/-- `compare` stays within both payloads and reports the SPNs with missing bytes exactly when no
SPN ends within one of the payloads and behind the other one. -/
theorem compare_safe_iff (f : GenericFrame) (newData oldData : Memory) (newSize oldSize : ℕ) :
    ((∀ i ∈ f.compareAccessed newSize oldSize, i < newSize ∧ i < oldSize) ∧
        ∀ number spn, f.spns.find? number = some spn →
          ¬(spn.Inside newSize ∧ spn.Inside oldSize) →
            number ∈ f.compare newData oldData newSize oldSize) ↔
      ∀ spn ∈ f.spns.values, 0 < spn.getByteSize.toNat →
        (spn.maxLength ≤ newSize ↔ spn.maxLength ≤ oldSize) := by
  constructor
  · rintro ⟨haccessed, -⟩ spn hspn hpos
    -- the last byte is accessed in both payloads when one of them has it
    have hlast : spn.Compared newSize oldSize →
        spn.maxLength - 1 < newSize ∧ spn.maxLength - 1 < oldSize := by
      intro hcompared
      refine haccessed _ (mem_compareAccessed.mpr ⟨spn, hspn, hcompared, ?_, ?_⟩)
      · unfold SPN.maxLength
        omega
      · unfold SPN.maxLength
        omega
    constructor
    · intro hnew
      have hboth := hlast (.inl hnew)
      omega
    · intro hold
      have hboth := hlast (.inr hold)
      omega
  · intro h
    have hboth : ∀ spn ∈ f.spns.values, spn.Compared newSize oldSize →
        spn.Inside newSize ∧ spn.Inside oldSize := by
      intro spn hspn hcompared
      by_cases hpos : 0 < spn.getByteSize.toNat
      · have hsame := h spn hspn hpos
        have hnew : spn.maxLength ≤ newSize := hcompared.elim id hsame.mpr
        rw [SPN.inside_iff hpos, SPN.inside_iff hpos]
        exact ⟨hnew, hsame.mp hnew⟩
      · -- a string of 255 characters has size 0
        refine ⟨fun i hi hlt => ?_, fun i hi hlt => ?_⟩
        all_goals
          unfold SPN.maxLength at hlt
          omega
    refine ⟨fun i hi => ?_, fun number spn hfind hmissing => ?_⟩
    · obtain ⟨spn, hspn, hcompared, hle, hlt⟩ := mem_compareAccessed.mp hi
      obtain ⟨hnew, hold⟩ := hboth spn hspn hcompared
      exact ⟨hnew i hle hlt, hold i hle hlt⟩
    · have hspn : spn ∈ f.spns.values :=
        List.mem_map_of_mem (SortedMap.mem_entries_iff.mpr hfind)
      exact mem_compare.mpr ⟨spn, hfind, fun hcompared => absurd (hboth spn hspn hcompared) hmissing⟩

end GenericFrame

/-- The first payload that is received is compared with an empty one. -/
theorem firstPayload_not_safe :
    ¬∀ (f : GenericFrame) (newData oldData : Memory) (newSize oldSize : ℕ),
      (∀ i ∈ f.compareAccessed newSize oldSize, i < newSize ∧ i < oldSize) ∧
        ∀ number spn, f.spns.find? number = some spn →
          ¬(spn.Inside newSize ∧ spn.Inside oldSize) →
            number ∈ f.compare newData oldData newSize oldSize := by
  intro h
  have hwrong := (h engineFrame (fun _ => 0) (fun _ => 0) 8 0).1
  exact absurd hwrong (by decide)

/-! ### Changes of the value -/

/-- What a successful decoding leaves in a frame without strings. -/
theorem spns_of_decode {f f' : GenericFrame} {identifier : UInt32} {length : ℕ} {mem : Memory}
    (hfixed : ∀ spn ∈ f.spns.values, spn.isString = false)
    (h : (decode identifier length).run f mem = (.ok (), f')) :
    (∀ spn ∈ f.spns.values, spn.Fits length) ∧
      f'.spns = f.spns.setValues (f.spns.values.map (SPN.decoded mem)) := by
  obtain ⟨hmatch, -, -⟩ := header_decode h
  rw [run_decode_of_match hmatch] at h
  set g : GenericFrame := withHeader f (receivedHeader (header f) identifier) with hg
  have hfits : ∀ spn ∈ g.spns.values, spn.Fits length := by
    rcases @run_decodeRest_fixed length [] g.spns.values hfixed mem with
      ⟨hfits, -⟩ | ⟨-, e, st, hrun, -⟩
    · exact hfits
    · change (GenericFrame.decodeData length).run g mem = _ at h
      rw [GenericFrame.decodeData, Method.run_onPart, decodeSpns_eq, hrun] at h
      cases h
  have hrun := @run_decodeData_fixed g length hfixed hfits mem
  change (GenericFrame.decodeData length).run g mem = _ at h
  rw [hrun] at h
  cases h
  exact ⟨hfits, rfl⟩

namespace SPN

/-- The bits of a status that the decoder reads in a byte. -/
def statusBits (s : SPNStatus) (b : UInt8) : UInt8 := (b >>> s.getBitOffset) &&& s.mask

/-- A status whose byte has changed has changed itself. -/
def OwnChange (newData oldData : Memory) : SPN → Prop
  | status s => newData s.spec.offset ≠ oldData s.spec.offset →
      statusBits s (newData s.spec.offset) ≠ statusBits s (oldData s.spec.offset)
  | _ => True

instance (newData oldData : Memory) : (spn : SPN) → Decidable (spn.OwnChange newData oldData)
  | numeric _ | string _ => inferInstanceAs (Decidable True)
  | status _ => inferInstanceAs (Decidable (_ → _))

/-- An SPN is taken for changed when its bytes differ, and decodes to another value when its bits
do. -/
theorem changed_iff {spn : SPN} {newData oldData : Memory} {newSize oldSize : ℕ}
    (hfixed : spn.isString = false) (hfits : spn.Fits newSize) :
    (spn.Changed newData oldData newSize oldSize ↔ spn.decoded newData ≠ spn.decoded oldData) ↔
      spn.OwnChange newData oldData := by
  cases spn with
  | numeric n =>
    obtain ⟨hoffset, hsize⟩ := hfits
    have hcompared : (SPN.numeric n).Compared newSize oldSize := by
      refine .inl ?_
      change n.spec.offset + n.getByteSize.toNat ≤ newSize
      omega
    have hmax : n.getByteSize.toNat ≤ 4 := n.numSpec.byteSize_le
    have hvalue : (SPN.numeric n).decoded newData = (SPN.numeric n).decoded oldData ↔
        newData.slice n.spec.offset n.getByteSize.toNat =
          oldData.slice n.spec.offset n.getByteSize.toNat := by
      rw [Memory.slice_eq_iff, ← SPNNumeric.readValue_inj hmax]
      simp only [decoded, SPN.numeric.injEq, SPNNumeric.mk.injEq, true_and]
    rw [Changed, imp_iff_right hcompared, ne_eq, ne_eq, hvalue]
    exact iff_of_true Iff.rfl trivial
  | status s =>
    have hcompared : (SPN.status s).Compared newSize oldSize := .inl hfits
    have hbytes : newData.slice s.spec.offset 1 = oldData.slice s.spec.offset 1 ↔
        newData s.spec.offset = oldData s.spec.offset := by
      rw [Memory.slice_eq_iff]
      simp only [Nat.lt_one_iff, forall_eq, Nat.add_zero]
    have hvalue : (SPN.status s).decoded newData = (SPN.status s).decoded oldData ↔
        statusBits s (newData s.spec.offset) = statusBits s (oldData s.spec.offset) := by
      simp only [decoded, SPN.status.injEq, SPNStatus.mk.injEq, true_and]
      rfl
    rw [Changed, imp_iff_right hcompared, ne_eq, ne_eq, hvalue]
    change (¬newData.slice s.spec.offset 1 = oldData.slice s.spec.offset 1 ↔ _) ↔ _
    rw [hbytes]
    constructor
    · exact fun h => h.mp
    · exact fun h => ⟨h, fun hbits heq => hbits (congrArg (statusBits s) heq)⟩
  | string s => cases hfixed

end SPN

/-- Change detection is exact when every status whose byte has changed has itself changed. -/
theorem compare_exact_iff {f newFrame oldFrame : GenericFrame} {newId oldId : UInt32}
    {newData oldData : Memory} {newSize oldSize : ℕ}
    (hfixed : ∀ spn ∈ f.spns.values, spn.isString = false)
    (hnew : (decode newId newSize).run f newData = (.ok (), newFrame))
    (hold : (decode oldId oldSize).run f oldData = (.ok (), oldFrame)) :
    (∀ number, number ∈ f.compare newData oldData newSize oldSize ↔
        newFrame.spns.find? number ≠ oldFrame.spns.find? number) ↔
      ∀ spn ∈ f.spns.values, spn.OwnChange newData oldData := by
  obtain ⟨hfits, hnewSpns⟩ := spns_of_decode hfixed hnew
  obtain ⟨-, holdSpns⟩ := spns_of_decode hfixed hold
  have hone : ∀ number, (number ∈ f.compare newData oldData newSize oldSize ↔
      newFrame.spns.find? number ≠ oldFrame.spns.find? number) ↔
        ∀ spn, f.spns.find? number = some spn →
          (spn.Changed newData oldData newSize oldSize ↔
            spn.decoded newData ≠ spn.decoded oldData) := by
    intro number
    rw [GenericFrame.mem_compare, hnewSpns, holdSpns, SortedMap.find?_setValues_map,
      SortedMap.find?_setValues_map]
    cases f.spns.find? number with
    | none => simp
    | some spn => simp
  have hmem : ∀ number spn, f.spns.find? number = some spn → spn ∈ f.spns.values :=
    fun number spn hfind => List.mem_map_of_mem (SortedMap.mem_entries_iff.mpr hfind)
  constructor
  · intro h spn hspn
    obtain ⟨⟨number, _⟩, hentry, rfl⟩ := List.mem_map.mp hspn
    have hfind := SortedMap.mem_entries_iff.mp hentry
    exact (SPN.changed_iff (hfixed _ hspn) (hfits _ hspn)).mp
      ((hone number).mp (h number) _ hfind)
  · intro h number
    refine (hone number).mpr fun spn hfind => ?_
    have hspn := hmem number spn hfind
    exact (SPN.changed_iff (hfixed spn hspn) (hfits spn hspn)).mpr (h spn hspn)

/-- The engine frame with a torque mode and a percent torque. -/
def engineData (torque : UInt8) : Memory := Memory.ofList [torque, 0xFF, 0xFF, 0x00, 0x20] fun _ => 0

/-- The torque mode is reported when only the percent torque in the same byte has changed. -/
theorem torqueMode_not_exact :
    ¬∀ (f newFrame oldFrame : GenericFrame) (newId oldId : UInt32) (newData oldData : Memory)
      (newSize oldSize : ℕ), (∀ spn ∈ f.spns.values, spn.isString = false) →
      (decode newId newSize).run f newData = (.ok (), newFrame) →
      (decode oldId oldSize).run f oldData = (.ok (), oldFrame) →
      ∀ number, number ∈ f.compare newData oldData newSize oldSize ↔
        newFrame.spns.find? number ≠ oldFrame.spns.find? number := by
  intro h
  have hwrong := h engineFrame _ _ 0x0CF00400 0x0CF00400 (engineData 0x25) (engineData 0x15) 5 5
    (by decide) (Prod.ext (by decide +kernel) rfl) (Prod.ext (by decide +kernel) rfl) 899
  exact absurd hwrong (by decide +kernel)

/-- When both have changed, the report is right. -/
theorem torqueMode_exact :
    899 ∈ engineFrame.compare (engineData 0x25) (engineData 0x14) 5 5 ↔
      ((decode 0x0CF00400 5).run engineFrame (engineData 0x25)).2.spns.find? 899 ≠
        ((decode 0x0CF00400 5).run engineFrame (engineData 0x14)).2.spns.find? 899 :=
  (@compare_exact_iff engineFrame _ _ 0x0CF00400 0x0CF00400 (engineData 0x25) (engineData 0x14) 5 5
    (by decide) (Prod.ext (by decide +kernel) rfl) (Prod.ext (by decide +kernel) rfl)).mpr
    (by decide +kernel) 899

end J1939
