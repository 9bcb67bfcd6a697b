import J1939.J1939Factory
import J1939.StringFrames

/-!
# Changing and comparing frames

The operations of `GenericFrame` on its SPNs and their values, besides registering SPNs.
-/

namespace J1939

namespace SPN

/-- The virtual call of `SPN::copy`. Each class casts the other SPN to itself. -/
def copy : SPN → SPN → SPN
  | numeric n, numeric other => numeric { n with value := other.value }
  | status s, status other => status { s with value := other.value }
  | string s, string other => string { s with value := other.value }
  | spn, _ => spn

/-- The end of an SPN, `maxLength` in `GenericFrame::compare`. -/
def maxLength (spn : SPN) : ℕ := spn.getOffset + spn.getByteSize.toNat

/-- `GenericFrame::compare` calls `memcmp` for the SPN. -/
def Compared (newSize oldSize : ℕ) (spn : SPN) : Prop :=
  newSize ≥ spn.maxLength ∨ oldSize ≥ spn.maxLength

instance (newSize oldSize : ℕ) (spn : SPN) : Decidable (spn.Compared newSize oldSize) :=
  inferInstanceAs (Decidable (_ ∨ _))

/-- `GenericFrame::compare` takes the SPN for changed. -/
def Changed (newData oldData : Memory) (newSize oldSize : ℕ) (spn : SPN) : Prop :=
  spn.Compared newSize oldSize →
    newData.slice spn.getOffset spn.getByteSize.toNat ≠
      oldData.slice spn.getOffset spn.getByteSize.toNat

instance (newData oldData : Memory) (newSize oldSize : ℕ) (spn : SPN) :
    Decidable (spn.Changed newData oldData newSize oldSize) :=
  inferInstanceAs (Decidable (_ → _))

end SPN

/-- The loop of `GenericFrame::copy` over two maps. The SPNs share a specification when they are
clones of one SPN. -/
def copySpns (sameSpec : SPN → SPN → Bool) : List SPN → List SPN → List SPN
  | spn :: spns, other :: others =>
    if sameSpec spn other then spn.copy other :: copySpns sameSpec spns others else spn :: spns
  | spns, _ => spns

namespace GenericFrame

/-- `SPNNumeric::setValue` on the SPN with the given number. -/
def setNumericValue (f : GenericFrame) (number value : UInt32) : GenericFrame :=
  match f.spns.find? number with
  | some (.numeric n) => { f with spns := f.spns.insert number (.numeric { n with value := value }) }
  | _ => f

/-- `SPNStatus::setValue` on the SPN with the given number. -/
def setStatusValue (f : GenericFrame) (number : UInt32) (value : UInt8) : GenericFrame :=
  match f.spns.find? number with
  | some (.status s) => { f with spns := f.spns.insert number (.status (s.setValue value)) }
  | _ => f

/-- `GenericFrame::deleteSPN`. -/
def deleteSPN (f : GenericFrame) (number : UInt32) : GenericFrame × Bool :=
  match f.spns.find? number with
  | some _ => ({ f with spns := f.spns.erase number }, true)
  | none => (f, false)

/-- `GenericFrame::compare`: the numbers of the SPNs in the set. -/
def compare (f : GenericFrame) (newData oldData : Memory) (newSize oldSize : ℕ) : List UInt32 :=
  (f.spns.entries.filter fun e => e.2.Changed newData oldData newSize oldSize).map Prod.fst

/-- The positions that `compare` accesses, in both strings. -/
def compareAccessed (f : GenericFrame) (newSize oldSize : ℕ) : List ℕ :=
  (f.spns.values.filter fun spn => spn.Compared newSize oldSize).flatMap fun spn =>
    List.range' spn.getOffset spn.getByteSize.toNat

/-- `GenericFrame::copy`: a frame of another class is ignored. -/
def copy (sameSpec : SPN → SPN → Bool) (f : GenericFrame) : Frame → GenericFrame
  | .generic other =>
    { f with spns := f.spns.setValues (copySpns sameSpec f.spns.values other.spns.values) }
  | .dm1 other =>
    { f with spns := f.spns.setValues (copySpns sameSpec f.spns.values other.spns.values) }
  | _ => f

end GenericFrame

/-! ### Definitions and values -/

section Values

variable {f g : GenericFrame}

/-- Replacing an SPN by one with the same definition keeps the definitions of the frame. -/
theorem SameDefinitions.insert (h : SameDefinitions f g) {number : UInt32} {old spn : SPN}
    (hfind : g.spns.find? number = some old) (hdefinition : spn.definition = old.definition) :
    SameDefinitions f { g with spns := g.spns.insert number spn } := by
  rw [SameDefinitions, SortedMap.entries_insert_of_find? hfind, List.map_map, ← h]
  apply List.map_congr_left
  rintro ⟨k, s⟩ hmem
  by_cases hk : k = number
  · have hold := SortedMap.mem_entries_iff.mp hmem
    rw [hk, hfind] at hold
    simp [hk, hdefinition, ← Option.some.inj hold]
  · simp [hk]

/-- Changing all values keeps the definitions of the frame. -/
theorem SameDefinitions.map (h : SameDefinitions f g) {φ : SPN → SPN}
    (hdefinition : ∀ spn ∈ g.spns.values, (φ spn).definition = spn.definition) :
    SameDefinitions f { g with spns := g.spns.setValues (g.spns.values.map φ) } := by
  rw [SameDefinitions, SortedMap.entries_setValues_map, List.map_map, ← h]
  apply List.map_congr_left
  intro e he
  simp [hdefinition e.2 (List.mem_map_of_mem he)]

theorem definition_decoded (spn : SPN) (mem : Memory) :
    (spn.decoded mem).definition = spn.definition := by
  cases spn <;> rfl

/-- What has been decoded has room on the wire. -/
theorem valueFits_decoded {spn : SPN} (hfixed : spn.isString = false) (mem : Memory) :
    (spn.decoded mem).ValueFits := by
  cases spn with
  | numeric n => exact (SPNNumeric.toNat_readValue n.numSpec.byteSize_le _).1
  | status s =>
    change ((mem s.spec.offset >>> s.getBitOffset) &&& s.mask).toNat < 2 ^ s.getBitSize.toNat
    have hle : s.getBitSize.toNat ≤ 8 := le_trans (Nat.le_add_left _ _) s.statSpec.bits_le
    have hmask : s.mask.toNat = 2 ^ s.getBitSize.toNat - 1 :=
      Buffer.toNat_lowMask _ s.statSpec.bitSize_pos hle
    rw [Bits.toNat_lowByte _ _ hmask]
    exact Nat.mod_lt _ (Nat.two_pow_pos _)
  | string s => cases hfixed

/-- `SPNStatus::setValue` refuses a value without room on the wire. -/
theorem SPNStatus.valueFits_setValue {s : SPNStatus} (h : (SPN.status s).ValueFits)
    (value : UInt8) : (SPN.status (s.setValue value)).ValueFits := by
  rw [setValue]
  split_ifs with hlt
  · rw [Nat.one_shiftLeft] at hlt
    exact hlt
  · exact h

theorem SPNStatus.definition_setValue (s : SPNStatus) (value : UInt8) :
    (SPN.status (s.setValue value)).definition = (SPN.status s).definition := by
  rw [setValue]
  split_ifs <;> rfl

/-- Setting a status keeps the definitions of the frame, and all values in range. -/
theorem SameDefinitions.setStatusValue (h : SameDefinitions f g) (number : UInt32)
    (value : UInt8) : SameDefinitions f (g.setStatusValue number value) := by
  rw [GenericFrame.setStatusValue]
  split
  · next s hfind => exact h.insert hfind (s.definition_setValue value)
  · exact h

theorem valueFits_setStatusValue (h : ∀ spn ∈ f.spns.values, spn.ValueFits) (number : UInt32)
    (value : UInt8) : ∀ spn ∈ (f.setStatusValue number value).spns.values, spn.ValueFits := by
  rw [GenericFrame.setStatusValue]
  split
  · next s hfind =>
    have hs := h _ (List.mem_map_of_mem (SortedMap.mem_entries_iff.mpr hfind))
    exact forall_values_insert h (s.valueFits_setValue hs value)
  · exact h

end Values

end J1939
