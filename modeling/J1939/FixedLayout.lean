import J1939.GenericCodec
import J1939.Codec
import J1939.Lib.Buffer

/-!
# Frames of fixed layout

Numeric and status SPNs occupy ranges of bits. When the ranges of a frame are
disjoint, every SPN finds its bits in the payload again, in whatever order they
were written, and the bits between them stay set.
-/

namespace J1939

open Buffer

namespace SPN

/-- The first bit of the payload that an SPN occupies. -/
def bitStart : SPN → ℕ
  | numeric n => 8 * n.spec.offset
  | status s => 8 * s.spec.offset + s.getBitOffset.toNat
  | string s => 8 * s.offset

/-- The number of bits that an SPN occupies. -/
def bitCount : SPN → ℕ
  | numeric n => 8 * n.getByteSize.toNat
  | status s => s.getBitSize.toNat
  | string s => 8 * s.getByteSize.toNat

/-- The SPN occupies the bit. -/
def Covers (spn : SPN) (j : ℕ) : Prop := spn.bitStart ≤ j ∧ j < spn.bitStart + spn.bitCount

instance (spn : SPN) (j : ℕ) : Decidable (spn.Covers j) := inferInstanceAs (Decidable (_ ∧ _))

/-- Two SPNs have no bit in common. -/
def Disjoint (a b : SPN) : Prop :=
  a.bitStart + a.bitCount ≤ b.bitStart ∨ b.bitStart + b.bitCount ≤ a.bitStart

instance : DecidableRel Disjoint := fun _ _ => inferInstanceAs (Decidable (_ ∨ _))

instance : Std.Symm Disjoint := ⟨fun _ _ h => Or.symm h⟩

/-- The raw value of an SPN of fixed size. -/
def rawValue : SPN → ℕ
  | numeric n => n.value.toNat
  | status s => s.value.toNat
  | string _ => 0

/-- The raw value has no more bits than the SPN occupies: below `256 ^ byteSize` or
`2 ^ bitSize`. -/
def ValueFits (spn : SPN) : Prop := spn.rawValue < 2 ^ spn.bitCount

instance (spn : SPN) : Decidable spn.ValueFits := inferInstanceAs (Decidable (_ < _))

/-- The definition of an SPN of fixed size: everything but the value. -/
def definition : SPN → SPN
  | numeric n => numeric { n with value := 0 }
  | status s => status { s with value := 0 }
  | string s => string s

theorem bitCount_pos {spn : SPN} (hfixed : spn.isString = false) : 0 < spn.bitCount := by
  cases spn with
  | numeric n =>
    have hpos := n.numSpec.byteSize_pos
    change 0 < 8 * n.numSpec.byteSize.toNat
    omega
  | status s => exact s.statSpec.bitSize_pos
  | string s => cases hfixed

end SPN

/-! ### Encoding one SPN -/

namespace SPNNumeric

theorem length_valueBytes (n : SPNNumeric) : n.valueBytes.length = n.getByteSize.toNat := by
  simp [valueBytes]

/-- Writing a numeric SPN sets exactly its bits. -/
theorem bitAt_write (n : SPNNumeric) (buffer : List UInt8)
    (hfit : n.spec.offset + n.getByteSize.toNat ≤ buffer.length) (j : ℕ) :
    bitAt (writeBytes buffer n.spec.offset n.valueBytes) j =
      if (SPN.numeric n).Covers j then n.value.toNat.testBit (j - 8 * n.spec.offset)
      else bitAt buffer j := by
  have hsize := n.numSpec.byteSize_le
  have hlength := n.length_valueBytes
  rw [bitAt, getD_writeBytes _ _ _ (by omega)]
  by_cases hcovers : (SPN.numeric n).Covers j
  · have hrange : 8 * n.spec.offset ≤ j ∧ j < 8 * n.spec.offset + 8 * n.getByteSize.toNat :=
      hcovers
    rw [if_pos hcovers, if_pos (by omega)]
    have hindex : j / 8 - n.spec.offset < n.getByteSize.toNat := by omega
    have hmax : n.getByteSize.toNat ≤ 4 := hsize
    have hword : (UInt32.ofNat ((j / 8 - n.spec.offset) * 8)).toNat =
        (j / 8 - n.spec.offset) * 8 := by
      rw [UInt32.toNat_ofNat']
      omega
    rw [List.getD_eq_getElem _ _ (by omega)]
    simp only [valueBytes, List.getElem_map, List.getElem_range]
    rw [testBit_byteOf _ _ (by omega) (by omega), hword]
    congr 1
    omega
  · have hrange : ¬(8 * n.spec.offset ≤ j ∧ j < 8 * n.spec.offset + 8 * n.getByteSize.toNat) :=
      hcovers
    rw [if_neg hcovers, if_neg (by omega)]
    rfl

end SPNNumeric

namespace SPNStatus

theorem bitOffset_lt (s : SPNStatus) : s.getBitOffset.toNat < 8 := by
  have hpos := s.statSpec.bitSize_pos
  have hle := s.statSpec.bits_le
  unfold getBitOffset
  omega

theorem testBit_mask (s : SPNStatus) (k : ℕ) :
    s.mask.toNat.testBit k = decide (k < s.getBitSize.toNat) := by
  have hle := s.statSpec.bits_le
  exact testBit_lowMask _ s.statSpec.bitSize_pos (by omega) k

/-- The bits of a value that fits end at the size. -/
theorem testBit_value {s : SPNStatus} (hvalue : (SPN.status s).ValueFits) {k : ℕ}
    (hk : s.getBitSize.toNat ≤ k) : s.value.toNat.testBit k = false :=
  Nat.testBit_lt_two_pow (lt_of_lt_of_le hvalue (Nat.pow_le_pow_right (by decide) hk))

/-- A value that fits passes the test of `encode`. -/
theorem encode_test {s : SPNStatus} (hvalue : (SPN.status s).ValueFits) :
    (s.value <<< s.getBitOffset) &&& (s.mask <<< s.getBitOffset) = s.value <<< s.getBitOffset := by
  have hoffset := s.bitOffset_lt
  apply byte_ext
  intro k hk
  rw [UInt8.toNat_and, Nat.testBit_and, testBit_shiftLeft _ _ hoffset hk,
    testBit_shiftLeft _ _ hoffset hk, testBit_mask]
  by_cases hin : k - s.getBitOffset.toNat < s.getBitSize.toNat
  · by_cases hlow : s.getBitOffset.toNat ≤ k <;> simp [hin, hlow]
  · rw [testBit_value hvalue (Nat.le_of_not_lt hin)]
    simp

/-- Merging a status into a byte sets exactly its bits. -/
theorem testBit_merge {s : SPNStatus} (hvalue : (SPN.status s).ValueFits) (b : UInt8) {k : ℕ}
    (hk : k < 8) :
    (s.merge b).toNat.testBit k =
      if s.getBitOffset.toNat ≤ k ∧ k < s.getBitOffset.toNat + s.getBitSize.toNat then
        s.value.toNat.testBit (k - s.getBitOffset.toNat)
      else b.toNat.testBit k := by
  have hoffset := s.bitOffset_lt
  change ((b &&& ~~~(s.mask <<< s.getBitOffset)) |||
    (s.value <<< s.getBitOffset)).toNat.testBit k = _
  rw [UInt8.toNat_or, Nat.testBit_or, UInt8.toNat_and, Nat.testBit_and, testBit_not _ hk,
    testBit_shiftLeft _ _ hoffset hk, testBit_shiftLeft _ _ hoffset hk, testBit_mask]
  by_cases hlow : s.getBitOffset.toNat ≤ k
  · by_cases hin : k - s.getBitOffset.toNat < s.getBitSize.toNat
    · rw [if_pos (by omega)]
      simp [hlow, hin]
    · rw [if_neg (by omega), testBit_value hvalue (Nat.le_of_not_lt hin)]
      simp [hlow, hin]
  · rw [if_neg (by omega)]
    simp [hlow]

/-- Writing a status SPN sets exactly its bits. -/
theorem bitAt_write {s : SPNStatus} (hvalue : (SPN.status s).ValueFits) (buffer : List UInt8)
    (hfit : s.spec.offset < buffer.length) (j : ℕ) :
    bitAt (buffer.modify s.spec.offset s.merge) j =
      if (SPN.status s).Covers j then
        s.value.toNat.testBit (j - (8 * s.spec.offset + s.getBitOffset.toNat))
      else bitAt buffer j := by
  have hle := s.statSpec.bits_le
  have hend : s.getBitOffset.toNat + s.getBitSize.toNat ≤ 8 := hle
  have hcovers : (SPN.status s).Covers j ↔ 8 * s.spec.offset + s.getBitOffset.toNat ≤ j ∧
      j < 8 * s.spec.offset + s.getBitOffset.toNat + s.getBitSize.toNat := Iff.rfl
  simp only [bitAt, List.getD_eq_getElem?_getD, List.getElem?_modify]
  by_cases hbyte : s.spec.offset = j / 8
  · have hget : buffer[j / 8]? = some buffer[j / 8] := List.getElem?_eq_getElem (by omega)
    have hmod : j % 8 < 8 := Nat.mod_lt _ (by decide)
    rw [hget]
    change (if s.spec.offset = j / 8 then s.merge buffer[j / 8] else buffer[j / 8]).toNat.testBit
      (j % 8) = _
    rw [if_pos hbyte]
    rw [testBit_merge hvalue _ hmod, Option.getD_some]
    by_cases hin : (SPN.status s).Covers j
    · have hin' := hcovers.mp hin
      rw [if_pos hin, if_pos (by omega)]
      congr 1
      omega
    · have hin' := mt hcovers.mpr hin
      rw [if_neg hin, if_neg (by omega)]
  · have hin : ¬(SPN.status s).Covers j := by
      rw [hcovers]
      omega
    rw [if_neg hin]
    simp [hbyte]

end SPNStatus

/-- Encoding an SPN of fixed size that fits sets its bits and no others. -/
theorem encodeSpn_fixed {spn : SPN} {length : ℕ} {buffer : List UInt8}
    (hlength : length ≤ buffer.length) (hfixed : spn.isString = false) (hfits : spn.Fits length)
    (hvalue : spn.ValueFits) :
    ∃ out, encodeSpn length buffer spn = .ok out ∧ ∀ j, bitAt out j =
      if spn.Covers j then spn.rawValue.testBit (j - spn.bitStart) else bitAt buffer j := by
  cases spn with
  | numeric n =>
    obtain ⟨hoffset, hsize⟩ := hfits
    have hmax := n.numSpec.byteSize_le
    have hmax' : n.getByteSize.toNat ≤ spnNumericMaxByteSize := hmax
    refine ⟨writeBytes buffer n.spec.offset n.valueBytes, ?_, fun j => ?_⟩
    · have hguard : ¬(SPN.numeric n).getOffset ≥ length := Nat.not_le.mpr hoffset
      rw [encodeSpn, if_neg hguard]
      exact if_neg (by rw [not_or]; exact ⟨Nat.not_lt.mpr hsize, Nat.not_lt.mpr hmax'⟩)
    · exact n.bitAt_write buffer (by omega) j
  | status s =>
    refine ⟨buffer.modify s.spec.offset s.merge, ?_, fun j => ?_⟩
    · have hguard : ¬(SPN.status s).getOffset ≥ length := Nat.not_le.mpr hfits
      rw [encodeSpn, if_neg hguard]
      exact (if_neg s.not_formatIncorrect).trans
        (if_neg (not_not.mpr (SPNStatus.encode_test hvalue)))
    · exact SPNStatus.bitAt_write hvalue buffer (Nat.lt_of_lt_of_le hfits hlength) j
  | string s => cases hfixed

/-! ### Encoding all SPNs -/

/-- In a list without overlaps every SPN keeps the bits it has written, and the bits of
no SPN stay as they were. -/
theorem encodeSpns_fixed {spns : List SPN} {length : ℕ} {buffer : List UInt8}
    (hlength : length ≤ buffer.length) (hfixed : ∀ spn ∈ spns, spn.isString = false)
    (hfits : ∀ spn ∈ spns, spn.Fits length) (hvalues : ∀ spn ∈ spns, spn.ValueFits)
    (hdisjoint : spns.Pairwise SPN.Disjoint) :
    ∃ out, encodeSpns length buffer spns = .ok out ∧
      (∀ j, (∀ spn ∈ spns, ¬spn.Covers j) → bitAt out j = bitAt buffer j) ∧
      ∀ spn ∈ spns, ∀ k < spn.bitCount,
        bitAt out (spn.bitStart + k) = spn.rawValue.testBit k := by
  induction spns generalizing buffer with
  | nil => exact ⟨buffer, rfl, fun _ _ => rfl, by simp⟩
  | cons spn spns ih =>
    rw [List.forall_mem_cons] at hfixed hfits hvalues
    obtain ⟨hapart, hdisjoint⟩ := List.pairwise_cons.mp hdisjoint
    obtain ⟨first, hfirst, hbits⟩ :=
      encodeSpn_fixed hlength hfixed.1 hfits.1 hvalues.1
    have hfirstLength : length ≤ first.length := by
      rw [GenericFrame.encodeSpn_length hfirst]
      exact hlength
    obtain ⟨out, hout, hothers, hown⟩ :=
      ih hfirstLength hfixed.2 hfits.2 hvalues.2 hdisjoint
    refine ⟨out, ?_, ?_, ?_⟩
    · rw [encodeSpns, hfirst]
      exact hout
    · intro j hj
      rw [List.forall_mem_cons] at hj
      rw [hothers j hj.2, hbits, if_neg hj.1]
    · rw [List.forall_mem_cons]
      refine ⟨fun k hk => ?_, hown⟩
      -- the SPNs written later leave these bits alone
      have hcovers : spn.Covers (spn.bitStart + k) := ⟨Nat.le_add_right _ _, by omega⟩
      have hlater : ∀ other ∈ spns, ¬other.Covers (spn.bitStart + k) := by
        rintro other hother ⟨hlow, hhigh⟩
        rcases hapart other hother with h | h <;> omega
      rw [hothers _ hlater, hbits, if_pos hcovers, Nat.add_sub_cancel_left]

/-- An SPN whose bits hold its value is restored, whatever value was there before. -/
theorem decoded_of_bits {spn other : SPN} {out : List UInt8} (beyond : Memory)
    (hfixed : spn.isString = false) (hfits : spn.Fits out.length) (hvalue : spn.ValueFits)
    (hbits : ∀ k < spn.bitCount, bitAt out (spn.bitStart + k) = spn.rawValue.testBit k)
    (hdefinition : other.definition = spn.definition) :
    other.decoded (Memory.ofList out beyond) = spn := by
  have hmem : ∀ i < out.length, ∀ k < 8,
      (Memory.ofList out beyond i).toNat.testBit k = bitAt out (8 * i + k) := by
    intro i hi k hk
    have hdiv : (8 * i + k) / 8 = i := by omega
    have hmod : (8 * i + k) % 8 = k := by omega
    rw [Memory.ofList_of_lt hi, bitAt, hdiv, hmod, List.getD_eq_getElem _ _ hi]
  cases spn with
  | numeric n =>
    cases other with
    | numeric m =>
      obtain ⟨spec, numSpec, value⟩ := n
      obtain ⟨spec', numSpec', value'⟩ := m
      simp only [SPN.definition, SPN.numeric.injEq, SPNNumeric.mk.injEq, and_true] at hdefinition
      obtain ⟨rfl, rfl⟩ := hdefinition
      set n : SPNNumeric := ⟨spec', numSpec', value⟩ with hn
      obtain ⟨hoffset, hsize⟩ := hfits
      have hmax : n.getByteSize.toNat ≤ 4 := numSpec'.byteSize_le
      have hbytes : ∀ i < n.getByteSize.toNat, Memory.ofList out beyond (n.spec.offset + i) =
          ((n.value >>> UInt32.ofNat (i * 8)) &&& 0xFF).toUInt8 := by
        intro i hi
        have hword : (UInt32.ofNat (i * 8)).toNat = i * 8 := by
          rw [UInt32.toNat_ofNat']
          omega
        apply byte_ext
        intro k hk
        have hbit := hbits (8 * i + k) (by change 8 * i + k < 8 * n.getByteSize.toNat; omega)
        rw [hmem _ (by omega) k hk, testBit_byteOf _ _ (by omega) hk, hword, Nat.mul_comm i 8]
        rw [← Nat.add_assoc] at hbit
        rw [Nat.mul_add]
        exact hbit
      have hread := SPNNumeric.readValue_toNat n.value hmax hbytes
      have hvalue' : n.value.toNat < 2 ^ (8 * n.getByteSize.toNat) := hvalue
      rw [Nat.mod_eq_of_lt hvalue'] at hread
      have hsame := UInt32.toNat_inj.mp hread
      change SPN.numeric { n with
        value := SPNNumeric.readValue n.getByteSize.toNat
          (fun i => Memory.ofList out beyond (n.spec.offset + i)) } = _
      rw [hsame]
    | status m => cases hdefinition
    | string m => cases hdefinition
  | status s =>
    cases other with
    | numeric m => cases hdefinition
    | status m =>
      obtain ⟨spec, statSpec, value⟩ := s
      obtain ⟨spec', statSpec', value'⟩ := m
      simp only [SPN.definition, SPN.status.injEq, SPNStatus.mk.injEq, and_true] at hdefinition
      obtain ⟨rfl, rfl⟩ := hdefinition
      set s : SPNStatus := ⟨spec', statSpec', value⟩ with hs
      have hend : s.getBitOffset.toNat + s.getBitSize.toNat ≤ 8 := statSpec'.bits_le
      have hread : (Memory.ofList out beyond s.spec.offset >>> s.getBitOffset) &&& s.mask =
          s.value := by
        apply byte_ext
        intro k hk
        rw [UInt8.toNat_and, Nat.testBit_and, testBit_shiftRight _ _ s.bitOffset_lt,
          SPNStatus.testBit_mask]
        by_cases hin : k < s.getBitSize.toNat
        · have hbit := hbits k hin
          rw [hmem _ hfits _ (by omega), ← Nat.add_assoc, decide_eq_true hin, Bool.and_true]
          exact hbit
        · rw [decide_eq_false hin, Bool.and_false,
            SPNStatus.testBit_value hvalue (Nat.le_of_not_lt hin)]
      change SPN.status { s with
        value := (Memory.ofList out beyond s.spec.offset >>> s.getBitOffset) &&& s.mask } = _
      rw [hread]
    | string m => cases hdefinition
  | string s => cases hfixed

/-! ### The length of the payload -/

/-- The SPN with the largest offset, the first one of several. -/
def IsLast (spns : List SPN) (last : SPN) : Prop :=
  ∃ before after, spns = before ++ last :: after ∧
    (∀ spn ∈ before, spn.getOffset < last.getOffset) ∧
      ∀ spn ∈ after, spn.getOffset ≤ last.getOffset

theorem exists_isLast {spns : List SPN} (hne : spns ≠ []) : ∃ last, IsLast spns last := by
  induction spns with
  | nil => exact absurd rfl hne
  | cons spn spns ih =>
    by_cases hnone : spns = []
    · subst hnone
      exact ⟨spn, [], [], rfl, by simp, by simp⟩
    · obtain ⟨last, before, after, hsplit, hbefore, hafter⟩ := ih hnone
      by_cases hlt : spn.getOffset < last.getOffset
      · refine ⟨last, spn :: before, after, by rw [hsplit, List.cons_append], ?_, hafter⟩
        rw [List.forall_mem_cons]
        exact ⟨hlt, hbefore⟩
      · refine ⟨spn, [], spns, rfl, by simp, fun other hother => ?_⟩
        rw [hsplit] at hother
        rcases List.mem_append.mp hother with h | h
        · have hless := hbefore other h
          omega
        · rcases List.mem_cons.mp h with rfl | h
          · omega
          · have hle := hafter other h
            omega

theorem IsLast.mem {spns : List SPN} {last : SPN} (h : IsLast spns last) : last ∈ spns := by
  obtain ⟨before, after, rfl, -, -⟩ := h
  simp

theorem IsLast.getOffset_le {spns : List SPN} {last : SPN} (h : IsLast spns last) :
    ∀ spn ∈ spns, spn.getOffset ≤ last.getOffset := by
  obtain ⟨before, after, rfl, hbefore, hafter⟩ := h
  intro spn hspn
  rcases List.mem_append.mp hspn with h | h
  · exact (hbefore spn h).le
  · rcases List.mem_cons.mp h with rfl | h
    · exact le_rfl
    · exact hafter spn h

/-- The payload reaches to the end of the last SPN. -/
theorem getDataLength_of_isLast {f : GenericFrame} {last : SPN} (h : IsLast f.spns.values last) :
    f.getDataLength = max f.length (last.getOffset + last.getByteSize.toNat) := by
  obtain ⟨before, after, hsplit, hbefore, hafter⟩ := h
  have hbehind : (after.foldr (fun spn acc => lastSpn acc spn) (0, 1)).1 ≤ last.getOffset := by
    clear hsplit
    induction after with
    | nil => exact Nat.zero_le _
    | cons spn after ih =>
      rw [List.forall_mem_cons] at hafter
      rw [List.foldr_cons, lastSpn]
      split_ifs
      · exact ih hafter.2
      · exact hafter.1
  have hloop : (before ++ last :: after).foldr (fun spn acc => lastSpn acc spn) (0, 1) =
      (last.getOffset, last.getByteSize.toNat) := by
    clear hsplit
    induction before with
    | nil => rw [List.nil_append, List.foldr_cons, lastSpn, if_neg (Nat.not_lt.mpr hbehind)]
    | cons spn before ih =>
      rw [List.forall_mem_cons] at hbefore
      rw [List.cons_append, List.foldr_cons, ih hbefore.2, lastSpn, if_pos hbefore.1]
  rw [GenericFrame.getDataLength, List.foldl_reverse, hsplit, hloop]

/-- The payload reaches to the end of an SPN with the largest offset. -/
theorem exists_lastSpn {f : GenericFrame} (hne : f.spns.values ≠ []) :
    ∃ last ∈ f.spns.values, (∀ spn ∈ f.spns.values, spn.getOffset ≤ last.getOffset) ∧
      f.getDataLength = max f.length (last.getOffset + last.getByteSize.toNat) := by
  obtain ⟨last, hlast⟩ := exists_isLast hne
  exact ⟨last, hlast.mem, hlast.getOffset_le, getDataLength_of_isLast hlast⟩

/-- In a frame of fixed layout without overlaps every SPN lies within the payload. -/
theorem fits_getDataLength {f : GenericFrame}
    (hfixed : ∀ spn ∈ f.spns.values, spn.isString = false)
    (hdisjoint : f.spns.values.Pairwise SPN.Disjoint) :
    ∀ spn ∈ f.spns.values, spn.Fits f.getDataLength := by
  intro spn hspn
  obtain ⟨last, hlast, hmax, hlength⟩ := exists_lastSpn (List.ne_nil_of_mem hspn)
  have hoffset := hmax spn hspn
  have hbits := SPN.bitCount_pos (hfixed last hlast)
  cases hspn' : spn with
  | numeric n =>
    have hpos := n.numSpec.byteSize_pos
    have hpos' : 0 < n.getByteSize.toNat := hpos
    rw [hspn'] at hoffset
    have hoffset' : n.spec.offset ≤ last.getOffset := hoffset
    by_cases hsame : spn = last
    · have hlast' : last = .numeric n := hsame.symm.trans hspn'
      rw [hlast'] at hlength
      have hlength' : f.getDataLength = max f.length (n.spec.offset + n.getByteSize.toNat) :=
        hlength
      refine ⟨?_, ?_⟩ <;> omega
    · -- a numeric SPN below the last one must end before it
      have hapart := hdisjoint.forall hspn hlast hsame
      rw [hspn'] at hapart
      have hends : n.spec.offset + n.getByteSize.toNat ≤ last.getOffset := by
        cases hkind : last with
        | numeric m =>
          rw [hkind] at hapart hbits hoffset'
          have hm : 0 < 8 * m.getByteSize.toNat := hbits
          have hoff : n.spec.offset ≤ m.spec.offset := hoffset'
          rcases hapart with h | h
          · have hle : 8 * n.spec.offset + 8 * n.getByteSize.toNat ≤ 8 * m.spec.offset := h
            change _ ≤ m.spec.offset
            omega
          · have hle : 8 * m.spec.offset + 8 * m.getByteSize.toNat ≤ 8 * n.spec.offset := h
            omega
        | status s =>
          rw [hkind] at hapart hbits hoffset'
          have hlt := s.bitOffset_lt
          have hs : 0 < s.getBitSize.toNat := hbits
          have hoff : n.spec.offset ≤ s.spec.offset := hoffset'
          rcases hapart with h | h
          · have hle : 8 * n.spec.offset + 8 * n.getByteSize.toNat ≤
                8 * s.spec.offset + s.getBitOffset.toNat := h
            change _ ≤ s.spec.offset
            omega
          · have hle : 8 * s.spec.offset + s.getBitOffset.toNat + s.getBitSize.toNat ≤
                8 * n.spec.offset := h
            omega
        | string s => exact absurd (hfixed last hlast) (by rw [hkind]; simp [SPN.isString])
      refine ⟨?_, ?_⟩ <;> omega
  | status s =>
    have hsize : 0 < last.getByteSize.toNat := by
      cases hkind : last with
      | numeric m => exact m.numSpec.byteSize_pos
      | status m => exact Nat.zero_lt_one
      | string m => exact absurd (hfixed last hlast) (by rw [hkind]; simp [SPN.isString])
    rw [hspn'] at hoffset
    have hoffset' : s.spec.offset ≤ last.getOffset := hoffset
    change s.spec.offset < f.getDataLength
    omega
  | string s => exact absurd (hfixed spn hspn) (by rw [hspn']; simp [SPN.isString])

/-! ### The round trip -/

/-- Two frames have the same SPN definitions under the same numbers. -/
def SameDefinitions (f g : GenericFrame) : Prop :=
  g.spns.entries.map (fun e => (e.1, e.2.definition)) =
    f.spns.entries.map fun e => (e.1, e.2.definition)

instance (f g : GenericFrame) : Decidable (SameDefinitions f g) :=
  inferInstanceAs (Decidable (_ = _))

theorem SameDefinitions.keys {f g : GenericFrame} (h : SameDefinitions f g) :
    g.spns.entries.map Prod.fst = f.spns.entries.map Prod.fst := by
  have hkeys := congrArg (List.map Prod.fst) h
  simpa only [List.map_map, Function.comp_def] using hkeys

theorem SameDefinitions.values {f g : GenericFrame} (h : SameDefinitions f g) :
    g.spns.values.map SPN.definition = f.spns.values.map SPN.definition := by
  have hvalues := congrArg (List.map Prod.snd) h
  simpa only [SortedMap.values, List.map_map, Function.comp_def] using hvalues

theorem isString_of_definition {a b : SPN} (h : a.definition = b.definition) :
    a.isString = b.isString := by
  cases a <;> cases b <;> first | rfl | cases h

theorem fits_definition (spn : SPN) (length : ℕ) :
    spn.definition.Fits length ↔ spn.Fits length := by
  cases spn <;> rfl

theorem fits_of_definition {a b : SPN} {length : ℕ} (h : a.definition = b.definition)
    (hb : b.Fits length) : a.Fits length := by
  rw [← fits_definition, h, fits_definition]
  exact hb

/-- Decoding restores a list of SPNs from any list with the same definitions. -/
theorem map_decoded {spns others : List SPN} {mem : Memory}
    (hdefinitions : others.map SPN.definition = spns.map SPN.definition)
    (h : ∀ spn ∈ spns, ∀ other : SPN, other.definition = spn.definition →
      other.decoded mem = spn) :
    others.map (SPN.decoded mem) = spns := by
  induction spns generalizing others with
  | nil =>
    rw [List.map_nil, List.map_eq_nil_iff] at hdefinitions
    rw [hdefinitions]
    rfl
  | cons spn spns ih =>
    obtain _ | ⟨other, others⟩ := others
    · cases hdefinitions
    rw [List.forall_mem_cons] at h
    rw [List.map_cons, List.map_cons, List.cons.injEq] at hdefinitions
    rw [List.map_cons, h.1 other hdefinitions.1, ih hdefinitions.2 h.2]

/-- `decodeData` on a frame without strings all of whose SPNs fit. -/
theorem run_decodeData_fixed {g : GenericFrame} {length : ℕ}
    (hfixed : ∀ spn ∈ g.spns.values, spn.isString = false)
    (hfits : ∀ spn ∈ g.spns.values, spn.Fits length) (mem : Memory) :
    (GenericFrame.decodeData length).run g mem =
      (.ok (), { g with
        spns := g.spns.setValues (g.spns.values.map (SPN.decoded mem)) }) := by
  rw [GenericFrame.decodeData, Method.run_onPart, decodeSpns_eq]
  rcases run_decodeRest_fixed [] g.spns.values hfixed mem with ⟨-, hrun⟩ | ⟨hnot, -⟩
  · rw [hrun]
    rfl
  · exact absurd hfits hnot

/-- Frames of fixed layout round-trip. A frame whose numeric and status SPNs do not
overlap and hold values that fit is encoded into `getDataLength` bytes without an
exception; decoding them into any frame with the same definitions restores all its
SPNs; and the bits that belong to no SPN are set. -/
theorem fixedFrame_roundTrip {f : GenericFrame} (hprio : getPriority f ≤ 7)
    (hfixed : ∀ spn ∈ f.spns.values, spn.isString = false)
    (hdisjoint : f.spns.values.Pairwise SPN.Disjoint)
    (hvalues : ∀ spn ∈ f.spns.values, spn.ValueFits) :
    ∃ e, encode f (getDataLength f) = .ok e ∧ e.buffer.length = getDataLength f ∧
      (∀ g, SameDefinitions f g → ∀ beyond,
        (decodeData e.buffer.length).run g (Memory.ofList e.buffer beyond) =
            (.ok (), { g with spns := f.spns }) ∧
          ∀ identifier, lookupPgn identifier = getPGN g →
            (decode identifier e.buffer.length).run g (Memory.ofList e.buffer beyond) =
              (.ok (), { g with
                spns := f.spns, toHeader := receivedHeader (header g) identifier })) ∧
      ∀ j < 8 * e.buffer.length, (∀ spn ∈ f.spns.values, ¬spn.Covers j) →
        bitAt e.buffer j = true := by
  have hfits := fits_getDataLength hfixed hdisjoint
  obtain ⟨out, hout, hothers, hown⟩ := encodeSpns_fixed
    (List.length_replicate (n := f.getDataLength) (a := (0xFF : UInt8))).ge hfixed hfits hvalues
    hdisjoint
  have hlength : out.length = f.getDataLength := by
    rw [GenericFrame.encodeSpns_length hout, List.length_replicate]
  have hdata : encodeData f (List.replicate (getDataLength f) 0xFF) = .ok out := by
    change encodeSpns (List.replicate f.getDataLength 0xFF).length _ _ = _
    rw [List.length_replicate]
    exact hout
  refine ⟨⟨getIdentifier f, out, getDataLength f⟩,
    encode_eq_ok_iff.mpr ⟨hprio, le_rfl, hdata, rfl, rfl⟩, hlength, ?_, ?_⟩
  · intro g hsame beyond
    have hmem : ∀ spn ∈ g.spns.values,
        ∃ spn' ∈ f.spns.values, spn.definition = spn'.definition := by
      intro spn hspn
      have hmap := List.mem_map_of_mem (f := SPN.definition) hspn
      rw [hsame.values] at hmap
      obtain ⟨spn', hspn', heq⟩ := List.mem_map.mp hmap
      exact ⟨spn', hspn', heq.symm⟩
    have hfixed' : ∀ spn ∈ g.spns.values, spn.isString = false := by
      intro spn hspn
      obtain ⟨spn', hspn', heq⟩ := hmem spn hspn
      exact (isString_of_definition heq).trans (hfixed spn' hspn')
    have hfits' : ∀ spn ∈ g.spns.values, spn.Fits out.length := by
      intro spn hspn
      obtain ⟨spn', hspn', heq⟩ := hmem spn hspn
      rw [hlength]
      exact fits_of_definition heq (hfits spn' hspn')
    have hrestored : g.spns.values.map (SPN.decoded (Memory.ofList out beyond)) =
        f.spns.values := by
      refine map_decoded hsame.values fun spn hspn other hdefinition => ?_
      exact decoded_of_bits beyond (hfixed spn hspn) (by rw [hlength]; exact hfits spn hspn)
        (hvalues spn hspn) (hown spn hspn) hdefinition
    have hspns : g.spns.setValues (g.spns.values.map (SPN.decoded (Memory.ofList out beyond))) =
        f.spns := by
      rw [hrestored]
      exact SortedMap.setValues_values hsame.keys
    have hrun := run_decodeData_fixed hfixed' hfits' (Memory.ofList out beyond)
    rw [hspns] at hrun
    refine ⟨hrun, fun identifier hlookup => ?_⟩
    rw [run_decode_of_match hlookup]
    have hheader := run_decodeData_fixed
      (g := withHeader g (receivedHeader (header g) identifier)) hfixed' hfits'
      (Memory.ofList out beyond)
    refine hheader.trans ?_
    change (_, GenericFrame.mk _ _ _
      (g.spns.setValues (g.spns.values.map (SPN.decoded (Memory.ofList out beyond))))) = _
    rw [hspns]
    rfl
  · intro j hj huncovered
    have hones : bitAt (List.replicate f.getDataLength 0xFF) j = true := by
      have hin : j / 8 < (List.replicate f.getDataLength (0xFF : UInt8)).length := by
        rw [List.length_replicate, ← hlength]
        change j < 8 * out.length at hj
        omega
      rw [bitAt, List.getD_eq_getElem _ _ hin, List.getElem_replicate]
      change (2 ^ 8 - 1).testBit (j % 8) = true
      rw [Nat.testBit_two_pow_sub_one]
      exact decide_eq_true (Nat.mod_lt _ (by decide))
    exact (hothers j huncovered).trans hones

/-- The engine speed, at an offset. -/
def engineSpeed (offset : ℕ) : SPNSpec := ⟨190, "Engine Speed", offset, by decide⟩

/-- The engine speed counts eighths of a revolution. -/
def engineSpeedSpec : SPNNumericSpec := ⟨1 / 8, 0, 2, "rpm", Nat.two_pos, by decide⟩

/-- Two statuses in one byte around a numeric SPN, registered out of order. -/
def engineFrame : GenericFrame :=
  ((GenericFrame.registerSPN { pgn := 0xF004 } (.status
    { spec := ⟨899, "Engine Torque Mode", 0, by decide⟩
      statSpec := ⟨0, 4, ∅, by decide, by decide⟩, value := 5 })).registerSPN (.numeric
    { spec := engineSpeed 3
      numSpec := engineSpeedSpec, value := 0x2EE0 })).registerSPN (.status
    { spec := ⟨4154, "Actual Engine Percent Torque", 0, by decide⟩
      statSpec := ⟨4, 3, ∅, by decide, by decide⟩, value := 2 })

/-- The engine frame is restored from its payload. -/
theorem engineFrame_roundTrip :
    ∃ e, encode engineFrame (getDataLength engineFrame) = .ok e ∧
      ∀ g, SameDefinitions engineFrame g → ∀ beyond,
        (decodeData e.buffer.length).run g (Memory.ofList e.buffer beyond) =
          (.ok (), { g with spns := engineFrame.spns }) := by
  obtain ⟨e, hencode, -, hdecode, -⟩ := fixedFrame_roundTrip (f := engineFrame) (by decide)
    (by decide) (by decide) (by decide)
  exact ⟨e, hencode, fun g hsame beyond => (hdecode g hsame beyond).1⟩

end J1939
