import J1939.FixedLayout
import J1939.Lib.Scale
import J1939.SPNCodec
import Mathlib.Algebra.Order.Floor.Ring
import Mathlib.Data.Rat.Floor

/-!
# The value of a numeric SPN

A numeric SPN keeps its value in 32 bits, whatever the number of its bytes. What is written by
`setFormattedValue` and `decode` fits the bytes. The value after construction and what is
written by `setValue` need not fit, and are cut off when they are encoded.
-/

namespace J1939

namespace SPNNumeric

/-- `SPNNumeric::getFormattedValue`. -/
def getFormattedValue (spn : SPNNumeric) : ℚ :=
  (spn.value.toNat : ℚ) * spn.numSpec.formatGain + spn.numSpec.formatOffset

/-- `SPNNumeric::setValue`. -/
def setValue (spn : SPNNumeric) (value : UInt32) : SPNNumeric := { spn with value := value }

/-- The quotient of `setFormattedValue`, when the gain is not zero. -/
def quotient (numSpec : SPNNumericSpec) (value : ℚ) : ℚ :=
  (value - numSpec.formatOffset) / numSpec.formatGain

/-- `aux` in `setFormattedValue`. What a division by zero gives fails one of its tests. -/
def rawValue (numSpec : SPNNumericSpec) (value : ℚ) : Option ℚ :=
  if numSpec.formatGain = 0 then none else some (quotient numSpec value)

/-- `threshold` in `setFormattedValue`. -/
def threshold (numSpec : SPNNumericSpec) : UInt64 := 1 <<< (numSpec.byteSize.toUInt64 * 8)

/-- `SPNNumeric::setFormattedValue`, with what it returns. -/
def setFormattedValue (spn : SPNNumeric) (value : ℚ) : SPNNumeric × Bool :=
  match rawValue spn.numSpec value with
  | none => (spn, false)
  | some aux =>
    if aux ≥ 0 ∧ aux < (threshold spn.numSpec).toNat then
      ({ spn with value := UInt32.ofNat ⌊aux⌋.toNat }, true)
    else (spn, false)

/-- The copy constructor. The specifications are shared. -/
def clone (spn : SPNNumeric) : SPNNumeric := spn

/-- `SPNNumeric::copy`. -/
def copy (spn other : SPNNumeric) : SPNNumeric := { spn with value := other.value }

/-- The value is one that the bytes of the SPN can carry. -/
def FitsBytes (spn : SPNNumeric) : Prop := spn.value.toNat < 256 ^ spn.getByteSize.toNat

/-- An SPN of the same definition that decodes what the SPN has encoded gets its value. -/
def RoundTrips (spn : SPNNumeric) : Prop :=
  ∀ (buffer bytes : List UInt8) (length : ℕ) (beyond : Memory) (receiver : SPNNumeric),
    length ≤ buffer.length → spn.encode buffer 0 length = .ok bytes →
    receiver.numSpec = spn.numSpec →
    let received := ((decode length).run receiver (Memory.ofList bytes beyond)).2
    received.value = spn.value ∧ received.getFormattedValue = spn.getFormattedValue

/-! ### Encoding and decoding a value -/

theorem two_pow_eq (n : ℕ) : 2 ^ (8 * n) = 256 ^ n := by rw [pow_mul]; rfl

/-- Decoding what was encoded gives the low bytes of the value. -/
theorem value_decode_encode {spn receiver : SPNNumeric} {buffer bytes : List UInt8} {length : ℕ}
    (hlength : length ≤ buffer.length) (hencode : spn.encode buffer 0 length = .ok bytes)
    (hspec : receiver.numSpec = spn.numSpec) (beyond : Memory) :
    ((decode length).run receiver (Memory.ofList bytes beyond)).2.value.toNat =
      spn.value.toNat % 256 ^ spn.getByteSize.toNat := by
  have hsize : receiver.getByteSize = spn.getByteSize := congrArg SPNNumericSpec.byteSize hspec
  have hfour : spn.getByteSize.toNat ≤ 4 := spn.numSpec.byteSize_le
  unfold encode at hencode
  by_cases hfail : spn.getByteSize.toNat > length ∨ spn.getByteSize.toNat > spnNumericMaxByteSize
  · rw [if_pos hfail] at hencode
    cases hencode
  · rw [if_neg hfail] at hencode
    obtain rfl := Except.ok.inj hencode
    have hbytes := spn.length_valueBytes
    rw [run_decode, hsize, if_neg fun hshort => hfail (.inl hshort), ← two_pow_eq]
    refine readValue_toNat spn.value hfour fun i hi => ?_
    rw [Buffer.writeBytes_eq _ _ _ (by omega), List.take_zero, List.nil_append,
      Memory.ofList_of_lt (by rw [List.length_append]; omega),
      List.getElem_append_left (by omega)]
    simp [valueBytes]

theorem numSpec_decode (length : ℕ) (receiver : SPNNumeric) (mem : Memory) :
    ((decode length).run receiver mem).2.numSpec = receiver.numSpec := by
  rw [run_decode]
  split <;> rfl

theorem encode_own (spn : SPNNumeric) :
    ∃ bytes, spn.encode (List.replicate spn.getByteSize.toNat 0) 0 spn.getByteSize.toNat =
      .ok bytes := by
  have hfour : ¬spn.getByteSize.toNat > spnNumericMaxByteSize :=
    Nat.not_lt.mpr spn.numSpec.byteSize_le
  exact ⟨_, if_neg (by rintro (h | h) <;> omega)⟩

/-- A value survives encoding exactly when the bytes can carry it. -/
theorem roundTrips_iff_fitsBytes (spn : SPNNumeric) : spn.RoundTrips ↔ spn.FitsBytes := by
  constructor
  · intro htrips
    obtain ⟨bytes, hencode⟩ := spn.encode_own
    have hvalue := value_decode_encode (by simp) hencode rfl fun _ => 0
    rw [(htrips _ bytes _ _ spn (by simp) hencode rfl).1] at hvalue
    rw [FitsBytes, hvalue]
    exact Nat.mod_lt _ (Nat.pow_pos (by decide))
  · intro hfits buffer bytes length beyond receiver hlength hencode hspec received
    have hvalue : received.value = spn.value := by
      rw [← UInt32.toNat_inj, value_decode_encode hlength hencode hspec, Nat.mod_eq_of_lt hfits]
    have hreceived : received.numSpec = spn.numSpec := (numSpec_decode ..).trans hspec
    refine ⟨hvalue, ?_⟩
    rw [getFormattedValue, getFormattedValue, hvalue, hreceived]

/-! ### What the operations write -/

theorem toNat_threshold (numSpec : SPNNumericSpec) :
    (threshold numSpec).toNat = 256 ^ numSpec.byteSize.toNat := by
  have hfour : numSpec.byteSize.toNat ≤ 4 := numSpec.byteSize_le
  have hshift : (numSpec.byteSize.toUInt64 * 8).toNat = 8 * numSpec.byteSize.toNat := by
    rw [UInt64.toNat_mul, UInt8.toNat_toUInt64]
    change numSpec.byteSize.toNat * 8 % 2 ^ 64 = _
    omega
  have hpow : 2 ^ (8 * numSpec.byteSize.toNat) < 2 ^ 64 :=
    Nat.pow_lt_pow_right (by decide) (by omega)
  have hamount : 8 * numSpec.byteSize.toNat % 64 = 8 * numSpec.byteSize.toNat :=
    Nat.mod_eq_of_lt (by omega)
  have hone : (1 : UInt64).toNat = 1 := rfl
  rw [threshold, UInt64.toNat_shiftLeft, hshift, hamount, hone, Nat.shiftLeft_eq, Nat.one_mul,
    Nat.mod_eq_of_lt hpow, two_pow_eq]

/-- The tests of `setFormattedValue` let the value pass. -/
def Accepts (numSpec : SPNNumericSpec) (value : ℚ) : Prop :=
  numSpec.formatGain ≠ 0 ∧ 0 ≤ quotient numSpec value ∧
    quotient numSpec value < (256 ^ numSpec.byteSize.toNat : ℕ)

instance (numSpec : SPNNumericSpec) (value : ℚ) : Decidable (Accepts numSpec value) :=
  inferInstanceAs (Decidable (_ ∧ _ ∧ _))

/-- `setFormattedValue` keeps the integral part of a value that passes, or nothing. -/
theorem setFormattedValue_eq (spn : SPNNumeric) (value : ℚ) :
    spn.setFormattedValue value =
      if Accepts spn.numSpec value then
        ({ spn with value := UInt32.ofNat ⌊quotient spn.numSpec value⌋.toNat }, true)
      else (spn, false) := by
  unfold setFormattedValue rawValue Accepts
  by_cases hgain : spn.numSpec.formatGain = 0
  · simp [hgain]
  · simp only [hgain, if_false, toNat_threshold, ge_iff_le, ne_eq, not_false_eq_true, true_and]

/-- The integral part of a value that passes is below the bound of the bytes. -/
theorem floor_lt_of_accepts {numSpec : SPNNumericSpec} {value : ℚ}
    (h : Accepts numSpec value) :
    ⌊quotient numSpec value⌋.toNat < 256 ^ numSpec.byteSize.toNat := by
  obtain ⟨-, hnonneg, hlt⟩ := h
  have hfloor : ⌊quotient numSpec value⌋ < ((256 ^ numSpec.byteSize.toNat : ℕ) : ℤ) := by
    rw [Int.floor_lt]
    exact_mod_cast hlt
  have hfloor_nonneg := Int.floor_nonneg.mpr hnonneg
  omega

theorem bytes_le (numSpec : SPNNumericSpec) : 256 ^ numSpec.byteSize.toNat ≤ 2 ^ 32 := by
  rw [← two_pow_eq]
  have hfour : numSpec.byteSize.toNat ≤ 4 := numSpec.byteSize_le
  exact Nat.pow_le_pow_right (by decide) (by omega)

/-- A buffer with room for the bytes carries the value to every SPN of the same definition. -/
def Carried (spn : SPNNumeric) : Prop :=
  ∀ (buffer : List UInt8) (length : ℕ), spn.getByteSize.toNat ≤ length → length ≤ buffer.length →
    ∃ bytes, spn.encode buffer 0 length = .ok bytes ∧
      ∀ (receiver : SPNNumeric) (beyond : Memory), receiver.numSpec = spn.numSpec →
        ∃ received, (decode length).run receiver (Memory.ofList bytes beyond) = (.ok (), received) ∧
          received.value = spn.value ∧ received.getFormattedValue = spn.getFormattedValue

/-- A value that the bytes can carry is carried. -/
theorem FitsBytes.carried {spn : SPNNumeric} (h : spn.FitsBytes) : spn.Carried := by
  intro buffer length hsize hlength
  have hfour : ¬spn.getByteSize.toNat > spnNumericMaxByteSize :=
    Nat.not_lt.mpr spn.numSpec.byteSize_le
  have hencode : spn.encode buffer 0 length = .ok (writeBytes buffer 0 spn.valueBytes) :=
    if_neg (by rintro (h | h) <;> omega)
  refine ⟨_, hencode, fun receiver beyond hspec => ?_⟩
  have hreceiver : receiver.getByteSize = spn.getByteSize :=
    congrArg SPNNumericSpec.byteSize hspec
  obtain ⟨hvalue, hformatted⟩ := (spn.roundTrips_iff_fitsBytes.mpr h) buffer _ length beyond
    receiver hlength hencode hspec
  refine ⟨_, Prod.ext ?_ rfl, hvalue, hformatted⟩
  rw [run_decode, if_neg (by rw [hreceiver]; omega)]

/-! ### Formatted values are quantised -/

/-- The scale of the formatted values. -/
def scale (numSpec : SPNNumericSpec) (hgain : numSpec.formatGain ≠ 0) : Scale ℚ :=
  ⟨numSpec.formatGain, numSpec.formatOffset, hgain⟩

/-- What `setFormattedValue` does with a value: it stores the raw value below it, or nothing. -/
structure Quantised (spn : SPNNumeric) (value : ℚ) : Prop where
  returned : (spn.setFormattedValue value).2 = true ↔
    0 ≤ (value - spn.numSpec.formatOffset) / spn.numSpec.formatGain ∧
      (value - spn.numSpec.formatOffset) / spn.numSpec.formatGain <
        (256 ^ spn.getByteSize.toNat : ℕ)
  near : (spn.setFormattedValue value).2 = true →
    |(spn.setFormattedValue value).1.getFormattedValue - value| < |spn.numSpec.formatGain|
  carried : (spn.setFormattedValue value).2 = true → (spn.setFormattedValue value).1.Carried
  unchanged : (spn.setFormattedValue value).2 = false → (spn.setFormattedValue value).1 = spn

theorem setFormattedValue_of_accepts {spn : SPNNumeric} {value : ℚ}
    (h : Accepts spn.numSpec value) :
    ∃ stored, spn.setFormattedValue value = (stored, true) ∧ stored.numSpec = spn.numSpec ∧
      (stored.value.toNat : ℤ) = ⌊quotient spn.numSpec value⌋ ∧ stored.FitsBytes := by
  have hlt := floor_lt_of_accepts h
  have hword := bytes_le spn.numSpec
  have hvalue : (UInt32.ofNat ⌊quotient spn.numSpec value⌋.toNat).toNat =
      ⌊quotient spn.numSpec value⌋.toNat := by
    rw [UInt32.toNat_ofNat', Nat.mod_eq_of_lt (lt_of_lt_of_le hlt hword)]
  refine ⟨_, (setFormattedValue_eq spn value).trans (if_pos h), rfl, ?_, ?_⟩
  · rw [hvalue, Int.toNat_of_nonneg (Int.floor_nonneg.mpr h.2.1)]
  · exact lt_of_eq_of_lt hvalue hlt

/-- The stored value reads as the one asked for, up to one gain. -/
theorem abs_getFormattedValue_sub_lt {spn stored : SPNNumeric} {value : ℚ}
    (hgain : spn.numSpec.formatGain ≠ 0) (hspec : stored.numSpec = spn.numSpec)
    (hvalue : (stored.value.toNat : ℤ) = ⌊quotient spn.numSpec value⌋) :
    |stored.getFormattedValue - value| < |spn.numSpec.formatGain| := by
  have hraw : (stored.value.toNat : ℚ) = (⌊quotient spn.numSpec value⌋ : ℚ) := by
    rw [← hvalue, Int.cast_natCast]
  rw [getFormattedValue, hspec, hraw]
  exact (scale spn.numSpec hgain).abs_reading_floor_sub_lt value

/-- A formatted value stands at the raw value. -/
theorem quotient_getFormattedValue (spn : SPNNumeric) (hgain : spn.numSpec.formatGain ≠ 0) :
    quotient spn.numSpec spn.getFormattedValue = spn.value.toNat :=
  (scale spn.numSpec hgain).position_reading spn.value.toNat

/-- With a gain, formatted values are quantised and never wrapped, and the formatted value of an
SPN sets the SPN to itself. -/
theorem setFormattedValue_quantises (spn : SPNNumeric) (hgain : spn.numSpec.formatGain ≠ 0) :
    (∀ value, spn.Quantised value) ∧
      (spn.FitsBytes → spn.setFormattedValue spn.getFormattedValue = (spn, true)) := by
  constructor
  · intro value
    have haccepts : Accepts spn.numSpec value ↔ _ := and_iff_right hgain
    by_cases h : Accepts spn.numSpec value
    · obtain ⟨stored, hset, hspec, hvalue, hfits⟩ := setFormattedValue_of_accepts h
      constructor
      · rw [hset]
        exact iff_of_true rfl (haccepts.mp h)
      · intro _
        rw [hset]
        exact abs_getFormattedValue_sub_lt hgain hspec hvalue
      · intro _
        rw [hset]
        exact hfits.carried
      · intro hfalse
        rw [hset] at hfalse
        cases hfalse
    · have hset : spn.setFormattedValue value = (spn, false) :=
        (setFormattedValue_eq spn value).trans (if_neg h)
      constructor
      · rw [hset]
        exact iff_of_false Bool.false_ne_true fun hrange => h (haccepts.mpr hrange)
      · intro htrue
        rw [hset] at htrue
        cases htrue
      · intro htrue
        rw [hset] at htrue
        cases htrue
      · intro _
        rw [hset]
  · intro hfits
    have hquotient := spn.quotient_getFormattedValue hgain
    have haccepts : Accepts spn.numSpec spn.getFormattedValue := by
      refine ⟨hgain, ?_, ?_⟩
      · rw [hquotient]
        exact Nat.cast_nonneg _
      · rw [hquotient]
        exact Nat.cast_lt.mpr hfits
    have hfloor : ⌊quotient spn.numSpec spn.getFormattedValue⌋.toNat = spn.value.toNat := by
      rw [hquotient, Int.floor_natCast, Int.toNat_natCast]
    rw [setFormattedValue_eq, if_pos haccepts, hfloor, UInt32.ofNat_toNat]

/-- The engine speed is set to the eighth of a revolution below the one asked for. -/
theorem engineSpeed_quantised :
    let spn : SPNNumeric := ⟨engineSpeed 0, engineSpeedSpec, 0x2EE0⟩
    ∃ stored, spn.setFormattedValue (5001 / 5) = (stored, true) ∧ stored.Carried ∧
      |stored.getFormattedValue - 5001 / 5| < |1 / 8| ∧
      spn.setFormattedValue spn.getFormattedValue = (spn, true) := by
  intro spn
  obtain ⟨hquantised, hown⟩ := setFormattedValue_quantises spn (by decide +kernel)
  have hvalue := hquantised (5001 / 5)
  have htrue : (spn.setFormattedValue (5001 / 5)).2 = true :=
    hvalue.returned.mpr (by decide +kernel)
  have hfits : spn.FitsBytes := by
    unfold FitsBytes
    decide
  exact ⟨_, Prod.ext rfl htrue, hvalue.carried htrue, hvalue.near htrue, hown hfits⟩

end SPNNumeric

/-! ### How a value comes about -/

/-- How an SPN of one definition has come about, and those it was cloned or copied from. -/
inductive NumericHistory
  | construct
  | setValue (before : NumericHistory) (value : UInt32)
  | setFormattedValue (before : NumericHistory) (value : ℚ)
  | decode (before : NumericHistory) (buffer : Memory) (length : ℕ)
  | clone (original : NumericHistory)
  | copy (before other : NumericHistory)

namespace NumericHistory

/-- The SPN at the end of a history. -/
def spn (spec : SPNSpec) (numSpec : SPNNumericSpec) : NumericHistory → SPNNumeric
  | construct => { spec := spec, numSpec := numSpec }
  | setValue before value => (before.spn spec numSpec).setValue value
  | setFormattedValue before value => ((before.spn spec numSpec).setFormattedValue value).1
  | decode before buffer length =>
    ((SPNNumeric.decode length).run (before.spn spec numSpec) buffer).2
  | clone original => (original.spn spec numSpec).clone
  | copy before other => (before.spn spec numSpec).copy (other.spn spec numSpec)

/-- The value was last written by an operation that keeps to the bytes, or by `setValue` with a
value that they can carry, or there are four of them. -/
def KeepsToBytes (numSpec : SPNNumericSpec) : NumericHistory → Prop
  | construct => numSpec.byteSize = 4
  | setValue _ value => value.toNat < 256 ^ numSpec.byteSize.toNat
  | setFormattedValue before value =>
    SPNNumeric.Accepts numSpec value ∨ before.KeepsToBytes numSpec
  | decode before _ length => numSpec.byteSize.toNat ≤ length ∨ before.KeepsToBytes numSpec
  | clone original => original.KeepsToBytes numSpec
  | copy _ other => other.KeepsToBytes numSpec

theorem numSpec_spn (spec : SPNSpec) (numSpec : SPNNumericSpec) (h : NumericHistory) :
    (h.spn spec numSpec).numSpec = numSpec := by
  induction h with
  | construct => rfl
  | setValue before value ih => exact ih
  | setFormattedValue before value ih =>
    rw [spn, SPNNumeric.setFormattedValue_eq]
    split
    · exact ih
    · exact ih
  | decode before buffer length ih => exact (SPNNumeric.numSpec_decode ..).trans ih
  | clone original ih => exact ih
  | copy before other ih _ => exact ih

/-- The value at the end of a history fits the bytes exactly when what has last written it keeps
to them. -/
theorem fitsBytes_iff (spec : SPNSpec) (numSpec : SPNNumericSpec) (h : NumericHistory) :
    (h.spn spec numSpec).FitsBytes ↔ h.KeepsToBytes numSpec := by
  have hsize : ∀ h : NumericHistory, (h.spn spec numSpec).getByteSize = numSpec.byteSize :=
    fun h => congrArg SPNNumericSpec.byteSize (h.numSpec_spn spec numSpec)
  have hfour : numSpec.byteSize.toNat ≤ 4 := numSpec.byteSize_le
  induction h with
  | construct =>
    change 2 ^ 32 - 1 < 256 ^ numSpec.byteSize.toNat ↔ numSpec.byteSize = 4
    constructor
    · intro hfits
      have hlarge : ¬numSpec.byteSize.toNat ≤ 3 := by
        intro hsmall
        have hpow : 256 ^ numSpec.byteSize.toNat ≤ 256 ^ 3 :=
          Nat.pow_le_pow_right (by decide) hsmall
        omega
      exact UInt8.toNat_inj.mp (show numSpec.byteSize.toNat = 4 by omega)
    · intro hbytes
      rw [hbytes]
      decide
  | setValue before value ih =>
    rw [SPNNumeric.FitsBytes, hsize, KeepsToBytes]
    rfl
  | setFormattedValue before value ih =>
    have hspec := before.numSpec_spn spec numSpec
    by_cases haccepts : SPNNumeric.Accepts numSpec value
    · refine iff_of_true ?_ (Or.inl haccepts)
      rw [← hspec] at haccepts
      obtain ⟨stored, hset, -, -, hfits⟩ := SPNNumeric.setFormattedValue_of_accepts haccepts
      rw [spn, hset]
      exact hfits
    · rw [spn, SPNNumeric.setFormattedValue_eq, KeepsToBytes, hspec, if_neg haccepts]
      exact ih.trans (or_iff_right haccepts).symm
  | decode before buffer length ih =>
    rw [spn, SPNNumeric.run_decode, KeepsToBytes, hsize]
    by_cases hlong : numSpec.byteSize.toNat ≤ length
    · refine iff_of_true ?_ (Or.inl hlong)
      rw [if_neg (by omega), SPNNumeric.FitsBytes, ← SPNNumeric.two_pow_eq]
      exact lt_of_lt_of_eq (SPNNumeric.toNat_readValue hfour buffer).1
        (congrArg (fun size : UInt8 => 2 ^ (8 * size.toNat)) (hsize before).symm)
    · rw [if_pos (by omega)]
      exact ih.trans (or_iff_right hlong).symm
  | clone original ih => exact ih
  | copy before other _ ih =>
    refine Iff.trans ?_ ih
    rw [SPNNumeric.FitsBytes, SPNNumeric.FitsBytes, hsize, hsize]
    rfl

end NumericHistory

end J1939
