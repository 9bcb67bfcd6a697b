import J1939.J1939Frame

/-!
# The 29-bit identifier

The identifier is priority, PGN and source address side by side. This file reads
its fields as numbers, and compares the PGN that a frame is sent under with the
PGN under which its identifier is looked up again.
-/

namespace J1939

/-- The PGNs whose identifiers are read back: those of PDU format 2, and those of
PDU format 1 in the first data page. -/
def PgnReadsBack (pgn : UInt32) : Prop :=
  getPDUFormatGroup pgn = .pduFormat2 ∨ pgn < 0x10000

instance (pgn : UInt32) : Decidable (PgnReadsBack pgn) :=
  inferInstanceAs (Decidable (_ ∨ _))

theorem getPDUFormat_toNat (pgn : UInt32) : (getPDUFormat pgn).toNat = pgn.toNat / 256 % 256 :=
  Bits.toNat_field pgn 8 0xFF (w := 8) (by decide) (by decide)

/-- The delimiter test as a bound on the PDU format byte. -/
theorem getPDUFormat_lt_iff (pgn : UInt32) :
    getPDUFormat pgn < pduFmtDelimiter ↔ pgn.toNat / 256 % 256 < 240 := by
  rw [UInt32.lt_iff_toNat_lt, getPDUFormat_toNat]
  rfl

theorem getPDUFormatGroup_eq_one_iff (pgn : UInt32) :
    getPDUFormatGroup pgn = .pduFormat1 ↔ pgn.toNat / 256 % 256 < 240 := by
  rw [← getPDUFormat_lt_iff]
  unfold getPDUFormatGroup
  by_cases h : getPDUFormat pgn < pduFmtDelimiter
  · rw [if_pos h]
    exact iff_of_true rfl h
  · rw [if_neg h]
    exact iff_of_false (by decide) h

theorem getPDUFormatGroup_eq_two_iff (pgn : UInt32) :
    getPDUFormatGroup pgn = .pduFormat2 ↔ 240 ≤ pgn.toNat / 256 % 256 := by
  rw [← not_lt, ← getPDUFormatGroup_eq_one_iff]
  cases getPDUFormatGroup pgn <;> simp

/-- The constructor's assertion says that a PGN of PDU format 1 ends in a zero byte. -/
theorem constructorAssertion_iff (pgn : UInt32) :
    constructorAssertion pgn ↔ 240 ≤ pgn.toNat / 256 % 256 ∨ pgn.toNat % 256 = 0 := by
  have hlow : (pgn &&& dstAddrMask) >>> dstAddrOffset = 0 ↔ pgn.toNat % 256 = 0 := by
    rw [← UInt32.toNat_inj, UInt32.toNat_shiftRight, Bits.toNat_low pgn dstAddrMask (w := 8) rfl]
    rfl
  rw [constructorAssertion, getPDUFormatGroup_eq_two_iff, hlow]

theorem identifierPgn_toNat (identifier : UInt32) :
    (identifierPgn identifier).toNat = identifier.toNat / 256 % 2 ^ 18 :=
  Bits.toNat_field identifier 8 0x3FFFF (w := 18) (by decide) (by decide)

theorem lookupPgn_toNat (identifier : UInt32) :
    (lookupPgn identifier).toNat =
      if identifier.toNat / 65536 % 256 < 240 then identifier.toNat / 65536 % 256 * 256
      else identifier.toNat / 256 % 2 ^ 18 := by
  have hfmt : (identifierPgn identifier).toNat / 256 % 256 = identifier.toNat / 65536 % 256 := by
    rw [identifierPgn_toNat]
    omega
  unfold lookupPgn
  by_cases h : identifier.toNat / 65536 % 256 < 240
  · rw [if_pos h, if_pos ((getPDUFormat_lt_iff _).mpr (by rwa [hfmt])),
      Bits.toNat_inPlace (identifierPgn identifier) _ (k := 8) (w := 8) (by decide)]
    exact congrArg (· * 256) hfmt
  · rw [if_neg h, if_neg (fun hlt => h (by rwa [getPDUFormat_lt_iff, hfmt] at hlt)),
      identifierPgn_toNat]

section Header

variable {b : J1939Frame}

/-- The PGN field of a frame whose PGN passed the constructor's assertion. -/
theorem pgnField_toNat (hpgn : constructorAssertion b.pgn) :
    b.pgnField.toNat =
      if getPDUFormatGroup b.pgn = .pduFormat1 then b.pgn.toNat + b.dstAddr.toNat
      else b.pgn.toNat := by
  unfold J1939Frame.pgnField
  by_cases hfmt : getPDUFormatGroup b.pgn = .pduFormat1
  · have hlow : b.pgn.toNat % 2 ^ 8 = 0 := by
      have h240 := (getPDUFormatGroup_eq_one_iff _).mp hfmt
      rcases (constructorAssertion_iff _).mp hpgn with h | h
      · omega
      · exact h
    have hdst : ((b.dstAddr.toUInt32 &&& dstAddrMask) <<< dstAddrOffset).toNat =
        b.dstAddr.toNat := by
      have hlt := b.dstAddr.toNat_lt
      rw [UInt32.toNat_shiftLeft, Bits.toNat_low _ dstAddrMask (w := 8) rfl]
      simp only [UInt8.toNat_toUInt32, dstAddrOffset, UInt32.reduceToNat, Nat.shiftLeft_eq,
        Nat.reduceMod, Nat.reducePow]
      omega
    rw [if_pos hfmt, if_pos hfmt, Bits.toNat_or_low b.pgn _ (w := 8) hlow, hdst]
    rw [hdst]
    exact b.dstAddr.toNat_lt
  · rw [if_neg hfmt, if_neg hfmt]

/-- The identifier is the sum of its shifted fields. -/
theorem getIdentifier_toNat (hprio : b.priority ≤ 7) :
    b.getIdentifier.toNat =
      b.srcAddr.toNat + b.pgnField.toNat % 2 ^ 18 * 256 + b.priority.toNat * 2 ^ 26 := by
  have hsrc := b.srcAddr.toNat_lt
  have hp : b.priority.toNat ≤ 7 := UInt8.le_iff_toNat_le.mp hprio
  have hfield : (b.pgnField &&& pgnMask).toNat = b.pgnField.toNat % 2 ^ 18 :=
    Bits.toNat_low _ pgnMask (w := 18) rfl
  have hlow : (b.srcAddr.toUInt32 ||| ((b.pgnField &&& pgnMask) <<< pgnOffset)).toNat =
      b.srcAddr.toNat + b.pgnField.toNat % 2 ^ 18 * 256 := by
    rw [Bits.toNat_or_shiftLeft _ _ pgnOffset (by decide), hfield]
    · rfl
    · simpa using hsrc
    · rw [hfield]
      simp only [pgnOffset, UInt32.reduceToNat]
      omega
  unfold J1939Frame.getIdentifier
  rw [Bits.toNat_or_shiftLeft _ _ priorityOffset (by decide), hlow]
  · rfl
  · rw [hlow]
    simp only [priorityOffset, UInt32.reduceToNat]
    omega
  · simp only [priorityOffset, UInt32.reduceToNat, UInt8.toNat_toUInt32]
    omega

/-- The PGN field fits in its 18 bits, so the mask of `getIdentifier` keeps it. -/
theorem pgnField_lt (hpgn : constructorAssertion b.pgn) (hlt : b.pgn ≤ 0x3FFFF) :
    b.pgnField.toNat < 2 ^ 18 := by
  have hle : b.pgn.toNat ≤ 0x3FFFF := UInt32.le_iff_toNat_le.mp hlt
  have hdst := b.dstAddr.toNat_lt
  rw [pgnField_toNat hpgn]
  split_ifs with hfmt
  · have h240 := (getPDUFormatGroup_eq_one_iff _).mp hfmt
    have hlow := (constructorAssertion_iff _).mp hpgn
    omega
  · omega

/-- The PDU format byte of the PGN is found at its place in the identifier. -/
theorem pduFormat_getIdentifier (hprio : b.priority ≤ 7) (hpgn : constructorAssertion b.pgn)
    (hlt : b.pgn ≤ 0x3FFFF) :
    b.getIdentifier.toNat / 65536 % 256 = b.pgn.toNat / 256 % 256 := by
  have hfield := pgnField_lt hpgn hlt
  have hsrc := b.srcAddr.toNat_lt
  have hdst := b.dstAddr.toNat_lt
  rw [getIdentifier_toNat hprio, Nat.mod_eq_of_lt hfield, pgnField_toNat hpgn]
  split_ifs with hfmt
  · have h240 := (getPDUFormatGroup_eq_one_iff _).mp hfmt
    have hlow := (constructorAssertion_iff _).mp hpgn
    omega
  · omega

/-- An identifier is looked up under the PGN it was built from exactly when that
PGN reads back: for PDU format 1 the look-up drops the data page bits. -/
theorem lookupPgn_getIdentifier_iff (hprio : b.priority ≤ 7) (hpgn : constructorAssertion b.pgn)
    (hlt : b.pgn ≤ 0x3FFFF) : lookupPgn b.getIdentifier = b.pgn ↔ PgnReadsBack b.pgn := by
  have hsrc := b.srcAddr.toNat_lt
  have hfield := pgnField_lt hpgn hlt
  have hlow := (constructorAssertion_iff _).mp hpgn
  rw [PgnReadsBack, getPDUFormatGroup_eq_two_iff, UInt32.lt_iff_toNat_lt, ← UInt32.toNat_inj,
    lookupPgn_toNat, pduFormat_getIdentifier hprio hpgn hlt]
  have hbound : (0x10000 : UInt32).toNat = 65536 := rfl
  rw [hbound]
  split_ifs with h240
  · constructor
    · intro heq
      omega
    · rintro (h | h) <;> omega
  · have hgroup : getPDUFormatGroup b.pgn ≠ .pduFormat1 := fun h =>
      h240 ((getPDUFormatGroup_eq_one_iff _).mp h)
    have hvalue := pgnField_toNat hpgn
    rw [if_neg hgroup] at hvalue
    rw [getIdentifier_toNat hprio, Nat.mod_eq_of_lt hfield, hvalue]
    omega

theorem receivedHeader_priority_toNat (h : Header) (identifier : UInt32) :
    (receivedHeader h identifier).priority.toNat = identifier.toNat / 2 ^ 26 % 8 := by
  have hbits : ((identifier >>> priorityOffset) &&& priorityMask.toUInt32).toNat =
      identifier.toNat / 2 ^ 26 % 8 :=
    Bits.toNat_field identifier 26 7 (w := 3) (by decide) (by decide)
  have hbyte : (receivedHeader h identifier).priority.toNat =
      ((identifier >>> priorityOffset) &&& priorityMask.toUInt32).toNat % 256 :=
    UInt32.toNat_toUInt8 _
  rw [hbyte, hbits]
  omega

theorem receivedHeader_srcAddr_toNat (h : Header) (identifier : UInt32) :
    (receivedHeader h identifier).srcAddr.toNat = identifier.toNat % 256 := by
  have hbyte : (receivedHeader h identifier).srcAddr.toNat =
      (identifier &&& srcAddrMask).toNat % 256 :=
    UInt32.toNat_toUInt8 _
  rw [hbyte, Bits.toNat_low identifier srcAddrMask (w := 8) rfl]
  omega

theorem receivedHeader_dstAddr_toNat (h : Header) {identifier : UInt32}
    (h240 : identifier.toNat / 65536 % 256 < 240) :
    (receivedHeader h identifier).dstAddr.toNat = identifier.toNat / 256 % 256 := by
  have hpgn := identifierPgn_toNat identifier
  have hpdu : getPDUFormat (identifierPgn identifier) < pduFmtDelimiter := by
    rw [getPDUFormat_lt_iff, hpgn]
    omega
  have hbits : ((identifierPgn identifier >>> dstAddrOffset) &&& dstAddrMask).toNat =
      (identifierPgn identifier).toNat / 2 ^ 0 % 256 :=
    Bits.toNat_field (identifierPgn identifier) 0 0xFF (w := 8) (by decide) (by decide)
  have hbyte : (receivedHeader h identifier).dstAddr.toNat =
      ((identifierPgn identifier >>> dstAddrOffset) &&& dstAddrMask).toNat % 256 := by
    rw [receivedHeader, if_pos hpdu]
    exact UInt32.toNat_toUInt8 _
  rw [hbyte, hbits, hpgn]
  omega

/-- The fields that `decode` reads from an identifier are those it was built from. -/
theorem receivedHeader_getIdentifier (h : Header) (hprio : b.priority ≤ 7)
    (hpgn : constructorAssertion b.pgn) (hlt : b.pgn ≤ 0x3FFFF) :
    (receivedHeader h b.getIdentifier).priority = b.priority ∧
      (receivedHeader h b.getIdentifier).srcAddr = b.srcAddr ∧
      (getPDUFormatGroup b.pgn = .pduFormat1 →
        (receivedHeader h b.getIdentifier).dstAddr = b.dstAddr) := by
  have hsrc := b.srcAddr.toNat_lt
  have hdst := b.dstAddr.toNat_lt
  have hp : b.priority.toNat ≤ 7 := UInt8.le_iff_toNat_le.mp hprio
  have hfield := pgnField_lt hpgn hlt
  have hid := getIdentifier_toNat hprio
  rw [Nat.mod_eq_of_lt hfield] at hid
  refine ⟨?_, ?_, fun hfmt => ?_⟩
  · apply UInt8.toNat_inj.mp
    rw [receivedHeader_priority_toNat, hid]
    omega
  · apply UInt8.toNat_inj.mp
    rw [receivedHeader_srcAddr_toNat, hid]
    omega
  · have h240 := (getPDUFormatGroup_eq_one_iff _).mp hfmt
    have hlow := (constructorAssertion_iff _).mp hpgn
    have hvalue := pgnField_toNat hpgn
    rw [if_pos hfmt] at hvalue
    apply UInt8.toNat_inj.mp
    rw [receivedHeader_dstAddr_toNat h (by rwa [pduFormat_getIdentifier hprio hpgn hlt]), hid,
      hvalue]
    omega

/-- A header read from a 29-bit identifier gives the identifier back exactly when
the PGN bits of the identifier read back. -/
theorem getIdentifier_receivedHeader_iff {identifier : UInt32} (h : Header)
    (hid : identifier < 0x20000000) :
    (J1939Frame.mk (receivedHeader h identifier) (lookupPgn identifier)).getIdentifier =
        identifier ↔ PgnReadsBack (identifierPgn identifier) := by
  set b : J1939Frame := ⟨receivedHeader h identifier, lookupPgn identifier⟩ with hb
  have hlt : identifier.toNat < 536870912 := UInt32.lt_iff_toNat_lt.mp hid
  have hlookup : b.pgn.toNat = _ := lookupPgn_toNat identifier
  have hsrc : b.srcAddr.toNat = _ := receivedHeader_srcAddr_toNat h identifier
  have hprio : b.priority.toNat = identifier.toNat / 2 ^ 26 % 8 :=
    receivedHeader_priority_toNat h identifier
  have hprio7 : b.priority ≤ 7 := by
    rw [UInt8.le_iff_toNat_le, hprio]
    change _ ≤ 7
    omega
  have hassert : constructorAssertion b.pgn := by
    rw [constructorAssertion_iff, hlookup]
    split_ifs <;> omega
  have hle : b.pgn ≤ 0x3FFFF := by
    rw [UInt32.le_iff_toNat_le, hlookup]
    change _ ≤ 262143
    split_ifs <;> omega
  have hvalue := pgnField_toNat hassert
  have hidPgn := identifierPgn_toNat identifier
  have hbound : (0x10000 : UInt32).toNat = 65536 := rfl
  rw [PgnReadsBack, getPDUFormatGroup_eq_two_iff, UInt32.lt_iff_toNat_lt, hbound, hidPgn,
    ← UInt32.toNat_inj, getIdentifier_toNat hprio7, Nat.mod_eq_of_lt (pgnField_lt hassert hle),
    hsrc, hprio]
  by_cases h240 : identifier.toNat / 65536 % 256 < 240
  · have hgroup : getPDUFormatGroup b.pgn = .pduFormat1 := by
      rw [getPDUFormatGroup_eq_one_iff, hlookup, if_pos h240]
      omega
    have hdst : b.dstAddr.toNat = _ := receivedHeader_dstAddr_toNat h h240
    rw [if_pos hgroup, hlookup, if_pos h240, hdst] at hvalue
    rw [hvalue]
    omega
  · have hgroup : getPDUFormatGroup b.pgn ≠ .pduFormat1 := by
      rw [Ne, getPDUFormatGroup_eq_one_iff, hlookup, if_neg h240]
      omega
    rw [if_neg hgroup, hlookup, if_neg h240] at hvalue
    rw [hvalue]
    omega

end Header

end J1939
