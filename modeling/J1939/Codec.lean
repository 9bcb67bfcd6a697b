import J1939.Identifier
import J1939.J1939Factory

/-!
# Frames on the wire

What `encode` produces, and what `decode` and the factory make of it.
-/

namespace J1939

section Encode

variable {F : Type} [IsJ1939Frame F]

/-- The three bits of the identifier hold a priority up to 7. -/
theorem priority_masked_iff (priority : UInt8) :
    priority &&& priorityMask = priority ↔ priority ≤ 7 := by
  rw [@Bits.and_lowByte_eq_iff _ _ 3 rfl, UInt8.le_iff_toNat_le]
  exact Nat.lt_succ_iff

/-- What a successful `encode` leaves in its output arguments. -/
theorem encode_eq_ok_iff {f : F} {length : ℕ} {e : Encoded} :
    encode f length = .ok e ↔
      getPriority f ≤ 7 ∧ getDataLength f ≤ length ∧
        encodeData f (List.replicate length 0xFF) = .ok e.buffer ∧
          e.identifier = getIdentifier f ∧ e.length = getDataLength f := by
  simp only [encode, getIdentifier]
  rw [← priority_masked_iff]
  by_cases hprio : getPriority f &&& priorityMask = getPriority f
  · rw [if_neg (not_not.mpr hprio), hprio]
    by_cases hlength : length < getDataLength f
    · rw [if_pos hlength]
      constructor
      · rintro ⟨⟩
      · rintro ⟨-, hle, -⟩
        omega
    · rw [if_neg hlength]
      cases hdata : encodeData f (List.replicate length 0xFF) with
      | error x =>
        constructor
        · rintro ⟨⟩
        · rintro ⟨-, -, ⟨⟩, -⟩
      | ok buffer =>
        constructor
        · rintro ⟨⟩
          exact ⟨rfl, Nat.le_of_not_lt hlength, rfl, rfl, rfl⟩
        · rintro ⟨-, -, hbuffer, hid, hlen⟩
          obtain ⟨identifier, buffer', length'⟩ := e
          cases hbuffer
          simp only at hid hlen
          rw [hid, hlen]
          rfl
  · rw [if_pos hprio]
    constructor
    · rintro ⟨⟩
    · rintro ⟨h, -⟩
      exact absurd h hprio

/-- A frame with a valid priority and enough room fails as its data does. -/
theorem encode_of_error {f : F} {length : ℕ} {e : J1939Exception} (hprio : getPriority f ≤ 7)
    (hlength : getDataLength f ≤ length)
    (h : encodeData f (List.replicate length 0xFF) = .error e) : encode f length = .error e := by
  simp only [encode]
  rw [if_neg (not_not.mpr ((priority_masked_iff _).mpr hprio)), if_neg (Nat.not_lt.mpr hlength), h]

theorem length_encode {f : F} {length : ℕ} {e : Encoded} (h : encode f length = .ok e) :
    e.buffer.length = length := by
  obtain ⟨-, -, hdata, -, -⟩ := encode_eq_ok_iff.mp h
  rw [IsJ1939Frame.encodeData_length f _ _ hdata, List.length_replicate]

end Encode

section Decode

variable {F G : Type} [IsJ1939Frame F] [IsJ1939Frame G]

/-- The identifier of a frame is looked up under the PGN of the frame exactly when
that PGN reads back. -/
theorem lookupPgn_iff {f : F} (hprio : getPriority f ≤ 7)
    (hpgn : constructorAssertion (getPGN f)) (hlt : getPGN f ≤ 0x3FFFF) :
    lookupPgn (getIdentifier f) = getPGN f ↔ PgnReadsBack (getPGN f) :=
  lookupPgn_getIdentifier_iff (b := base f) hprio hpgn hlt

/-- The PGN of a frame that the factory returns is the one that its identifier is looked up
under. -/
theorem J1939Factory.getPGN_of_value {factory : J1939Factory} {id : UInt32} {length : ℕ}
    {mem : Memory} {frame : Frame}
    (h : (factory.getJ1939Frame id length).value mem = .ok (some frame)) :
    lookupPgn id = getPGN frame := by
  obtain ⟨proto, -, hrun⟩ := J1939Factory.exists_run_of_value h
  obtain ⟨hmatch, hpgn, -⟩ := header_decode hrun
  rw [hmatch, hpgn]

end Decode

end J1939
