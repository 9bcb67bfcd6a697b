import J1939.GenericFrame

/-!
# Active trouble codes

A `DM1` frame starts with eight lamp statuses, inherited from `GenericFrame`, and
goes on with trouble codes of four bytes.
-/

namespace J1939

@[simp] def dtcSize : ℕ := 4
@[simp] def dtcCmMask : UInt8 := 0x80
@[simp] def dtcOcMask : UInt8 := 0x7F
@[simp] def dtcFmiMask : UInt8 := 0x1F

structure DTC where
  spn : UInt32 := 0
  fmi : UInt8 := 0
  oc : UInt8 := 0
  deriving DecidableEq, Repr

namespace DTC

/-- `DTC::decode`. -/
def decode : Method DTC J1939Exception Unit := do
  let b3 ← Method.byte 3
  Method.throwIf (b3 &&& dtcCmMask ≠ 0) .dtcConversionMethod
  let b0 ← Method.byte 0
  Method.modify fun d => { d with spn := b0.toUInt32 }
  let b1 ← Method.byte 1
  Method.modify fun d => { d with spn := d.spn ||| (b1.toUInt32 <<< 8) }
  let b2 ← Method.byte 2
  Method.modify fun d =>
    { d with spn := d.spn ||| ((b2 &&& ~~~dtcFmiMask).toUInt32 <<< 11), fmi := b2 &&& dtcFmiMask }
  Method.modify fun d => { d with oc := b3 &&& dtcOcMask }

/-- The bytes that `DTC::encode` writes. -/
def encode (d : DTC) : List UInt8 :=
  [(d.spn &&& 0xFF).toUInt8, ((d.spn >>> 8) &&& 0xFF).toUInt8,
    ((d.spn >>> 11).toUInt8 &&& ~~~dtcFmiMask) ||| (d.fmi &&& dtcFmiMask),
    (d.oc &&& dtcOcMask) &&& ~~~dtcCmMask]

end DTC

@[simp] def dm1Pgn : UInt32 := 0x00FECA
@[simp] def dm1MinimumLength : ℕ := 8

structure DM1 extends GenericFrame where
  dtcs : List DTC := []
  deriving DecidableEq

namespace DM1

/-- A lamp status of two bits, as the constructor of `DM1` registers it. -/
def lampStatus (number : UInt32) (name : String) (offset : ℕ) (bitOffset : UInt8)
    (hnumber : number < 0x80000) (hbits : bitOffset.toNat + 2 ≤ 8) : SPN :=
  .status
    { spec := ⟨number, name, offset, hnumber⟩
      statSpec := ⟨bitOffset, 2, ∅, Nat.two_pos, hbits⟩ }

/-- The lamp statuses in the order of their registration. -/
def lamps : List SPN :=
  [lampStatus 1213 "Malfunction indicator Lamp Status" 0 6 (by decide) (by decide),
    lampStatus 623 "Red Stop Lamp Status" 0 4 (by decide) (by decide),
    lampStatus 624 "Amber Warning Lamp Status" 0 2 (by decide) (by decide),
    lampStatus 987 "Protect Lamp Status" 0 0 (by decide) (by decide),
    lampStatus 3038 "Flash Malfunction indicator Lamp Status" 1 6 (by decide) (by decide),
    lampStatus 3039 "Flash Red Stop Lamp Status" 1 4 (by decide) (by decide),
    lampStatus 3040 "Flash Amber Warning Lamp Status" 1 2 (by decide) (by decide),
    lampStatus 3041 "Flash Protect Lamp Status" 1 0 (by decide) (by decide)]

/-- The constructor of `DM1`. -/
def new : DM1 :=
  { lamps.foldl GenericFrame.registerSPN ({ pgn := dm1Pgn } : GenericFrame) with name := "DM1" }

/-- Keep a decoded trouble code. One with SPN 0 says that there are no faults. -/
def pushDtc (f : DM1) (d : DTC) : DM1 :=
  if d.spn ≠ 0 then { f with dtcs := f.dtcs ++ [d] } else f

/-- The loop body of `decodeData`. The state holds the local `dtc` next to the frame. -/
def decodeDtcAt (offset : ℕ) : Method (DM1 × DTC) J1939Exception Unit := do
  Method.advance offset (Method.onPart Prod.snd (fun s dtc => (s.1, dtc)) DTC.decode)
  Method.modify fun s => (s.1.pushDtc s.2, s.2)

/-- The offsets that the loop `while (offset + DTC_SIZE <= length)` runs through. -/
def dtcOffsets (offset length : ℕ) : List ℕ :=
  (List.range ((length - offset) / dtcSize)).map fun k => offset + dtcSize * k

/-- `DM1::decodeData`: the lamp statuses are decoded with a length of their own. -/
def decodeData (length : ℕ) : Method DM1 J1939Exception Unit := do
  let self ← Method.get
  let lampStatLength := self.toGenericFrame.getDataLength
  Method.onPart toGenericFrame (fun f g => { f with toGenericFrame := g })
    (GenericFrame.decodeData lampStatLength)
  Method.onPart (fun f => (f, {})) (fun _ s => s.1)
    (Method.forEach (dtcOffsets lampStatLength length) decodeDtcAt)

/-- `DM1::encodeData`. -/
def encodeData (f : DM1) (buffer : List UInt8) : Except J1939Exception (List UInt8) :=
  let lampStatLength := f.toGenericFrame.getDataLength
  match encodeSpns lampStatLength buffer f.spns.values with
  | .error e => .error e
  | .ok buffer' =>
    if lampStatLength ≠ 2 then .error .dm1LampStatus
    else
      let withDtcs := writeBytes buffer' lampStatLength (f.dtcs.flatMap DTC.encode)
      if f.dtcs = [] then
        .ok (writeBytes withDtcs lampStatLength (List.replicate 4 0x00 ++ List.replicate 2 0xFF))
      else .ok withDtcs

/-- `DM1::getDataLength`. -/
def getDataLength (f : DM1) : ℕ :=
  max (f.toGenericFrame.getDataLength + dtcSize * f.dtcs.length) dm1MinimumLength

theorem length_flatMap_encode (dtcs : List DTC) :
    (dtcs.flatMap DTC.encode).length = 4 * dtcs.length := by
  induction dtcs with
  | nil => rfl
  | cons d dtcs ih =>
    rw [List.flatMap_cons, List.length_append, ih, List.length_cons]
    change 4 + _ = _
    omega

/-- What has been encoded are the lamp statuses in two bytes, and what stands behind them. -/
theorem encodeData_eq_ok {f : DM1} {buffer out : List UInt8} (h : f.encodeData buffer = .ok out) :
    f.toGenericFrame.getDataLength = 2 ∧ ∃ lamps, lamps.length = buffer.length ∧
      out = writeBytes lamps 2
        (if f.dtcs = [] then List.replicate 4 0x00 ++ List.replicate 2 0xFF
          else f.dtcs.flatMap DTC.encode) := by
  simp only [encodeData] at h
  cases hspns : encodeSpns f.toGenericFrame.getDataLength buffer f.spns.values with
  | error e =>
    rw [hspns] at h
    cases h
  | ok lamps =>
    simp only [hspns] at h
    split_ifs at h with hlamps hdtcs
    · cases h
      rw [not_not.mp hlamps, if_pos hdtcs, hdtcs]
      exact ⟨rfl, lamps, GenericFrame.encodeSpns_length hspns, rfl⟩
    · cases h
      rw [not_not.mp hlamps, if_neg hdtcs]
      exact ⟨rfl, lamps, GenericFrame.encodeSpns_length hspns, rfl⟩

theorem encodeData_length {f : DM1} {buffer out : List UInt8}
    (h : f.encodeData buffer = .ok out) : out.length = buffer.length := by
  obtain ⟨-, lamps, hlength, rfl⟩ := encodeData_eq_ok h
  rw [length_writeBytes, hlength]

@[simp] theorem pushDtc_toGenericFrame (f : DM1) (d : DTC) :
    (f.pushDtc d).toGenericFrame = f.toGenericFrame := by
  unfold pushDtc
  split_ifs <;> rfl

/-- Decoding a trouble code replaces all its fields. -/
theorem run_decodeDtc (d : DTC) (mem : Memory) :
    DTC.decode.run d mem =
      if mem 3 &&& dtcCmMask ≠ 0 then (.error .dtcConversionMethod, d)
      else (.ok (), (DTC.decode.run {} mem).2) := by
  simp only [DTC.decode, Method.run_byte_bind, Method.run_throwIf_bind, Method.run_modify_bind,
    Method.run_modify]
  by_cases hcm : mem 3 &&& dtcCmMask ≠ 0
  · rw [if_pos hcm, if_pos hcm]
  · rw [if_neg hcm, if_neg hcm, if_neg hcm]

/-- The loop fails at the first trouble code with the conversion bit set; it only
appends to the trouble codes. -/
theorem run_forEach_decodeDtcAt (offsets : List ℕ) (f : DM1) (d : DTC) (mem : Memory) :
    ∃ f' d', (Method.forEach offsets decodeDtcAt).run (f, d) mem =
        (if ∀ o ∈ offsets, mem (o + 3) &&& dtcCmMask = 0 then .ok ()
          else .error .dtcConversionMethod, (f', d')) ∧
      f'.toGenericFrame = f.toGenericFrame := by
  induction offsets generalizing f d with
  | nil => exact ⟨f, d, by simp [Method.forEach], rfl⟩
  | cons o os ih =>
    by_cases hcm : mem (o + 3) &&& dtcCmMask ≠ 0
    · have hstep : (decodeDtcAt o).run (f, d) mem = (.error .dtcConversionMethod, (f, d)) := by
        apply Method.run_bind_of_error
        rw [Method.run_advance, Method.run_onPart, run_decodeDtc, if_pos hcm]
      refine ⟨f, d, ?_, rfl⟩
      rw [Method.forEach, Method.run_bind_of_error hstep, if_neg]
      exact fun h => hcm (h o (by simp))
    · have hstep : ∃ f'' d'', (decodeDtcAt o).run (f, d) mem = (.ok (), (f'', d'')) ∧
          f''.toGenericFrame = f.toGenericFrame := by
        have hfirst : (Method.advance o (Method.onPart Prod.snd (fun s dtc => (s.1, dtc))
            DTC.decode)).run (f, d) mem =
              (.ok (), (f, (DTC.decode.run {} fun i => mem (o + i)).2)) := by
          rw [Method.run_advance, Method.run_onPart, run_decodeDtc, if_neg hcm]
        exact ⟨_, _, Method.run_bind_of_ok hfirst, pushDtc_toGenericFrame _ _⟩
      obtain ⟨f'', d'', hrun, hbase⟩ := hstep
      obtain ⟨f', d', hrest, hbase'⟩ := ih f'' d''
      refine ⟨f', d', ?_, hbase'.trans hbase⟩
      rw [Method.forEach, Method.run_bind_of_ok hrun, hrest]
      simp only [List.forall_mem_cons, not_not.mp hcm, true_and]

/-- `DM1::decodeData` succeeds when the lamp statuses do and no trouble code has the
conversion bit set. -/
theorem run_decodeData (f : DM1) (length : ℕ) (mem : Memory) :
    ∃ f', (decodeData length).run f mem =
        (match ((GenericFrame.decodeData f.toGenericFrame.getDataLength).run
            f.toGenericFrame mem).1 with
          | .error e => .error e
          | .ok () =>
            if ∀ o ∈ dtcOffsets f.toGenericFrame.getDataLength length,
              mem (o + 3) &&& dtcCmMask = 0 then .ok ()
            else .error .dtcConversionMethod, f') ∧
      f'.toHeader = f.toHeader ∧ f'.pgn = f.pgn := by
  rw [decodeData, Method.run_get_bind, Method.run_bind, Method.run_onPart]
  have hheader := IsJ1939Frame.decodeData_header f.toGenericFrame
    f.toGenericFrame.getDataLength mem
  have hpgn := IsJ1939Frame.decodeData_getPGN f.toGenericFrame
    f.toGenericFrame.getDataLength mem
  change ((GenericFrame.decodeData _).run _ mem).2.toHeader = f.toHeader at hheader
  change ((GenericFrame.decodeData _).run _ mem).2.pgn = f.pgn at hpgn
  generalize (GenericFrame.decodeData f.toGenericFrame.getDataLength).run f.toGenericFrame mem =
    r at hheader hpgn ⊢
  obtain ⟨_ | _, g⟩ := r
  · exact ⟨_, rfl, hheader, hpgn⟩
  · obtain ⟨f', d', hrun, hbase⟩ := run_forEach_decodeDtcAt
      (dtcOffsets f.toGenericFrame.getDataLength length) { f with toGenericFrame := g } {} mem
    simp only [Method.run_onPart, hrun]
    refine ⟨f', rfl, ?_, ?_⟩
    · rw [hbase]
      exact hheader
    · rw [hbase]
      exact hpgn

instance : IsJ1939Frame DM1 where
  header f := f.toHeader
  withHeader f h := { f with toHeader := h }
  getPGN f := f.pgn
  decodeData := decodeData
  encodeData := encodeData
  getDataLength := getDataLength
  header_withHeader _ _ := rfl
  withHeader_header _ := rfl
  withHeader_withHeader _ _ _ := rfl
  getPGN_withHeader _ _ := rfl
  decodeData_header f length mem := by
    obtain ⟨f', hrun, hheader, -⟩ := run_decodeData f length mem
    rw [hrun]
    exact hheader
  decodeData_getPGN f length mem := by
    obtain ⟨f', hrun, -, hpgn⟩ := run_decodeData f length mem
    rw [hrun]
    exact hpgn
  encodeData_length _ _ _ h := encodeData_length h

end DM1

end J1939
