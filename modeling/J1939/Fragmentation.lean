import J1939.BamTransfer

/-!
# What the fragmenter claims

`fragment` returns true for every frame of more than 8 bytes. Its packets are numbered by a
byte, so that a payload of more than 255 packets is not carried.
-/

namespace J1939

open BamFragmenter

/-- The fragments carry a payload: the packets are its slices of seven bytes in order,
numbered from 1 on, the last one filled up, and the connection frame announces them. -/
structure Carries (fragmenter : BamFragmenter) (data : List UInt8) : Prop where
  sqs : fragmenter.getDataFrames.map (fun dt => dt.sq.toNat) =
    List.range' 1 (packetCount data.length)
  slices : fragmenter.getDataFrames.map (fun dt => dt.data.toList) =
    (List.range (packetCount data.length)).map fun k =>
      ((data.drop (tpDtPacketSize * k)).take tpDtPacketSize ++
        List.replicate tpDtPacketSize 0xFF).take tpDtPacketSize
  totalPackets : fragmenter.getConnFrame.totalPackets.toNat = packetCount data.length
  totalMsgSize : fragmenter.getConnFrame.totalMsgSize.toNat = data.length

/-- A byte counts 255 packets. -/
theorem packetCount_le_iff {length : ℕ} : packetCount length ≤ 255 ↔ length ≤ 1785 := by
  simp only [packetCount, tpDtPacketSize]
  omega

theorem Carries.length_le {fragmenter : BamFragmenter} {data : List UInt8}
    (h : Carries fragmenter data) : data.length ≤ 1785 := by
  have hlt := fragmenter.getConnFrame.totalPackets.toNat_lt
  rw [h.totalPackets] at hlt
  exact packetCount_le_iff.mp (by omega)

section Fragments

variable {F : Type} [IsJ1939Frame F] {f : F}

/-- A frame that is fragmented can be encoded. -/
theorem exists_encoded {fragmenter : BamFragmenter} (h : (fragmenter.fragment f).1 = .ok true) :
    maxSize < getDataLength f ∧ ∃ encoded, encode f (getDataLength f) = .ok encoded := by
  unfold fragment at h
  by_cases hlength : getDataLength f ≤ maxSize
  · rw [if_pos hlength] at h
    cases h
  · refine ⟨not_le.mp hlength, ?_⟩
    rw [if_neg hlength] at h
    cases hencode : encode f (getDataLength f) with
    | error e =>
      rw [hencode] at h
      cases h
    | ok encoded => exact ⟨encoded, rfl⟩

/-- When `fragment` returns true, the fragments carry the payload exactly when it has at
most 1785 bytes. -/
theorem fragment_carries_iff {fragmenter : BamFragmenter}
    (htrue : (fragmenter.fragment f).1 = .ok true) :
    ∃ encoded, encode f (getDataLength f) = .ok encoded ∧
      (Carries (fragmenter.fragment f).2 encoded.buffer ↔ getDataLength f ≤ 1785) := by
  obtain ⟨hmin, encoded, hencode⟩ := exists_encoded htrue
  obtain ⟨-, -, -, -, hlength⟩ := encode_eq_ok_iff.mp hencode
  have hbuffer := length_encode hencode
  refine ⟨encoded, hencode, fun h => hbuffer ▸ h.length_le, fun hmax => ?_⟩
  · obtain ⟨-, hframes⟩ := fragment_eq fragmenter hencode (by omega) (by omega)
    rw [transportFrames, List.cons.injEq, Frame.tpcm.injEq, hlength] at hframes
    obtain ⟨hconn, hpackets⟩ := hframes
    have hdata : (fragmenter.fragment f).2.getDataFrames =
        (List.range (packetCount (getDataLength f))).map (packet f encoded.buffer) := by
      refine List.map_injective_iff.mpr (fun _ _ => Frame.tpdt.inj) (hpackets.trans ?_)
      rw [List.map_map]
      rfl
    have hcount := packetCount_le_iff.mpr hmax
    refine ⟨?_, ?_, ?_, ?_⟩
    · rw [hdata, hbuffer, List.map_map, List.range'_eq_map_range]
      refine List.map_congr_left fun k hk => ?_
      rw [List.mem_range] at hk
      rw [Function.comp_apply, packet_eq]
      change (UInt8.ofNat (k + 1)).toNat = 1 + k
      rw [UInt8.toNat_ofNat']
      omega
    · rw [hdata, hbuffer, List.map_map]
      exact List.map_congr_left fun k _ => packet_toList f encoded.buffer k
    · rw [hconn, hbuffer]
      change (UInt8.ofNat _).toNat = _
      rw [UInt8.toNat_ofNat']
      omega
    · rw [hconn, hbuffer]
      change (UInt16.ofNat _).toNat = _
      rw [UInt16.toNat_ofNat']
      omega

/-- A vehicle identification number is carried by its two packets. -/
theorem vehicleIdentification_carried :
    ∃ encoded, encode vehicleIdentification (getDataLength vehicleIdentification) = .ok encoded ∧
      Carries (fragment {} vehicleIdentification).2 encoded.buffer := by
  have htrue : (fragment {} vehicleIdentification).1 = .ok true := by decide
  obtain ⟨encoded, hencode, hcarries⟩ := fragment_carries_iff htrue
  exact ⟨encoded, hencode, hcarries.mpr (by decide)⟩

/-- A frame with a parameter in its byte 1785. -/
def longFrame : GenericFrame :=
  GenericFrame.registerSPN { pgn := 0xFF10, priority := 6, srcAddr := 0x10 } (.numeric
    { spec := engineSpeed 1785
      numSpec := ⟨1, 0, 1, "rpm", by decide, by decide⟩, value := 7 })

/-- Its payload needs 256 packets: `fragment` returns true, and the packet count is 0. -/
theorem longFrame_not_carried :
    (fragment {} longFrame).1 = .ok true ∧
      ∀ encoded, encode longFrame (getDataLength longFrame) = .ok encoded →
        ¬Carries (fragment {} longFrame).2 encoded.buffer := by
  refine ⟨by decide +kernel, fun encoded hencode hcarries => ?_⟩
  have hlength : getDataLength longFrame = 1786 := by decide
  have hle := hcarries.length_le
  rw [length_encode hencode, hlength] at hle
  omega

end Fragments

end J1939
