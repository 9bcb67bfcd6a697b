import J1939.BamSession

/-!
# The payload of a session

The packets of a session are numbered from 1 on without a gap. The payload that
`reassemble` builds is their data, as far as it reaches; behind it stands what the
heap held.
-/

namespace J1939

open BamReassembler

namespace BAMFragments

/-- The data of the packets received so far. -/
def received (b : BAMFragments) : List UInt8 := b.dtFrames.flatMap fun dt => dt.data.toList

/-- The packets received so far are the first ones, in order. -/
structure Numbered (b : BAMFragments) : Prop where
  sqs : b.dtFrames.map (fun dt => dt.sq.toNat) = List.range' 1 b.dtFrames.length
  le_total : b.dtFrames.length ≤ b.cmFrame.totalPackets.toNat

/-- A session that has just been opened. -/
theorem numbered_new (conn : TPCMFrame) : Numbered { cmFrame := conn } := ⟨rfl, Nat.zero_le _⟩

/-- The last sequence number counts the packets. -/
theorem Numbered.getLastSQ_toNat {b : BAMFragments} (h : b.Numbered) :
    b.getLastSQ.toNat = b.dtFrames.length := by
  unfold getLastSQ
  rcases List.eq_nil_or_concat b.dtFrames with hnil | ⟨dts, dt, hconcat⟩
  · simp [hnil]
  · have hsqs := h.sqs
    rw [hconcat, List.concat_eq_append] at hsqs ⊢
    rw [List.map_append, List.length_append, List.length_singleton, List.range'_concat] at hsqs
    have hlast := List.append_inj_right' hsqs rfl
    simp only [List.map_cons, List.map_nil, List.cons.injEq, and_true] at hlast
    simp only [List.getLast?_append, List.getLast?_singleton, Option.some_or, hlast]
    simp
    omega

/-- A packet that is accepted is the next one. -/
theorem Numbered.addDtFrame {b : BAMFragments} (h : b.Numbered) {dt : TPDTFrame}
    (hexpects : expects b dt.sq) : (b.addDtFrame dt).Numbered := by
  obtain ⟨htotal, hnext⟩ := hexpects
  rw [h.getLastSQ_toNat] at hnext
  have htotal' : dt.sq.toNat ≤ b.cmFrame.totalPackets.toNat := UInt8.le_iff_toNat_le.mp htotal
  constructor
  · simp only [BAMFragments.addDtFrame, List.map_append, h.sqs, List.length_append,
      List.map_cons, List.map_nil, List.length_cons, List.length_nil, List.range'_concat, ← hnext]
    congr 2
    omega
  · simp only [BAMFragments.addDtFrame, List.length_append, List.length_cons, List.length_nil]
    omega

theorem length_received (b : BAMFragments) :
    b.received.length = tpDtPacketSize * b.dtFrames.length := by
  unfold received
  induction b.dtFrames with
  | nil => rfl
  | cons dt dts ih =>
    rw [List.flatMap_cons, List.length_append, ih, List.length_cons, dt.data.toList_length,
      Nat.mul_succ, Nat.add_comm]

end BAMFragments

/-- The loop of `reassemble` writes the data of the packets from `offset` on and
leaves the other bytes as they are. -/
theorem copyPackets_apply {length i : ℕ} (hi : i < length) (offset : ℕ) (dts : List TPDTFrame)
    (data : Memory) :
    copyPackets length offset dts data i =
      if offset ≤ i then
        (dts.flatMap fun dt => dt.data.toList).getD (i - offset) (data i)
      else data i := by
  induction dts generalizing offset data with
  | nil => simp [copyPackets]
  | cons dt dts ih =>
    have hsize : tpDtPacketSize = 7 := rfl
    have hlength : dt.data.toList.length = tpDtPacketSize := dt.data.toList_length
    set bytes := dt.data.toList.take (min (length - offset) tpDtPacketSize) with hbytes
    have htake : bytes.length = min (length - offset) tpDtPacketSize := by
      rw [hbytes, List.length_take, hlength]
      omega
    -- a byte of this packet, or one before it, is settled by the first write
    have hfirst : i < offset + tpDtPacketSize → data.write offset bytes i =
        if offset ≤ i then
          ((dt :: dts).flatMap fun dt => dt.data.toList).getD (i - offset) (data i)
        else data i := by
      intro hlt
      by_cases hle : offset ≤ i
      · have hget : i - offset < bytes.length := by omega
        rw [if_pos hle, Memory.write_of_mem hle hget, List.flatMap_cons,
          List.getD_append _ _ _ _ (by omega), List.getD_eq_getElem _ _ (by omega)]
        simp only [hbytes, List.getElem_take]
      · rw [if_neg hle, Memory.write_of_lt (by omega)]
    rw [copyPackets, ← hbytes]
    by_cases hend : offset + tpDtPacketSize ≥ length
    · rw [if_pos hend]
      exact hfirst (by omega)
    · rw [if_neg hend, ih]
      by_cases hle : offset + tpDtPacketSize ≤ i
      · have hindex : i - (offset + tpDtPacketSize) = i - offset - tpDtPacketSize := by omega
        rw [if_pos hle, if_pos (by omega), Memory.write_of_ge (by omega), List.flatMap_cons,
          List.getD_append_right _ _ _ _ (by omega), hlength, hindex]
      · rw [if_neg hle]
        exact hfirst (by omega)

/-- A byte of the payload is a received byte where there is one, else a heap byte. -/
theorem reassemble_apply (b : BAMFragments) (heap : Memory) {i : ℕ}
    (hi : i < b.cmFrame.totalMsgSize.toNat) :
    (reassemble b heap).1 i = b.received.getD i (heap i) := by
  have happly := copyPackets_apply hi 0 b.dtFrames heap
  rw [if_pos (Nat.zero_le i), Nat.sub_zero] at happly
  exact happly

/-- The payload of a session that is complete is what has been received, if the
announced size does not exceed it. -/
theorem payload_eq_take {b : BAMFragments} (heap : Memory)
    (h : b.cmFrame.totalMsgSize.toNat ≤ b.received.length) :
    (reassemble b heap).1.slice 0 (reassemble b heap).2 =
      b.received.take b.cmFrame.totalMsgSize.toNat := by
  have hsize : (reassemble b heap).2 = b.cmFrame.totalMsgSize.toNat := rfl
  apply List.ext_getElem
  · rw [Memory.length_slice, hsize, List.length_take]
    omega
  · intro i hi _
    rw [Memory.length_slice, hsize] at hi
    rw [Memory.slice_getElem, Nat.zero_add, reassemble_apply b heap hi, List.getElem_take,
      List.getD_eq_getElem _ _ (by omega)]

end J1939
