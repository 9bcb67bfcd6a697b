import J1939.BamErrors
import J1939.BamTransfer

/-!
# The header of a reassembled frame

The identifier handed to the factory is or-ed together from the priority, the data PGN and
the source address of the connection frame. The data PGN has 24 bits, six more than its
place in the identifier, and is not masked.
-/

namespace J1939

open BamReassembler

/-- The bits of the data PGN that fall onto the priority. -/
def spill (c : TPCMFrame) : UInt8 := ((c.dataPgn >>> 18) &&& 7).toUInt8

/-- A delivered frame has the header of its connection frame. -/
structure KeepsHeader (c : TPCMFrame) (delivered : Frame) : Prop where
  priority : getPriority delivered = getPriority c
  srcAddr : getSrcAddr delivered = getSrcAddr c
  pgn : getPGN delivered =
    if getPDUFormatGroup c.dataPgn = .pduFormat1 then c.dataPgn &&& 0x3FF00
    else c.dataPgn &&& pgnMask
  dstAddr : getPDUFormatGroup (getPGN delivered) = .pduFormat1 →
    getDstAddr delivered = broadcastAddress

/-- The data PGN fits: its upper bits leave the priority alone, and for PDU format 1 the
data page is 0 and the PDU specific byte the broadcast address. -/
structure FitsIdentifier (c : TPCMFrame) : Prop where
  priority : getPriority c ||| spill c = getPriority c
  dataPage : getPDUFormatGroup c.dataPgn = .pduFormat1 → c.dataPgn &&& 0x30000 = 0
  pduSpecific : getPDUFormatGroup c.dataPgn = .pduFormat1 → c.dataPgn &&& 0xFF = 0xFF

section Identifier

variable {c : TPCMFrame}

theorem priority_newId_toNat (c : TPCMFrame) :
    (newId c).toNat / 2 ^ 26 % 2 ^ 3 =
      (getPriority c &&& priorityMask).toNat ||| (spill c).toNat := by
  have hspill : (spill c).toNat = c.dataPgn.toNat / 2 ^ 18 % 2 ^ 3 := by
    have hfield : ((c.dataPgn >>> 18) &&& 7).toNat = c.dataPgn.toNat / 2 ^ 18 % 2 ^ 3 :=
      Bits.toNat_field c.dataPgn 18 7 (w := 3) (by decide) (by decide)
    rw [spill, UInt32.toNat_toUInt8, hfield]
    omega
  have hprio : (getPriority c &&& priorityMask).toNat < 2 ^ 3 := by
    rw [UInt8.toNat_and]
    exact Nat.and_lt_two_pow _ (by decide)
  rw [hspill]
  apply Nat.eq_of_testBit_eq
  intro i
  rw [Nat.testBit_mod_two_pow, Nat.testBit_div_two_pow, Nat.testBit_or, Nat.testBit_mod_two_pow,
    Nat.testBit_div_two_pow]
  by_cases hi : i < 3
  · have hhigh : ((getPriority c &&& priorityMask).toUInt32 <<< priorityOffset).toNat.testBit
        (i + 26) = (getPriority c &&& priorityMask).toNat.testBit i := by
      have hlt : i + 26 < 32 := by omega
      rw [UInt32.toNat_shiftLeft, Nat.testBit_mod_two_pow, Nat.testBit_shiftLeft]
      simp [hlt]
    have hmiddle : (c.dataPgn <<< pgnOffset).toNat.testBit (i + 26) =
        c.dataPgn.toNat.testBit (i + 18) := by
      have hlt : i + 26 < 32 := by omega
      have hle : 8 ≤ i + 26 := by omega
      rw [UInt32.toNat_shiftLeft, Nat.testBit_mod_two_pow, Nat.testBit_shiftLeft]
      simp [hlt, hle]
    have hlow : ((getSrcAddr c).toUInt32 &&& srcAddrMask).toNat.testBit (i + 26) = false := by
      have hle : ¬i + 26 < 8 := by omega
      rw [Bits.toNat_low _ srcAddrMask (w := 8) rfl, Nat.testBit_mod_two_pow]
      simp [hle]
    rw [newId, UInt32.toNat_or, UInt32.toNat_or, Nat.testBit_or, Nat.testBit_or, hhigh, hmiddle,
      hlow]
    simp [hi]
  · rw [Nat.testBit_lt_two_pow (hprio.trans_le (Nat.pow_le_pow_right (by decide) (by omega)))]
    simp [hi]

/-- The priority of the identifier, with the bits that fall onto it. -/
theorem priority_newId (h : Header) :
    (receivedHeader h (newId c)).priority = (getPriority c &&& priorityMask) ||| spill c := by
  apply UInt8.toNat_inj.mp
  rw [receivedHeader_priority_toNat, UInt8.toNat_or]
  exact priority_newId_toNat c

/-- The mask keeps the PDU format. -/
theorem getPDUFormatGroup_masked (pgn : UInt32) :
    getPDUFormatGroup (pgn &&& pgnMask) = .pduFormat1 ↔ getPDUFormatGroup pgn = .pduFormat1 := by
  rw [getPDUFormatGroup_eq_one_iff, getPDUFormatGroup_eq_one_iff,
    Bits.toNat_low _ pgnMask (w := 18) rfl]
  omega

theorem getPDUFormat_lt_iff_group (pgn : UInt32) :
    getPDUFormat pgn < pduFmtDelimiter ↔ getPDUFormatGroup pgn = .pduFormat1 := by
  rw [getPDUFormat_lt_iff, getPDUFormatGroup_eq_one_iff]

/-- The PGN that the identifier is looked up under. -/
theorem lookupPgn_newId (c : TPCMFrame) :
    lookupPgn (newId c) =
      if getPDUFormatGroup c.dataPgn = .pduFormat1 then c.dataPgn &&& 0xFF00
      else c.dataPgn &&& pgnMask := by
  rw [lookupPgn, identifierPgn_newId]
  simp only [getPDUFormat_lt_iff_group, getPDUFormatGroup_masked]
  by_cases hfmt : getPDUFormatGroup c.dataPgn = .pduFormat1
  · have hmask : pgnMask &&& (pduFmtMask <<< pduFmtOffset) = 0xFF00 := by decide
    rw [if_pos hfmt, if_pos hfmt, UInt32.and_assoc, hmask]
  · rw [if_neg hfmt, if_neg hfmt]

theorem dstAddr_newId (h : Header) (hfmt : getPDUFormatGroup c.dataPgn = .pduFormat1) :
    (receivedHeader h (newId c)).dstAddr = (c.dataPgn &&& 0xFF).toUInt8 := by
  have hlt := (getPDUFormat_lt_iff_group _).mpr ((getPDUFormatGroup_masked _).mpr hfmt)
  have hmask : pgnMask &&& dstAddrMask = 0xFF := by decide
  have hzero : ∀ x : UInt32, x >>> dstAddrOffset = x := fun x => UInt32.shiftRight_zero
  rw [receivedHeader, identifierPgn_newId, if_pos hlt, hzero, UInt32.and_assoc, hmask]

/-- Without the data page bits, the PDU format byte is all that is left. -/
theorem dataPage_eq_iff (pgn : UInt32) :
    pgn &&& 0xFF00 = pgn &&& 0x3FF00 ↔ pgn &&& 0x30000 = 0 := by
  have hfmt := Bits.toNat_inPlace pgn 0xFF00 (k := 8) (w := 8) (by decide)
  have hall := Bits.toNat_inPlace pgn 0x3FF00 (k := 8) (w := 10) (by decide)
  have hpage := Bits.toNat_inPlace pgn 0x30000 (k := 16) (w := 2) (by decide)
  have hzero : (0 : UInt32).toNat = 0 := rfl
  rw [← UInt32.toNat_inj, ← UInt32.toNat_inj, hfmt, hall, hpage, hzero]
  omega

theorem getPDUFormatGroup_lookupPgn_newId (c : TPCMFrame) :
    getPDUFormatGroup (lookupPgn (newId c)) = .pduFormat1 ↔
      getPDUFormatGroup c.dataPgn = .pduFormat1 := by
  rw [lookupPgn_newId]
  by_cases hfmt : getPDUFormatGroup c.dataPgn = .pduFormat1
  · have hbyte := Bits.toNat_inPlace c.dataPgn 0xFF00 (k := 8) (w := 8) (by decide)
    rw [if_pos hfmt, getPDUFormatGroup_eq_one_iff, getPDUFormatGroup_eq_one_iff, hbyte]
    omega
  · rw [if_neg hfmt, getPDUFormatGroup_masked]

theorem lowByte_eq_broadcast_iff (pgn : UInt32) :
    (pgn &&& 0xFF).toUInt8 = broadcastAddress ↔ pgn &&& 0xFF = 0xFF := by
  have hlow := Bits.toNat_low pgn 0xFF (w := 8) rfl
  have hbyte : broadcastAddress.toNat = 255 := rfl
  have hword : (0xFF : UInt32).toNat = 255 := rfl
  rw [← UInt8.toNat_inj, ← UInt32.toNat_inj, UInt32.toNat_toUInt8, hlow, hbyte, hword]
  omega

end Identifier

/-- A frame that the factory returns has the PGN and the header of the identifier. -/
theorem J1939Factory.header_of_value {factory : J1939Factory} {id : UInt32} {length : ℕ}
    {mem : Memory} {frame : Frame}
    (h : (factory.getJ1939Frame id length).value mem = .ok (some frame)) :
    ∃ h, header frame = receivedHeader h id := by
  obtain ⟨proto, -, hrun⟩ := J1939Factory.exists_run_of_value h
  exact ⟨header proto, (header_decode hrun).2.2⟩

/-- The frame that a completed session adds to the queue is the decoded message. -/
theorem decodedMessage_of_delivered {factory : J1939Factory} {heap : Memory} {r : BamReassembler}
    {frame delivered : Frame} {b : BAMFragments}
    (hcompleted : completed (r.fragments.find? (getSrcAddr frame)) frame = some b)
    (hdelivered : (r.handleFrame factory heap frame).reassembler.reassembledFrames =
      r.reassembledFrames ++ [delivered]) :
    decodedMessage factory heap b = .ok (some delivered) := by
  rw [handleFrame_of_completed hcompleted, finish_eq] at hdelivered
  cases hvalue : decodedMessage factory heap b with
  | error e =>
    rw [hvalue] at hdelivered
    exact absurd (List.self_eq_append_right.mp hdelivered) (List.cons_ne_nil _ _)
  | ok decoded =>
    rw [hvalue] at hdelivered
    cases decoded with
    | none => exact absurd (List.self_eq_append_right.mp hdelivered) (List.cons_ne_nil _ _)
    | some decodedFrame =>
      have hsame := List.append_cancel_left hdelivered
      rw [List.cons.inj hsame |>.1]

/-- A decoded frame has a priority of three bits. -/
theorem priority_masked_of_decode {p c : TPCMFrame} {identifier : UInt32} {length : ℕ}
    {mem : Memory} (h : (decode identifier length).run p mem = (.ok (), c)) :
    getPriority c &&& priorityMask = getPriority c := by
  obtain ⟨-, -, hheader⟩ := header_decode h
  have hprio := receivedHeader_priority_toNat (header p) identifier
  rw [← hheader] at hprio
  rw [priority_masked_iff, UInt8.le_iff_toNat_le]
  change (header c).priority.toNat ≤ 7
  omega

/-- A delivered frame keeps the header of its connection frame exactly when the data PGN
fits the identifier. The connection frame is any that was decoded, so that its priority has
three bits. -/
theorem keepsHeader_iff {p c : TPCMFrame} {identifier : UInt32} {length : ℕ} {mem : Memory}
    (hdecode : (decode identifier length).run p mem = (.ok (), c))
    {factory : J1939Factory} {heap : Memory} {r : BamReassembler} {frame delivered : Frame}
    {b : BAMFragments}
    (hcompleted : completed (r.fragments.find? (getSrcAddr frame)) frame = some b)
    (hconn : b.cmFrame = c)
    (hdelivered : (r.handleFrame factory heap frame).reassembler.reassembledFrames =
      r.reassembledFrames ++ [delivered]) :
    KeepsHeader c delivered ↔ FitsIdentifier c := by
  subst hconn
  have hvalue := decodedMessage_of_delivered hcompleted hdelivered
  have hlookup : lookupPgn (newId b.cmFrame) = getPGN delivered :=
    J1939Factory.getPGN_of_value hvalue
  obtain ⟨h, hheader⟩ := J1939Factory.header_of_value hvalue
  change header delivered = receivedHeader h (newId b.cmFrame) at hheader
  have hprio : getPriority delivered = getPriority b.cmFrame ||| spill b.cmFrame := by
    rw [getPriority, hheader, priority_newId, priority_masked_of_decode hdecode]
  have hsrc : getSrcAddr delivered = getSrcAddr b.cmFrame := by
    rw [getSrcAddr, hheader, srcAddr_newId]
  have hgroup : getPDUFormatGroup (getPGN delivered) = .pduFormat1 ↔
      getPDUFormatGroup b.cmFrame.dataPgn = .pduFormat1 := by
    rw [← hlookup, getPDUFormatGroup_lookupPgn_newId]
  rw [lookupPgn_newId] at hlookup
  by_cases hfmt : getPDUFormatGroup b.cmFrame.dataPgn = .pduFormat1
  · rw [if_pos hfmt] at hlookup
    have hdst : getDstAddr delivered = (b.cmFrame.dataPgn &&& 0xFF).toUInt8 := by
      rw [getDstAddr, hheader, dstAddr_newId h hfmt]
    have hbyte := lowByte_eq_broadcast_iff b.cmFrame.dataPgn
    constructor
    · intro hkeeps
      refine ⟨hprio ▸ hkeeps.priority, fun _ => ?_, fun _ => ?_⟩
      · have hpgn := hkeeps.pgn
        rw [if_pos hfmt, ← hlookup] at hpgn
        exact (dataPage_eq_iff _).mp hpgn
      · exact hbyte.mp (hdst ▸ hkeeps.dstAddr (hgroup.mpr hfmt))
    · intro hfits
      refine ⟨hprio.trans hfits.priority, hsrc, ?_, fun _ => ?_⟩
      · rw [if_pos hfmt, ← hlookup]
        exact (dataPage_eq_iff _).mpr (hfits.dataPage hfmt)
      · exact hdst.trans (hbyte.mpr (hfits.pduSpecific hfmt))
  · rw [if_neg hfmt] at hlookup
    constructor
    · intro hkeeps
      exact ⟨hprio ▸ hkeeps.priority, fun h1 => absurd h1 hfmt, fun h1 => absurd h1 hfmt⟩
    · intro hfits
      refine ⟨hprio.trans hfits.priority, hsrc, ?_, fun h1 => absurd (hgroup.mp h1) hfmt⟩
      rw [if_neg hfmt, hlookup]

/-- The announcement of a request of three bytes under a data PGN. -/
def requestConn (dataPgn : UInt32) : TPCMFrame :=
  { TPCMFrame.new with
    priority := 7
    srcAddr := 0x10
    dstAddr := broadcastAddress
    ctrlType := ctrlTpcmBam
    totalMsgSize := 3
    totalPackets := 1
    dataPgn := dataPgn }

/-- The reassembler after that announcement. -/
def requestAnnounced (dataPgn : UInt32) : BamReassembler :=
  (bamRun J1939Factory.new {} [.handleFrame (.tpcm (requestConn dataPgn)) fun _ => 0]).1

/-- The request that the packet delivers. -/
def deliveredRequest (dstAddr : UInt8) : Frame :=
  .request
    { RequestFrame.new with
      priority := 7
      srcAddr := 0x10
      dstAddr := dstAddr
      requestPGN := 0x30201 }

/-- A request announced with the broadcast address in its data PGN keeps its header. -/
theorem broadcastRequest_keepsHeader :
    KeepsHeader (requestConn 0xEAFF) (deliveredRequest broadcastAddress) := by
  have hdecode : (decode 0x1CECFF10 8).run TPCMFrame.new
      (Memory.ofList [32, 3, 0, 1, 0xFF, 0xFF, 0xEA, 0] fun _ => 0) =
        (.ok (), requestConn 0xEAFF) := by
    decide +kernel
  have hcompleted : completed
      ((requestAnnounced 0xEAFF).fragments.find? (getSrcAddr (Frame.tpdt (firstPacket 0x10))))
      (.tpdt (firstPacket 0x10)) = some ⟨requestConn 0xEAFF, [firstPacket 0x10]⟩ := by
    decide +kernel
  have hdelivered : ((requestAnnounced 0xEAFF).handleFrame J1939Factory.new (fun _ => 0)
      (.tpdt (firstPacket 0x10))).reassembler.reassembledFrames =
        (requestAnnounced 0xEAFF).reassembledFrames ++ [deliveredRequest broadcastAddress] := by
    decide +kernel
  exact (keepsHeader_iff hdecode hcompleted rfl hdelivered).mpr
    ⟨by decide, fun _ => by decide, fun _ => by decide⟩

/-- Announced under its PGN, as the fragmenter does, it arrives for the address 0. -/
theorem request_not_keepsHeader :
    (decode 0x1CECFF10 8).run TPCMFrame.new
        (Memory.ofList [32, 3, 0, 1, 0xFF, 0x00, 0xEA, 0] fun _ => 0) =
          (.ok (), requestConn 0xEA00) ∧
      ((requestAnnounced 0xEA00).handleFrame J1939Factory.new (fun _ => 0)
        (.tpdt (firstPacket 0x10))).reassembler.reassembledFrames = [deliveredRequest 0] ∧
      ¬KeepsHeader (requestConn 0xEA00) (deliveredRequest 0) := by
  refine ⟨by decide +kernel, by decide +kernel, fun h => ?_⟩
  have hdst : getDstAddr (deliveredRequest 0) = broadcastAddress := h.dstAddr (by decide)
  exact absurd hdst (by decide)

end J1939
