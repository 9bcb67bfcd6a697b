import J1939.Codec

/-!
# Transport frames on the wire

The factory gives back the TP.CM and TP.DT frames that were encoded. The fields that
a connection frame does not transmit are those of the prototype.
-/

namespace J1939

/-- The factory holds prototypes of the two transport frames. -/
structure TransportRegistered (factory : J1939Factory) (p : TPCMFrame) (q : TPDTFrame) : Prop where
  tpcm : factory.frames.find? tpCmPgn = some (.tpcm p)
  tpdt : factory.frames.find? tpDtPgn = some (.tpdt q)

/-- The constructor of the factory registers them, and no later frame replaces them. -/
theorem transportRegistered_registerFrames (frames : List Frame) :
    TransportRegistered (J1939Factory.new.registerFrames frames) TPCMFrame.new TPDTFrame.new where
  tpcm := J1939Factory.find?_registerFrames (by decide) frames
  tpdt := J1939Factory.find?_registerFrames (by decide) frames

/-- The header of a frame received from an encoded one. -/
def sentHeader (p h : Header) : Header := { h with name := p.name }

/-- A connection frame received from an encoded one. Three bytes of the data PGN are
sent. -/
def receivedConn (p c : TPCMFrame) : TPCMFrame :=
  { p with
    toHeader := sentHeader p.toHeader c.toHeader
    ctrlType := c.ctrlType
    totalMsgSize := c.totalMsgSize
    totalPackets := c.totalPackets
    dataPgn := c.dataPgn &&& 0xFFFFFF }

/-- A packet received from an encoded one. -/
def receivedPacket (q dt : TPDTFrame) : TPDTFrame :=
  { dt with toHeader := sentHeader q.toHeader dt.toHeader }

/-- The identifier of a frame of PDU format 1 in the first data page restores the
header. -/
theorem receivedHeader_of_pdu1 {F : Type} [IsJ1939Frame F] {f : F} {h : Header}
    (hprio : getPriority f ≤ 7) (hpgn : constructorAssertion (getPGN f))
    (hlt : getPGN f ≤ 0x3FFFF) (hfmt : getPDUFormatGroup (getPGN f) = .pduFormat1) :
    receivedHeader h (getIdentifier f) = sentHeader h (header f) := by
  obtain ⟨hp, hs, hd⟩ := receivedHeader_getIdentifier (b := base f) h hprio hpgn hlt
  have hname : (receivedHeader h (getIdentifier f)).name = h.name := rfl
  have hdst := hd hfmt
  change (receivedHeader h (getIdentifier f)).priority = _ at hp
  change (receivedHeader h (getIdentifier f)).srcAddr = _ at hs
  change (receivedHeader h (getIdentifier f)).dstAddr = _ at hdst
  generalize receivedHeader h (getIdentifier f) = received at *
  obtain ⟨priority, srcAddr, dstAddr, name⟩ := received
  simp only at hp hs hdst hname
  rw [hp, hs, hdst, hname]
  rfl

/-- A connection frame of a broadcast transfer, encoded. -/
def encodedConn (c : TPCMFrame) : Encoded where
  identifier := getIdentifier c
  buffer := [ctrlTpcmBam, (c.totalMsgSize &&& 0xFF).toUInt8,
    ((c.totalMsgSize >>> 8) &&& 0xFF).toUInt8, c.totalPackets, 0xFF,
    (c.dataPgn &&& 0xFF).toUInt8, ((c.dataPgn >>> 8) &&& 0xFF).toUInt8,
    ((c.dataPgn >>> 16) &&& 0xFF).toUInt8]
  length := tpCmSize

/-- A packet, encoded. -/
def encodedPacket (dt : TPDTFrame) : Encoded where
  identifier := getIdentifier dt
  buffer := dt.sq :: dt.data.toList
  length := bamDtSize

variable {factory : J1939Factory} {p c : TPCMFrame} {q dt : TPDTFrame} {e : Encoded}

/-- A PGN in PDU1 format with a reading back finds the prototype, and gives the header that was
sent. -/
theorem identifier_of_encode {F : Type} [IsJ1939Frame F] {f : F} {length : ℕ}
    (hencode : encode f length = .ok e)
    (hpgn : constructorAssertion (getPGN f) ∧ getPGN f ≤ 0x3FFFF ∧
      getPDUFormatGroup (getPGN f) = .pduFormat1 ∧ PgnReadsBack (getPGN f)) (prototype : Header) :
    lookupPgn e.identifier = getPGN f ∧
      receivedHeader prototype e.identifier = sentHeader prototype (header f) := by
  obtain ⟨hprio, -, -, hid, -⟩ := encode_eq_ok_iff.mp hencode
  obtain ⟨hassert, hlt, hfmt, hreads⟩ := hpgn
  rw [hid]
  exact ⟨(lookupPgn_iff hprio hassert hlt).mpr hreads,
    receivedHeader_of_pdu1 hprio hassert hlt hfmt⟩

theorem encodeData_bam (hctrl : c.ctrlType = ctrlTpcmBam) :
    c.encodeData (List.replicate tpCmSize 0xFF) = .ok (encodedConn c).buffer := by
  simp only [TPCMFrame.encodeData, TPCMFrame.encodeCtrl, hctrl]
  rfl

theorem run_decodeData_bam (f : TPCMFrame) {mem : Memory} (hctrl : mem 0 = ctrlTpcmBam) :
    (TPCMFrame.decodeData tpCmSize).run f mem =
      (.ok (), { f with
        ctrlType := ctrlTpcmBam
        totalMsgSize := (mem 1).toUInt16 ||| ((mem 2).toUInt16 <<< 8)
        totalPackets := mem 3
        dataPgn := ((mem 5).toUInt32 ||| ((mem 6).toUInt32 <<< 8)) |||
          ((mem 7).toUInt32 <<< 16) }) := by
  simp only [TPCMFrame.decodeData, Method.run_throwIf_bind, Method.run_byte_bind,
    Method.run_modify_bind, hctrl]
  rfl

theorem decode_tpcm (hfactory : TransportRegistered factory p q)
    (hencode : encode c tpCmSize = .ok e) (hctrl : c.ctrlType = ctrlTpcmBam)
    (beyond : Memory) :
    (factory.getJ1939Frame e.identifier e.buffer.length).value (Memory.ofList e.buffer beyond) =
      .ok (some (.tpcm (receivedConn p c))) := by
  obtain ⟨-, -, hdata, -, -⟩ := encode_eq_ok_iff.mp hencode
  have hpgn : constructorAssertion tpCmPgn ∧ tpCmPgn ≤ 0x3FFFF ∧
      getPDUFormatGroup tpCmPgn = .pduFormat1 ∧ PgnReadsBack tpCmPgn := by decide
  obtain ⟨hlookup, hheader⟩ : lookupPgn e.identifier = tpCmPgn ∧
      receivedHeader (header (Frame.tpcm p)) e.identifier = sentHeader p.toHeader c.toHeader :=
    identifier_of_encode hencode hpgn _
  have hbuffer : _ = e.buffer := Except.ok.inj ((encodeData_bam hctrl).symm.trans hdata)
  rw [J1939Factory.value_getJ1939Frame, hlookup, hfactory.tpcm]
  have hmatch : lookupPgn e.identifier = getPGN (Frame.tpcm p) := hlookup
  have hcall : (decode e.identifier e.buffer.length).run (Frame.tpcm p)
      (Memory.ofList e.buffer beyond) = (.ok (), .tpcm (receivedConn p c)) := by
    rw [run_decode_of_match hmatch, hheader]
    change (Frame.call _ Frame.tpcm (TPCMFrame.decodeData e.buffer.length)).value _ = _
    rw [Frame.value_call, ← hbuffer, show List.length _ = tpCmSize from rfl,
      run_decodeData_bam _ rfl]
    change (Except.ok (), Frame.tpcm _) = _
    congr 2
    simp only [receivedConn, hctrl]
    congr 1
    · exact Bits.join_bytes16 _
    · exact Bits.join_bytes24 _
  simp only [hcall]

theorem encodeData_tpdt (dt : TPDTFrame) :
    dt.encodeData (List.replicate bamDtSize 0xFF) = .ok (encodedPacket dt).buffer := by
  obtain ⟨data, hdata⟩ : ∃ data, data = dt.data.toList := ⟨_, rfl⟩
  have hlength : data.length = 7 := by
    rw [hdata]
    exact dt.data.toList_length
  rw [TPDTFrame.encodeData, encodedPacket, ← hdata]
  rcases data with _ | ⟨b0, _ | ⟨b1, _ | ⟨b2, _ | ⟨b3, _ | ⟨b4, _ | ⟨b5, _ | ⟨b6, _ | _⟩⟩⟩⟩⟩⟩⟩ <;>
    simp at hlength
  rfl

theorem decode_tpdt (hfactory : TransportRegistered factory p q)
    (hencode : encode dt bamDtSize = .ok e) (beyond : Memory) :
    (factory.getJ1939Frame e.identifier e.buffer.length).value (Memory.ofList e.buffer beyond) =
      .ok (some (.tpdt (receivedPacket q dt))) := by
  obtain ⟨-, -, hdata, -, -⟩ := encode_eq_ok_iff.mp hencode
  have hpgn : constructorAssertion tpDtPgn ∧ tpDtPgn ≤ 0x3FFFF ∧
      getPDUFormatGroup tpDtPgn = .pduFormat1 ∧ PgnReadsBack tpDtPgn := by decide
  obtain ⟨hlookup, hheader⟩ : lookupPgn e.identifier = tpDtPgn ∧
      receivedHeader (header (Frame.tpdt q)) e.identifier = sentHeader q.toHeader dt.toHeader :=
    identifier_of_encode hencode hpgn _
  have hbuffer : _ = e.buffer := Except.ok.inj ((encodeData_tpdt dt).symm.trans hdata)
  have hlength : e.buffer.length = bamDtSize := length_encode hencode
  rw [J1939Factory.value_getJ1939Frame, hlookup, hfactory.tpdt]
  have hmatch : lookupPgn e.identifier = getPGN (Frame.tpdt q) := hlookup
  have hsq : Memory.ofList e.buffer beyond 0 = dt.sq := by
    rw [← hbuffer]
    rfl
  have hvector : (Memory.ofList e.buffer beyond).vector 1 tpDtPacketSize = dt.data := by
    rw [← hbuffer]
    exact Memory.vector_ofList_cons dt.sq dt.data beyond
  have hcall : (decode e.identifier e.buffer.length).run (Frame.tpdt q)
      (Memory.ofList e.buffer beyond) = (.ok (), .tpdt (receivedPacket q dt)) := by
    rw [run_decode_of_match hmatch, hheader]
    change (Frame.call _ Frame.tpdt (TPDTFrame.decodeData e.buffer.length)).value _ = _
    rw [Frame.value_call, TPDTFrame.run_decodeData, if_neg (not_not.mpr hlength), hsq, hvector]
    rfl
  simp only [hcall]

theorem encode_tpcm (hctrl : c.ctrlType = ctrlTpcmBam) (hprio : getPriority c ≤ 7) :
    encode c tpCmSize = .ok (encodedConn c) :=
  encode_eq_ok_iff.mpr ⟨hprio, le_rfl, encodeData_bam hctrl, rfl, rfl⟩

theorem encode_tpdt (hprio : getPriority dt ≤ 7) :
    encode dt bamDtSize = .ok (encodedPacket dt) :=
  encode_eq_ok_iff.mpr ⟨hprio, le_rfl, encodeData_tpdt dt, rfl, rfl⟩

end J1939
