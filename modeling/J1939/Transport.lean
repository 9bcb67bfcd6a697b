import J1939.J1939Frame

/-!
# The frames of the transport protocol

`TPCMFrame` opens, acknowledges or closes a transfer; `TPDTFrame` carries one of
its packets.
-/

namespace J1939

@[simp] def tpCmPgn : UInt32 := 0x00EC00
@[simp] def tpCmSize : ℕ := 8
@[simp] def ctrlTpcmRts : UInt8 := 16
@[simp] def ctrlTpcmCts : UInt8 := 17
@[simp] def ctrlTpcmAck : UInt8 := 19
@[simp] def ctrlTpcmBam : UInt8 := 32
@[simp] def ctrlTpcmAbort : UInt8 := 255

@[simp] def tpDtPgn : UInt32 := 0x00EB00
@[simp] def bamDtSize : ℕ := 8

/-- `TPCMFrame`, with the values its constructor gives the fields. -/
structure TPCMFrame extends Header where
  ctrlType : UInt8 := 0
  totalMsgSize : UInt16 := 0
  totalPackets : UInt8 := 0
  maxPackets : UInt8 := 0
  packetsToTx : UInt8 := 0
  nextPacket : UInt8 := 0
  abortReason : UInt8 := 0
  dataPgn : UInt32 := 0
  deriving DecidableEq, Repr

namespace TPCMFrame

/-- The constructor of `TPCMFrame`. -/
def new : TPCMFrame := { name := "Transport Connection Management" }

/-- The little-endian `u16` that RTS, ACK and BAM carry. -/
def setTotalMsgSizeBytes (low high : UInt8) (f : TPCMFrame) : TPCMFrame :=
  { f with totalMsgSize := low.toUInt16 ||| (high.toUInt16 <<< 8) }

def decodeRTS : Method TPCMFrame J1939Exception Unit := do
  let b0 ← Method.byte 0
  let b1 ← Method.byte 1
  Method.modify (setTotalMsgSizeBytes b0 b1)
  let b2 ← Method.byte 2
  Method.modify fun f => { f with totalPackets := b2 }
  let b3 ← Method.byte 3
  Method.modify fun f => { f with maxPackets := b3 }

def decodeCTS : Method TPCMFrame J1939Exception Unit := do
  let b0 ← Method.byte 0
  Method.modify fun f => { f with packetsToTx := b0 }
  let b1 ← Method.byte 1
  Method.modify fun f => { f with nextPacket := b1 }

def decodeEndOfMsgACK : Method TPCMFrame J1939Exception Unit := do
  let b0 ← Method.byte 0
  let b1 ← Method.byte 1
  Method.modify (setTotalMsgSizeBytes b0 b1)
  let b2 ← Method.byte 2
  Method.modify fun f => { f with totalPackets := b2 }

def decodeConnAbort : Method TPCMFrame J1939Exception Unit := do
  let b0 ← Method.byte 0
  Method.modify fun f => { f with abortReason := b0 }

def decodeBAM : Method TPCMFrame J1939Exception Unit := do
  let b0 ← Method.byte 0
  let b1 ← Method.byte 1
  Method.modify (setTotalMsgSizeBytes b0 b1)
  let b2 ← Method.byte 2
  Method.modify fun f => { f with totalPackets := b2 }

/-- The `switch` of `decodeData` on the control byte. -/
def decodeCtrl (ctrlType : UInt8) : Method TPCMFrame J1939Exception Unit :=
  if ctrlType = ctrlTpcmRts then decodeRTS.advance 1
  else if ctrlType = ctrlTpcmCts then decodeCTS.advance 1
  else if ctrlType = ctrlTpcmAck then decodeEndOfMsgACK.advance 1
  else if ctrlType = ctrlTpcmAbort then decodeConnAbort.advance 1
  else if ctrlType = ctrlTpcmBam then decodeBAM.advance 1
  else Method.throw .tpcmCtrlType

/-- `TPCMFrame::decodeData`. -/
def decodeData (length : ℕ) : Method TPCMFrame J1939Exception Unit := do
  Method.throwIf (length ≠ tpCmSize) (.tpcmLength length)
  let ctrlType ← Method.byte 0
  Method.modify fun f => { f with ctrlType := ctrlType }
  decodeCtrl ctrlType
  let b5 ← Method.byte 5
  let b6 ← Method.byte 6
  let b7 ← Method.byte 7
  Method.modify fun f =>
    { f with dataPgn := (b5.toUInt32 ||| (b6.toUInt32 <<< 8)) ||| (b7.toUInt32 <<< 16) }

def totalMsgSizeBytes (f : TPCMFrame) : List UInt8 :=
  [(f.totalMsgSize &&& 0xFF).toUInt8, ((f.totalMsgSize >>> 8) &&& 0xFF).toUInt8]

def encodeRTS (f : TPCMFrame) : List UInt8 := f.totalMsgSizeBytes ++ [f.totalPackets, f.maxPackets]
def encodeCTS (f : TPCMFrame) : List UInt8 := [f.packetsToTx, f.nextPacket]
def encodeEndOfMsgACK (f : TPCMFrame) : List UInt8 := f.totalMsgSizeBytes ++ [f.totalPackets]
def encodeConnAbort (f : TPCMFrame) : List UInt8 := [f.abortReason]
def encodeBAM (f : TPCMFrame) : List UInt8 := f.totalMsgSizeBytes ++ [f.totalPackets]

/-- The bytes that `encodeData` writes from index 1 on for its control type. -/
def encodeCtrl (f : TPCMFrame) : Except J1939Exception (List UInt8) :=
  if f.ctrlType = ctrlTpcmRts then .ok f.encodeRTS
  else if f.ctrlType = ctrlTpcmCts then .ok f.encodeCTS
  else if f.ctrlType = ctrlTpcmAck then .ok f.encodeEndOfMsgACK
  else if f.ctrlType = ctrlTpcmAbort then .ok f.encodeConnAbort
  else if f.ctrlType = ctrlTpcmBam then .ok f.encodeBAM
  else .error .tpcmEncodeCtrlType

/-- The three bytes of the data PGN. -/
def dataPgnBytes (f : TPCMFrame) : List UInt8 :=
  [(f.dataPgn &&& 0xFF).toUInt8, ((f.dataPgn >>> 8) &&& 0xFF).toUInt8,
    ((f.dataPgn >>> 16) &&& 0xFF).toUInt8]

/-- `TPCMFrame::encodeData`. -/
def encodeData (f : TPCMFrame) (buffer : List UInt8) : Except J1939Exception (List UInt8) :=
  let cleared := writeBytes buffer 0 (List.replicate tpCmSize 0xFF)
  match f.encodeCtrl with
  | .error e => .error e
  | .ok ctrl => .ok (writeBytes (writeBytes (cleared.set 0 f.ctrlType) 1 ctrl) 5 f.dataPgnBytes)

/-- `TPCMFrame::clear`. -/
def clear (f : TPCMFrame) : TPCMFrame :=
  { name := f.name, priority := 0, srcAddr := 0, dstAddr := broadcastAddress }

theorem decodeData_toHeader (f : TPCMFrame) (length : ℕ) (mem : Memory) :
    ((decodeData length).run f mem).2.toHeader = f.toHeader := by
  simp only [decodeData, decodeCtrl, Method.run_throwIf_bind, Method.run_byte_bind,
    Method.run_modify_bind]
  split_ifs <;> rfl

instance : IsJ1939Frame TPCMFrame where
  header := toHeader
  withHeader f h := { f with toHeader := h }
  getPGN _ := tpCmPgn
  decodeData := decodeData
  encodeData := encodeData
  getDataLength _ := tpCmSize
  header_withHeader _ _ := rfl
  withHeader_header _ := rfl
  withHeader_withHeader _ _ _ := rfl
  getPGN_withHeader _ _ := rfl
  decodeData_header := decodeData_toHeader
  decodeData_getPGN _ _ _ := rfl
  encodeData_length f buffer out h := by
    unfold encodeData at h
    split at h
    · cases h
    · cases h
      simp

end TPCMFrame

/-- `TPDTFrame`: the array `mData` has a fixed size. -/
structure TPDTFrame extends Header where
  sq : UInt8 := 0
  data : List.Vector UInt8 tpDtPacketSize
  deriving DecidableEq

namespace TPDTFrame

/-- The constructor without arguments. -/
def new : TPDTFrame :=
  { name := "Transport Data", data := List.Vector.replicate tpDtPacketSize 0xFF }

/-- The constructor that copies at most seven bytes over the 0xFF of `new`. -/
def ofData (sq : UInt8) (data : List UInt8) : TPDTFrame :=
  { new with
    sq := sq
    data := ⟨(data ++ List.replicate tpDtPacketSize 0xFF).take tpDtPacketSize, by simp⟩ }

/-- `TPDTFrame::decodeData`. -/
def decodeData (length : ℕ) : Method TPDTFrame J1939Exception Unit := do
  Method.throwIf (length ≠ bamDtSize) (.tpdtLength length)
  let sq ← Method.byte 0
  Method.modify fun f => { f with sq := sq }
  let data ← Method.bytes 1 tpDtPacketSize
  Method.modify fun f => { f with data := data }

/-- `TPDTFrame::encodeData`. -/
def encodeData (f : TPDTFrame) (buffer : List UInt8) : Except J1939Exception (List UInt8) :=
  .ok (writeBytes (buffer.set 0 f.sq) 1 f.data.toList)

theorem run_decodeData (f : TPDTFrame) (length : ℕ) (mem : Memory) :
    (decodeData length).run f mem =
      if length ≠ bamDtSize then (.error (.tpdtLength length), f)
      else (.ok (), { f with sq := mem 0, data := mem.vector 1 tpDtPacketSize }) := by
  simp only [decodeData, Method.run_throwIf_bind, Method.run_byte_bind, Method.run_modify_bind,
    Method.run_bytes_bind, Method.run_modify]

instance : IsJ1939Frame TPDTFrame where
  header := toHeader
  withHeader f h := { f with toHeader := h }
  getPGN _ := tpDtPgn
  decodeData := decodeData
  encodeData := encodeData
  getDataLength _ := bamDtSize
  header_withHeader _ _ := rfl
  withHeader_header _ := rfl
  withHeader_withHeader _ _ _ := rfl
  getPGN_withHeader _ _ := rfl
  decodeData_header f length mem := by
    rw [run_decodeData]
    split_ifs <;> rfl
  decodeData_getPGN _ _ _ := rfl
  encodeData_length f buffer out h := by
    cases h
    simp

end TPDTFrame

end J1939
