import J1939.J1939Factory

/-!
# Broadcast transfers

`BamFragmenter` splits a long frame into one TP.CM and up to 255 TP.DT frames, and
`BamReassembler` puts the packets of each source address together again and hands
the payload to the factory.
-/

namespace J1939

/-- `BamFragmenter`: the packets by sequence number. -/
structure BamFragmenter where
  cmFrame : TPCMFrame := TPCMFrame.new
  dtFrames : SortedMap UInt8 TPDTFrame := ∅

namespace BamFragmenter

/-- `BamFragmenter::clear`. -/
def clear (r : BamFragmenter) : BamFragmenter := { cmFrame := r.cmFrame.clear, dtFrames := ∅ }

/-- The offsets that the loop `for (offset = 0; offset < length; offset += 7)` runs
through, counted in packets. -/
def packetCount (length : ℕ) : ℕ := (length + tpDtPacketSize - 1) / tpDtPacketSize

section Fragment

variable {F : Type} [IsJ1939Frame F]

/-- Give a transport frame the priority and source of the original frame, and the
broadcast address. -/
def addressed {T : Type} [IsJ1939Frame T] (frame : F) (t : T) : T :=
  setDstAddr (setSrcAddr (setPriority t (getPriority frame)) (getSrcAddr frame)) broadcastAddress

/-- The packet at offset `7 * k` of the data. -/
def packet (frame : F) (data : List UInt8) (k : ℕ) : TPDTFrame :=
  addressed frame (TPDTFrame.ofData (UInt8.ofNat (k + 1))
    ((data.drop (tpDtPacketSize * k)).take (min tpDtPacketSize (data.length - tpDtPacketSize * k))))

/-- `mCMFrame` when the data is about to be encoded. -/
def connFrame (frame : F) (cmFrame : TPCMFrame) : TPCMFrame :=
  addressed frame { cmFrame.clear with ctrlType := ctrlTpcmBam, dataPgn := getPGN frame }

/-- `BamFragmenter::fragment`. -/
def fragment (r : BamFragmenter) (frame : F) : Except J1939Exception Bool × BamFragmenter :=
  if getDataLength frame ≤ maxSize then (.ok false, r)
  else
    let cmFrame := connFrame frame r.cmFrame
    match encode frame (getDataLength frame) with
    | .error e => (.error e, { cmFrame := cmFrame, dtFrames := ∅ })
    | .ok encoded =>
      let dtFrames := (List.range (packetCount encoded.length)).foldl
        (fun dtFrames k => dtFrames.insert (UInt8.ofNat (k + 1)) (packet frame encoded.buffer k))
        (∅ : SortedMap UInt8 TPDTFrame)
      (.ok true,
        { cmFrame :=
            { cmFrame with
              totalPackets := UInt8.ofNat dtFrames.size
              totalMsgSize := UInt16.ofNat encoded.length }
          dtFrames := dtFrames })

end Fragment

def getConnFrame (r : BamFragmenter) : TPCMFrame := r.cmFrame

/-- `BamFragmenter::getDataFrames`. -/
def getDataFrames (r : BamFragmenter) : List TPDTFrame := r.dtFrames.values

end BamFragmenter

/-- `BAMFragments`: the open session of one source address. -/
structure BAMFragments where
  cmFrame : TPCMFrame := TPCMFrame.new
  dtFrames : List TPDTFrame := []
  deriving DecidableEq

namespace BAMFragments

def addDtFrame (b : BAMFragments) (dtFrame : TPDTFrame) : BAMFragments :=
  { b with dtFrames := b.dtFrames ++ [dtFrame] }

/-- `BAMFragments::getLastSQ`. -/
def getLastSQ (b : BAMFragments) : UInt8 :=
  match b.dtFrames.getLast? with
  | none => 0
  | some dt => dt.sq

end BAMFragments

inductive EBamError
  | incompleteFrame
  | unexpectedFrame
  | notBcastAddr
  | decoding
  | ok
  deriving DecidableEq, Repr

/-- `static_cast<const TPCMFrame *>`. The cast of another class is undefined; a new
object stands for it. -/
def Frame.asTPCM : Frame → TPCMFrame
  | tpcm f => f
  | _ => TPCMFrame.new

/-- `static_cast<const TPDTFrame *>`, like `asTPCM`. -/
def Frame.asTPDT : Frame → TPDTFrame
  | tpdt f => f
  | _ => TPDTFrame.new

/-- Only a frame of the right class opens a session. -/
theorem Frame.eq_tpcm_of_bam {frame : Frame} (h : frame.asTPCM.ctrlType = ctrlTpcmBam) :
    ∃ f, frame = .tpcm f := by
  cases frame with
  | tpcm f => exact ⟨f, rfl⟩
  | _ => exact absurd h (by simp [Frame.asTPCM, TPCMFrame.new])

/-- Only a frame of the right class has a sequence number other than 0. -/
theorem Frame.eq_tpdt_of_sq {frame : Frame} (h : frame.asTPDT.sq ≠ 0) :
    ∃ f, frame = .tpdt f := by
  cases frame with
  | tpdt f => exact ⟨f, rfl⟩
  | _ => exact absurd rfl h

/-- `BamReassembler`: the open sessions by source address, and the queue of the
frames that have been put together. -/
structure BamReassembler where
  fragments : SortedMap UInt8 BAMFragments := ∅
  lastError : EBamError := .ok
  reassembledFrames : List Frame := []
  deriving DecidableEq

/-- The arguments of a call of `J1939Factory::getJ1939Frame`. -/
structure FactoryCall where
  id : UInt32
  data : Memory
  length : ℕ

/-- The bytes handed to the factory. -/
def FactoryCall.payload (call : FactoryCall) : List UInt8 := call.data.slice 0 call.length

/-- The effect of `BamReassembler::handleFrame`: the object after it, the value
returned or the exception, and the call of the factory when there was one. -/
structure HandleResult where
  reassembler : BamReassembler
  returned : Except J1939Exception ℕ
  call : Option FactoryCall := none

namespace BamReassembler

def setError (r : BamReassembler) (status : EBamError) : BamReassembler :=
  { r with lastError := status }

/-- The loop of `reassemble`. -/
def copyPackets (length : ℕ) : ℕ → List TPDTFrame → Memory → Memory
  | _, [], data => data
  | offset, dt :: dts, data =>
    let data' := data.write offset (dt.data.toList.take (min (length - offset) tpDtPacketSize))
    if offset + tpDtPacketSize ≥ length then data'
    else copyPackets length (offset + tpDtPacketSize) dts data'

/-- `BamReassembler::reassemble`. The array that `new` returns is not initialised: it
holds what the heap holds. -/
def reassemble (fragments : BAMFragments) (heap : Memory) : Memory × ℕ :=
  let length := fragments.cmFrame.totalMsgSize.toNat
  (copyPackets length 0 fragments.dtFrames heap, length)

/-- The identifier of the reassembled frame. -/
def newId (connFrame : TPCMFrame) : UInt32 :=
  (((getPriority connFrame &&& priorityMask).toUInt32 <<< priorityOffset) |||
    (connFrame.dataPgn <<< pgnOffset)) |||
    ((getSrcAddr connFrame).toUInt32 &&& srcAddrMask)

/-- `BamReassembler::toBeHandled`. -/
def toBeHandled (frame : Frame) : Bool :=
  if getDstAddr frame ≠ broadcastAddress then false
  else if getPGN frame = tpCmPgn then frame.asTPCM.ctrlType = ctrlTpcmBam
  else getPGN frame = tpDtPgn

/-- `handleFrame` on a TP.CM frame. -/
def handleConn (r : BamReassembler) (srcAddr : UInt8) (conn : TPCMFrame) : HandleResult :=
  if conn.ctrlType ≠ ctrlTpcmBam then ⟨r.setError .unexpectedFrame, .ok 0, none⟩
  else
    let r' := match r.fragments.find? srcAddr with
      | some _ => { r with fragments := r.fragments.erase srcAddr }.setError .incompleteFrame
      | none => r.setError .ok
    ⟨{ r' with fragments := r'.fragments.insert srcAddr { cmFrame := conn } },
      .ok conn.totalMsgSize.toNat, none⟩

/-- `handleFrame` once all packets of a session have been received. -/
def finish (factory : J1939Factory) (heap : Memory) (r : BamReassembler) (srcAddr : UInt8)
    (fragments : BAMFragments) : HandleResult :=
  let full := reassemble fragments heap
  let call : FactoryCall := ⟨newId fragments.cmFrame, full.1, full.2⟩
  match (factory.getJ1939Frame call.id call.length).value call.data with
  -- the exception leaves before the session is erased
  | .error e => ⟨r, .error e, some call⟩
  | .ok none => ⟨{ r with fragments := r.fragments.erase srcAddr, lastError := .decoding },
      .ok 0, some call⟩
  | .ok (some decodedFrame) =>
    ⟨{ fragments := r.fragments.erase srcAddr
       lastError := .ok
       reassembledFrames := r.reassembledFrames ++ [decodedFrame] },
      .ok fragments.cmFrame.totalMsgSize.toNat, some call⟩

/-- The test on the sequence number of a packet. -/
def expects (fragments : BAMFragments) (sq : UInt8) : Prop :=
  fragments.cmFrame.totalPackets ≥ sq ∧ fragments.getLastSQ.toNat + 1 = sq.toNat

instance (fragments : BAMFragments) (sq : UInt8) : Decidable (expects fragments sq) :=
  inferInstanceAs (Decidable (_ ∧ _))

/-- `handleFrame` on a TP.DT frame. -/
def handleData (factory : J1939Factory) (heap : Memory) (r : BamReassembler) (srcAddr : UInt8)
    (data : TPDTFrame) : HandleResult :=
  match r.fragments.find? srcAddr with
  | none => ⟨r.setError .unexpectedFrame, .ok 0, none⟩
  | some fragments =>
    let expectedSize := fragments.cmFrame.totalMsgSize.toNat
    if expects fragments data.sq then
      let fragments' := fragments.addDtFrame data
      let r' := { r with fragments := r.fragments.insert srcAddr fragments' }
      if data.sq = fragments.cmFrame.totalPackets then finish factory heap r' srcAddr fragments'
      else ⟨r', .ok expectedSize, none⟩
    else ⟨r.setError .unexpectedFrame, .ok expectedSize, none⟩

/-- `BamReassembler::handleFrame`. What the heap holds is part of the input, because
`reassemble` does not initialise the payload. -/
def handleFrame (factory : J1939Factory) (heap : Memory) (r : BamReassembler) (frame : Frame) :
    HandleResult :=
  if getDstAddr frame ≠ broadcastAddress then ⟨r.setError .notBcastAddr, .ok 0, none⟩
  else if getPGN frame = tpCmPgn then r.handleConn (getSrcAddr frame) frame.asTPCM
  else if getPGN frame = tpDtPgn then
    r.handleData factory heap (getSrcAddr frame) frame.asTPDT
  else ⟨r.setError .unexpectedFrame, .ok 0, none⟩

/-- `BamReassembler::dequeueReassembledFrame`, to be called when a frame is pending. -/
def dequeueReassembledFrame (r : BamReassembler) : Option Frame × BamReassembler :=
  (r.reassembledFrames.head?, { r with reassembledFrames := r.reassembledFrames.tail })

/-- `BamReassembler::clear`. -/
def clear (_r : BamReassembler) : BamReassembler := {}

end BamReassembler

end J1939
