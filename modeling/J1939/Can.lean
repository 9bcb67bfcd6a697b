import J1939.Bam

/-!
# CAN frames and their periodic sender

`CommonCanSender` keeps a ring of CAN frames for every scheduled message. Its thread goes
over the rings again and again and sends the next frame of each ring that is due.
-/

namespace J1939

/-- `Can::CanFrame`: the identifier and the data. -/
structure CanFrame where
  id : UInt32
  data : List UInt8
  deriving DecidableEq, Repr

/-- A CAN frame received, with what the environment decides: the bytes in memory behind
its data, and those of the heap. -/
structure Reception where
  frame : CanFrame
  beyond : Memory
  heap : Memory

namespace Reception

def id (x : Reception) : UInt32 := x.frame.id
def length (x : Reception) : ℕ := x.frame.data.length
def memory (x : Reception) : Memory := Memory.ofList x.frame.data x.beyond

end Reception

/-- `timespec`. -/
structure Timespec where
  sec : ℤ := 0
  nsec : ℤ := 0
  deriving DecidableEq, Repr

/-- `Utils::getElapsedMillis`. -/
def getElapsedMillis (start stop : Timespec) : UInt32 :=
  UInt32.ofInt ((stop.sec - start.sec) * 1000 + (stop.nsec - start.nsec).tdiv 1000000)

/-- `Utils::addMillis`. -/
def addMillis (time : Timespec) (millis : ℕ) : Timespec where
  sec := time.sec + millis / 1000
  nsec := time.nsec + millis % 1000 * 1000000

/-- `abs` on a `u32` taken for an `int`. -/
def absMillis (millis : UInt32) : UInt32 := if millis.toNat < 2 ^ 31 then millis else -millis

/-- `CommonCanSender::CanFrameRing`, without a call-back. -/
structure CanFrameRing where
  frames : List CanFrame
  txTimestamp : Timespec := {}
  period : UInt32
  currentPos : ℕ := 0
  deriving DecidableEq, Repr

namespace CanFrameRing

/-- `CanFrameRing::shift`. -/
def shift (ring : CanFrameRing) : CanFrameRing :=
  if ring.currentPos = ring.frames.length then ring
  else if ring.currentPos + 1 = ring.frames.length then { ring with currentPos := 0 }
  else { ring with currentPos := ring.currentPos + 1 }

/-- `CanFrameRing::getCurrentFrame`. -/
def getCurrentFrame (ring : CanFrameRing) : Option CanFrame := ring.frames[ring.currentPos]?

/-- `CanFrameRing::getCurrentPeriod`: the last frame makes up for the rounding. -/
def getCurrentPeriod (ring : CanFrameRing) : ℕ :=
  if ring.frames = [] then 0
  else if ring.currentPos + 1 = ring.frames.length then
    ring.period.toNat - ring.period.toNat / ring.frames.length * (ring.frames.length - 1)
  else ring.period.toNat / ring.frames.length

/-- The test of `run` whether the current frame is due. -/
def isDue (now : Timespec) (ring : CanFrameRing) : Prop :=
  ring.txTimestamp.nsec = 0 ∧ ring.txTimestamp.sec = 0 ∨
    (absMillis (getElapsedMillis ring.txTimestamp now)).toNat ≥ ring.getCurrentPeriod

instance (now : Timespec) (ring : CanFrameRing) : Decidable (ring.isDue now) :=
  inferInstanceAs (Decidable (_ ∨ _))

/-- The body of the loop of `run` over the rings: the ring behind it and the frame sent. -/
def tick (now : Timespec) (ring : CanFrameRing) : CanFrameRing × Option CanFrame :=
  if ring.isDue now then
    let ring' := ring.shift
    let current := addMillis ring.txTimestamp ring'.getCurrentPeriod
    if (absMillis (getElapsedMillis current now)).toNat < ring'.getCurrentPeriod then
      ({ ring' with txTimestamp := current }, ring.getCurrentFrame)
    else ({ ring' with txTimestamp := now }, ring.getCurrentFrame)
  else (ring, none)

end CanFrameRing

/-- `CommonCanSender`: the rings in the order of the vector. -/
structure CommonCanSender where
  frameRings : List CanFrameRing := []
  deriving DecidableEq, Repr

namespace CommonCanSender

/-- `CommonCanSender::sendFrames`: a ring with the same identifiers is replaced. -/
def sendFrames (sender : CommonCanSender) (frames : List CanFrame) (period : UInt32) :
    CommonCanSender :=
  if frames = [] then sender
  else
    ⟨sender.frameRings.eraseP (fun ring => ring.frames.map CanFrame.id = frames.map CanFrame.id) ++
      [{ frames := frames, period := period }]⟩

/-- `CommonCanSender::sendFrame`. -/
def sendFrame (sender : CommonCanSender) (frame : CanFrame) (period : UInt32) :
    CommonCanSender :=
  sender.sendFrames [frame] period

/-- `CommonCanSender::unSendFrames`. -/
def unSendFrames (sender : CommonCanSender) (ids : List UInt32) : CommonCanSender :=
  ⟨sender.frameRings.eraseP (fun ring => ring.frames.map CanFrame.id = ids)⟩

/-- `CommonCanSender::isSent`. -/
def isSent (sender : CommonCanSender) (ids : List UInt32) : Bool :=
  sender.frameRings.any fun ring => ring.frames.map CanFrame.id = ids

/-- One pass of `run` over the rings. -/
def passRings (now : Timespec) : List CanFrameRing → List CanFrameRing × List CanFrame
  | [] => ([], [])
  | ring :: rings =>
    let rest := passRings now rings
    ((ring.tick now).1 :: rest.1, (ring.tick now).2.toList ++ rest.2)

/-- The passes of `run` at the given clock values, and the frames they send. -/
def run : CommonCanSender → List Timespec → CommonCanSender × List CanFrame
  | sender, [] => (sender, [])
  | sender, now :: clock =>
    let pass := passRings now sender.frameRings
    let rest := run ⟨pass.1⟩ clock
    (rest.1, pass.2 ++ rest.2)

end CommonCanSender

@[simp] def maxCanDataSize : ℕ := 8

/-- A frame encoded into as many bytes as it has, as a CAN frame. -/
def encodeCan {F : Type} [IsJ1939Frame F] (frame : F) : Except J1939Exception CanFrame :=
  match encode frame (getDataLength frame) with
  | .error e => .error e
  | .ok encoded => .ok ⟨encoded.identifier, encoded.buffer.take encoded.length⟩

/-- The CAN frames of a long frame: the connection frame and the packets. -/
def encodeBam (frame : Frame) : Except J1939Exception (List CanFrame) :=
  match ({} : BamFragmenter).fragment frame with
  | (.error e, _) => .error e
  | (.ok _, fragmenter) => do
    let conn ← encodeCan fragmenter.getConnFrame
    let dataFrames ← fragmenter.getDataFrames.mapM encodeCan
    return conn :: dataFrames

/-- `sendFrameThroughInterface`: the sender behind it, and the frame that is sent at once
when a short frame has no period. -/
def sendFrameThroughInterface (sender : CommonCanSender) (frame : Frame) (period : UInt32) :
    Except J1939Exception (CommonCanSender × List CanFrame) :=
  if getDataLength frame > maxCanDataSize then do
    let canFrames ← encodeBam frame
    return (sender.sendFrames canFrames period, [])
  else do
    let canFrame ← encodeCan frame
    if period = 0 then return (sender, [canFrame])
    else return (sender.sendFrame canFrame period, [])

/-- The identifiers under which a frame is looked for among the rings. -/
def sentIds (frame : Frame) : Except J1939Exception (List UInt32) :=
  if getDataLength frame > maxCanDataSize then
    match ({} : BamFragmenter).fragment frame with
    | (.error e, _) => .error e
    | (.ok _, fragmenter) =>
      .ok (getIdentifier fragmenter.getConnFrame :: fragmenter.getDataFrames.map getIdentifier)
  else .ok [getIdentifier frame]

/-- `unsendFrameThroughInterface` on an initialized interface. -/
def unsendFrameThroughInterface (sender : CommonCanSender) (frame : Frame) :
    Except J1939Exception CommonCanSender := do
  let ids ← sentIds frame
  return sender.unSendFrames ids

/-- `isFrameSent`. -/
def isFrameSent (sender : CommonCanSender) (frame : Frame) : Except J1939Exception Bool := do
  let ids ← sentIds frame
  return sender.isSent ids

/-- Schedule frames one after the other. A frame that cannot be encoded is left out: the
exception comes before the sender is called. -/
def schedule : CommonCanSender → List (Frame × UInt32) → CommonCanSender × List CanFrame
  | sender, [] => (sender, [])
  | sender, (frame, period) :: rest =>
    match sendFrameThroughInterface sender frame period with
    | .error _ => schedule sender rest
    | .ok (sender', sent) => ((schedule sender' rest).1, sent ++ (schedule sender' rest).2)

/-- A receiver that decodes a CAN frame and has the reassembler handle it, with the call of
the factory for a message that is put together. Exceptions are caught. -/
def receive (factory : J1939Factory) (reassembler : BamReassembler) (x : Reception) :
    BamReassembler × Option FactoryCall :=
  match (factory.getJ1939Frame x.id x.length).value x.memory with
  | .ok (some frame) =>
    ((reassembler.handleFrame factory x.heap frame).reassembler,
      (reassembler.handleFrame factory x.heap frame).call)
  | _ => (reassembler, none)

end J1939
