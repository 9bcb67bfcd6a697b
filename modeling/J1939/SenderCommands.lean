import J1939.Commands
import J1939.Can
import J1939.FrameOperations
import J1939.Lib.Stoul
import J1939.SPNValues
import J1939.TellTales
import J1939.TroubleCodes
import Mathlib.Data.List.Lex
import Mathlib.Data.Char

/-!
# The interpreter of the sender

The functions that `j1939Sender` calls for its commands. A command may end the program: `quit`
does, an exception that nothing catches does, and so does an access that is undefined. What the
commands print is left out, except where it is what the command is for.
-/

namespace J1939

/-- Why the program does not go on. -/
inductive Ending
  | quit
  /-- `std::out_of_range` of a conversion. -/
  | outOfRange
  | thrown (e : J1939Exception)
  | undefined
  /-- Too many scripts are open. -/
  | outOfFuel
  deriving DecidableEq, Repr

/-- What the interpreter is given: the registered frames, the conversion to a floating point
number, which may be none that can be compared, and the lines of the scripts that can be opened. -/
structure SenderEnv where
  factory : J1939Factory
  stod : Token → Except ConversionError (Option ℚ)
  script : Token → Option (List Token)

/-- The global variables: the frames by the names that the user gave them, their periods, the
tell-tales, the senders of the initialized interfaces, and the frames that were sent once. -/
structure SenderState where
  framesToSend : SortedMap Token Frame := ∅
  framePeriods : SortedMap Token UInt32 := ∅
  fms1Frames : List FMS1Frame
  ttsPeriod : UInt32 := 0
  senders : SortedMap Token CommonCanSender
  sentOnce : List (Token × CanFrame) := []

theorem blockID_lt (block : Fin 4) : UInt8.ofNat block < numberOfBlocks := by
  revert block
  decide

/-- The frames that `main` puts into `fms1Frames`, one for every block. -/
def initialFms1Frames : List FMS1Frame :=
  (List.finRange 4).map fun (block : Fin 4) => .ofBlockID (UInt8.ofNat block) (blockID_lt block)

/-- The state before the first command. -/
def SenderState.initial (ifaces : List Token) : SenderState where
  fms1Frames := initialFms1Frames
  senders := ifaces.foldl (fun senders iface => senders.insert iface {}) ∅

/-! ### Parameters -/

/-- The test on a key: its only colon is the last character. The empty key passes. -/
def hasColon (key : Token) : Prop := key = [] ∨ key.findIdx? (· = ':') = some (key.length - 1)

instance (key : Token) : Decidable (hasColon key) := inferInstanceAs (Decidable (_ ∨ _))

/-- `processCommandParameters`: what came before a wrong key has been done. -/
def processCommandParameters {σ : Type} (parserFunc : Token → Token → σ → Except Ending σ) :
    List Token → σ → Except Ending σ
  | [], s => .ok s
  | [_], s => .ok s
  | key :: value :: arguments, s =>
    if hasColon key then do
      let s ← parserFunc key.dropLast value s
      processCommandParameters parserFunc arguments s
    else .ok s

/-- A conversion whose `std::invalid_argument` is caught. -/
def caught {α : Type} : Except ConversionError α → Except Ending (Option α)
  | .ok a => .ok (some a)
  | .error .invalidArgument => .ok none
  | .error .outOfRange => .error .outOfRange

/-- `std::stoul`, assigned to a `u32`. -/
def stoul32 (base : ℕ) (value : Token) : Except Ending (Option UInt32) := do
  let number ← caught (Conversion.stoul base value)
  return number.map UInt64.toUInt32

/-- `std::stoul`, assigned to a `u32` that has to pass a mask. -/
def stoulMasked (base : ℕ) (mask : UInt8) (value : Token) : Except Ending (Option UInt8) := do
  let number ← stoul32 base value
  return number.bind fun n => if n = n &&& mask.toUInt32 then some n.toUInt8 else none

/-- An exception of the library escapes. -/
def escape {α : Type} : Except J1939Exception α → Except Ending α
  | .ok a => .ok a
  | .error e => .error (.thrown e)

/-! ### Setting frames -/

/-- The SPNs of a frame with `isGenericFrame`. -/
def Frame.asGeneric : Frame → Option GenericFrame
  | .generic f => some f
  | .dm1 f => some f.toGenericFrame
  | _ => none

/-- Change the SPNs of a frame with `isGenericFrame`. -/
def Frame.mapGeneric (g : GenericFrame → GenericFrame) : Frame → Frame
  | .generic f => .generic (g f)
  | .dm1 f => .dm1 { f with toGenericFrame := g f.toGenericFrame }
  | frame => frame

/-- The local variables of `parseSetFrameCommand` that its parser changes. -/
structure SetFrame where
  frame : Frame
  period : Option UInt32
  spn : Option UInt32 := none

/-- `setFrameSPN`: the number of the SPN, if the frame has it. -/
def setFrameSPN (frame : GenericFrame) (value : Token) : Except Ending (Option UInt32) := do
  let number ← stoul32 10 value
  return number.filter fun n => (frame.spns.find? n).isSome

/-- The bytes of a token. -/
def tokenBytes (value : Token) : List UInt8 := value.map fun c => UInt8.ofNat c.toNat

/-- `setFrameValue`. -/
def setFrameValue (env : SenderEnv) (frame : Frame) (number : UInt32) (value : Token) :
    Except Ending Frame :=
  match frame.asGeneric.bind fun f => f.spns.find? number with
  | none => .error .undefined
  | some (.numeric n) => do
    let valueNumber ← caught (env.stod value)
    match valueNumber.join with
    | none => return frame
    | some x => return frame.mapGeneric fun f =>
        f.setNumericValue number (n.setFormattedValue x).1.value
  | some (.status _) => do
    let status ← stoulMasked 10 0xFF value
    match status with
    | none => return frame
    | some status => return frame.mapGeneric fun f => f.setStatusValue number status
  | some (.string _) => return frame.mapGeneric fun f => f.setStringValue number (tokenBytes value)

/-- `parseSetGenericParams`: an unknown key has no effect. -/
def parseSetGenericParams (key value : Token) (s : SetFrame) : Except Ending SetFrame :=
  if key = "priority".toList then do
    let priority ← stoulMasked 10 priorityMask value
    return { s with frame := priority.elim s.frame (setPriority s.frame) }
  else if key = "period".toList then do
    let period ← stoul32 10 value
    return { s with period := period <|> s.period }
  else if key = "source".toList then do
    let src ← stoulMasked 16 srcAddrMask.toUInt8 value
    return { s with frame := src.elim s.frame (setSrcAddr s.frame) }
  else if key = "dest".toList then do
    let dest ← stoulMasked 16 dstAddrMask.toUInt8 value
    return { s with frame := dest.elim s.frame (setDstAddr s.frame) }
  else return s

/-- The parser of `parseSetFrameCommand`. -/
def setFrameParam (env : SenderEnv) (key value : Token) (s : SetFrame) : Except Ending SetFrame :=
  if key = "spn".toList then
    match s.frame.asGeneric with
    | none => return s
    | some f => do
      let spn ← setFrameSPN f value
      return { s with spn := spn }
  else if key = "value".toList then
    match s.spn with
    | none => return s
    | some number => do
      let frame ← setFrameValue env s.frame number value
      return { s with frame := frame }
  else parseSetGenericParams key value s

/-! ### Sending -/

/-- `getInitializedCanIfaces`. -/
def SenderState.interfaces (s : SenderState) : List Token := s.senders.entries.map Prod.fst

/-- Use the sender of an interface. There is none but for the initialized interfaces. -/
def onInterface (f : CommonCanSender → Except J1939Exception (CommonCanSender × List CanFrame))
    (interface : Token) (s : SenderState) : Except Ending SenderState :=
  match s.senders.find? interface with
  | none => .error .undefined
  | some sender => do
    let (sender', sent) ← escape (f sender)
    return { s with
      senders := s.senders.insert interface sender'
      sentOnce := s.sentOnce ++ sent.map fun canFrame => (interface, canFrame) }

/-- Use the senders of all initialized interfaces. -/
def onInterfaces (f : CommonCanSender → Except J1939Exception (CommonCanSender × List CanFrame))
    (s : SenderState) : Except Ending SenderState :=
  s.interfaces.foldlM (fun s interface => onInterface f interface s) s

/-- `notifySender` on one interface: a frame that is sent there is sent again. -/
def resend (frame : Frame) (period : UInt32) (sender : CommonCanSender) :
    Except J1939Exception (CommonCanSender × List CanFrame) := do
  let sent ← isFrameSent sender frame
  if sent then sendFrameThroughInterface sender frame period else return (sender, [])

/-- `notifySender`. -/
def notifySender (frame : Frame) (period : UInt32) (s : SenderState) : Except Ending SenderState :=
  onInterfaces (resend frame period) s

/-- `parseSetFrameCommand`. -/
def parseSetFrameCommand (env : SenderEnv) (s : SenderState) (name : Token)
    (arguments : List Token) : Except Ending SenderState :=
  match s.framesToSend.find? name with
  | none => return s
  | some frame => do
    let set ← processCommandParameters (setFrameParam env) arguments
      { frame := frame, period := s.framePeriods.find? name }
    let s := { s with
      framesToSend := s.framesToSend.insert name set.frame
      framePeriods := set.period.elim s.framePeriods (s.framePeriods.insert name) }
    match set.period with
    | none => return s
    | some period => notifySender set.frame period s

/-- `parseCreateFrameCommand`. A name in use is refused before the PGN is read. -/
def parseCreateFrameCommand (env : SenderEnv) (s : SenderState) (arguments : List Token) :
    Except Ending SenderState := do
  let (name, pgn, title) ← processCommandParameters
    (fun key value ((name, pgn, title) : Token × Token × Token) =>
      if key = "name".toList then return (value, pgn, title)
      else if key = "pgn".toList then return (name, value, title)
      else if key = "title".toList then return (name, pgn, value)
      else return (name, pgn, title))
    arguments ([], [], [])
  if name = [] then return s
  else if (pgn = [] ↔ title = []) then return s
  else if (s.framesToSend.find? name).isSome then return s
  else do
    let frameToAdd ←
      if pgn ≠ [] then
        (fun number => number.bind env.factory.getFrameByPgn) <$> stoul32 16 pgn
      else pure (env.factory.getFrameByName (String.ofList title))
    match frameToAdd with
    | none => return s
    | some frame => return { s with framesToSend := s.framesToSend.insert name frame }

/-- The parser of the commands that take an initialized interface. Any other one is ignored. -/
def interfaceParam (s : SenderState) (key value : Token) (interface : Token) :
    Except Ending Token :=
  if key = "interface".toList ∧ value ∈ s.interfaces then return value else return interface

/-- `parseSendFrameCommand`. -/
def parseSendFrameCommand (s : SenderState) (name : Token) (arguments : List Token) :
    Except Ending SenderState :=
  match s.framesToSend.find? name with
  | none => return s
  | some frame => do
    let interface ← processCommandParameters (interfaceParam s) arguments []
    if interface = [] then return s
    else
      let period := (s.framePeriods.find? name).getD 0
      onInterface (fun sender => sendFrameThroughInterface sender frame period) interface s

/-- `parseUnsendFrameCommand`: without an interface, all of them stop. -/
def parseUnsendFrameCommand (s : SenderState) (name : Token) (arguments : List Token) :
    Except Ending SenderState :=
  match s.framesToSend.find? name with
  | none => return s
  | some frame => do
    let interface ← processCommandParameters
      (fun key value (interface : Token) =>
        if key = "interface".toList then return value else return interface) arguments []
    let ids ← escape (sentIds frame)
    return { s with
      senders := s.senders.setValues (s.senders.entries.map fun (iface, sender) =>
        if interface = [] ∨ interface = iface then sender.unSendFrames ids else sender) }

/-- The parser of `parseSendAddrCommand`: the address, the identity number and the interface. -/
def sendAddrParam (key value : Token) :
    UInt8 × UInt32 × Token → Except Ending (UInt8 × UInt32 × Token)
  | (addr, id, interface) =>
    if key = "addr".toList then do
      let number ← caught (Conversion.stoi 0 value)
      return (number.elim addr UInt8.ofInt, id, interface)
    else if key = "name".toList then do
      let number ← stoul32 0 value
      return (addr, number.getD id, interface)
    else if key = "interface".toList then return (addr, id, value)
    else return (addr, id, interface)

/-- `parseSendAddrCommand`. The interface is not looked for before it is used. -/
def parseSendAddrCommand (s : SenderState) (arguments : List Token) :
    Except Ending SenderState := do
  let (addr, id, interface) ← processCommandParameters sendAddrParam arguments (0, 0, [])
  if id = 0 ∨ addr = 0 then return s
  else if interface = [] then return s
  else
    let addrClaim := AddressClaimFrame.ofEcuName { idNumber := id }
    let addrClaim := setDstAddr (setSrcAddr (Frame.addressClaim addrClaim) addr) broadcastAddress
    onInterface (fun sender => sendFrameThroughInterface sender addrClaim 0) interface s

/-! ### Tell-tales -/

/-- The identifiers of the tell-tale frames. -/
def ttsIds (frames : List FMS1Frame) : List UInt32 := frames.map getIdentifier

/-- `ttsFramesToCanFrames`. -/
def ttsFramesToCanFrames (frames : List FMS1Frame) : Except J1939Exception (List CanFrame) :=
  frames.mapM encodeCan

/-- `parseUnsendTTSCommand`. -/
def parseUnsendTTSCommand (s : SenderState) : SenderState :=
  { s with
    senders := s.senders.setValues (s.senders.values.map fun sender =>
      sender.unSendFrames (ttsIds s.fms1Frames)) }

/-- What `parseSendTTSCommand` does on its interface. -/
def sendTTS (frames : List FMS1Frame) (period : UInt32) (sender : CommonCanSender) :
    Except J1939Exception (CommonCanSender × List CanFrame) := do
  let canFrames ← ttsFramesToCanFrames frames
  return (sender.sendFrames canFrames period, [])

/-- `parseSendTTSCommand`. The period is stored even if the frames are not sent. -/
def parseSendTTSCommand (s : SenderState) (arguments : List Token) :
    Except Ending SenderState := do
  let (interface, ttsPeriod) ← processCommandParameters
    (fun key value ((interface, ttsPeriod) : Token × Option UInt32) =>
      if key = "period".toList then do
        let number ← stoul32 10 value
        return (interface, number <|> ttsPeriod)
      else do
        let interface ← interfaceParam s key value interface
        return (interface, ttsPeriod))
    arguments ([], none)
  match ttsPeriod with
  | none => return s
  | some period =>
    let s := { s with ttsPeriod := period }
    if interface = [] then return s
    else onInterface (sendTTS s.fms1Frames period) interface s

/-- The loop of `parseSetTTSCommand` over the frames, and `ttsSet`. -/
def setFirstTTS (number status : UInt8) : List FMS1Frame → List FMS1Frame × Bool
  | [] => ([], false)
  | frame :: frames =>
    if (frame.ttss.find? number).isSome then ((frame.setTTS number status).1 :: frames, true)
    else
      let rest := setFirstTTS number status frames
      (frame :: rest.1, rest.2)

/-- What `parseSetTTSCommand` does on one interface when a tell-tale has been set. -/
def resendTTS (frames : List FMS1Frame) (period : UInt32) (sender : CommonCanSender) :
    Except J1939Exception (CommonCanSender × List CanFrame) :=
  if sender.isSent (ttsIds frames) then sendTTS frames period sender else return (sender, [])

/-- `parseSetTTSCommand`. The value 0xFF stands for a missing number or status. -/
def parseSetTTSCommand (s : SenderState) (arguments : List Token) :
    Except Ending SenderState := do
  let (number, status) ← processCommandParameters
    (fun key value ((number, status) : UInt8 × UInt8) =>
      if key = "number".toList then do
        let ttsNumber ← stoulMasked 10 0xFF value
        return (ttsNumber.getD 0xFF, status)
      else if key = "status".toList then do
        let ttsStatus ← stoulMasked 10 0xFF value
        return (number, ttsStatus.getD 0xFF)
      else return (number, status))
    arguments (0xFF, 0xFF)
  if number ≠ 0xFF ∧ status ≠ 0xFF then
    let set := setFirstTTS number status s.fms1Frames
    let s := { s with fms1Frames := set.1 }
    if set.2 then onInterfaces (resendTTS s.fms1Frames s.ttsPeriod) s else return s
  else return s

/-- `parseListTTSCommand`, without what it prints. -/
def parseListTTSCommand (s : SenderState) (arguments : List Token) :
    Except Ending SenderState := do
  let _ ←
    if arguments.head? ≠ some "all".toList then
      processCommandParameters
        (fun key value (number : UInt8) =>
          if key = "number".toList then do
            let ttsNumber ← stoulMasked 10 0xFF value
            return ttsNumber.getD number
          else return number)
        arguments 0
    else pure 0
  return s

/-! ### Trouble codes -/

/-- `parseDtcCommand`: a trouble code with all its parts. -/
def parseDtcCommand (arguments : List Token) : Except Ending (Option DTC) := do
  let dtc ← processCommandParameters
    (fun key value (dtc : DTC) =>
      if key = "spn".toList then do
        let number ← stoul32 10 value
        return { dtc with spn := number.getD dtc.spn }
      else if key = "oc".toList then do
        let number ← stoulMasked 10 dtcOcMask value
        return { dtc with oc := number.getD dtc.oc }
      else if key = "fmi".toList then do
        let number ← stoulMasked 10 dtcFmiMask value
        return { dtc with fmi := number.getD dtc.fmi }
      else return dtc)
    arguments { spn := 0, oc := 0xFF, fmi := 0xFF }
  return if dtc.spn = 0 ∨ dtc.oc = 0xFF ∨ dtc.fmi = 0xFF then none else some dtc

/-- What the commands for trouble codes have in common: the frame has the PGN of a DM1 frame, and
is taken for one. -/
def onDM1 (s : SenderState) (name : Token) (change : DM1 → Except Ending DM1) :
    Except Ending SenderState :=
  match s.framesToSend.find? name with
  | none => return s
  | some frame =>
    if getPGN frame ≠ dm1Pgn then return s
    else
      match frame with
      | .dm1 f => do
        let f ← change f
        return { s with framesToSend := s.framesToSend.insert name (.dm1 f) }
      | _ => .error .undefined

/-- `parseAddDtcCommand`. -/
def parseAddDtcCommand (s : SenderState) (name : Token) (arguments : List Token) :
    Except Ending SenderState :=
  onDM1 s name fun f => do
    let dtc ← parseDtcCommand arguments
    return dtc.elim f f.addDTC

/-- The position in `parseSetDtcCommand` and `parseDeleteDtcCommand`. It keeps no value when the
token is not a number, and there may be no token. -/
def parsePosition : List Token → Except Ending (Option ℕ × List Token)
  | [] => .error .undefined
  | posStr :: arguments => do
    let pos ← caught (Conversion.stoul 10 posStr)
    return (pos.map UInt64.toNat, arguments)

/-- `parseSetDtcCommand`. -/
def parseSetDtcCommand (s : SenderState) (name : Token) (arguments : List Token) :
    Except Ending SenderState :=
  onDM1 s name fun f => do
    let (pos, arguments) ← parsePosition arguments
    let dtc ← parseDtcCommand arguments
    match dtc, pos with
    | none, _ => return f
    | some _, none => .error .undefined
    | some dtc, some pos => return (f.setDTC pos dtc).1

/-- `parseDeleteDtcCommand`. -/
def parseDeleteDtcCommand (s : SenderState) (name : Token) (arguments : List Token) :
    Except Ending SenderState :=
  onDM1 s name fun f => do
    let (pos, _) ← parsePosition arguments
    match pos with
    | none => .error .undefined
    | some pos => return (f.deleteDTC pos).1

/-! ### Listing -/

/-- The exceptions that `parseListFramesCommand` catches. -/
def J1939Exception.isEncode (e : J1939Exception) : Bool := !e.isDecode && e ≠ .fms1OutOfRange

/-- `std::hex` with `std::setfill('0')`. -/
def printHex (width n : ℕ) : Token :=
  List.replicate (width - (Nat.toDigits 16 n).length) '0' ++ Nat.toDigits 16 n

/-- The identifier and the raw data of a frame. -/
def printRaw (encoded : Encoded) : Token :=
  printHex 8 encoded.identifier.toNat ++ [' '] ++
    encoded.buffer.flatMap fun octet => printHex 2 octet.toNat ++ [' ']

/-- The interfaces on which a frame is sent. -/
def txInterfaces (s : SenderState) (frame : Frame) : Except J1939Exception (List Token) := do
  let sent ← s.senders.entries.filterM fun (_, sender) => isFrameSent sender frame
  return sent.map Prod.fst

/-- What `parseListFramesCommand` puts into its `try`. -/
def listRaw (s : SenderState) (frame : Frame) : Except Ending (Token × List Token) :=
  match encode frame (getDataLength frame) with
  | .error e => if e.isEncode then .ok ([], []) else .error (.thrown e)
  | .ok encoded =>
    match txInterfaces s frame with
    | .error e => if e.isEncode then .ok (printRaw encoded, []) else .error (.thrown e)
    | .ok interfaces => .ok (printRaw encoded, interfaces)

/-- The line of one frame. -/
def listFrame (s : SenderState) (name : Token) (frame : Frame) : Except Ending Token := do
  let (raw, interfaces) ← listRaw s frame
  let period := (s.framePeriods.find? name).elim [] fun period =>
    " Period: ".toList ++ Nat.toDigits 10 period.toNat ++ " ms".toList
  let sentFrom := if interfaces = [] then [] else
    " Sent from: ".toList ++ interfaces.flatMap fun interface => interface ++ [' ']
  return name ++ ": ".toList ++ raw ++ period ++ sentFrom ++ ['\n']

/-- What `parseListFramesCommand` prints. -/
def parseListFramesCommand (s : SenderState) : Except Ending Token := do
  let lines ← s.framesToSend.entries.mapM fun (name, frame) => listFrame s name frame
  return lines.flatten

/-- The parser of `parseGetCommand`. -/
def getParam (key value : Token) (pgn : Token) : Except Ending Token :=
  if key = "pgn".toList then return value else return pgn

/-- `parseGetCommand`, without what it prints. Whatever the frame is, it is taken for a
`GenericFrame`. -/
def parseGetCommand (env : SenderEnv) (s : SenderState) (arguments : List Token) :
    Except Ending SenderState := do
  let pgn ← processCommandParameters getParam arguments []
  let pgnNumber ← if pgn = [] then pure none else stoul32 0 pgn
  match pgnNumber.bind env.factory.getFrameByPgn with
  | none => return s
  | some frame => if frame.asGeneric = none then .error .undefined else return s

/-! ### Lines and scripts -/

/-- The call of a function without arguments. -/
def callCmdFunc (s : SenderState) : CmdFunc → Except Ending SenderState
  | .parseQuitCommand => .error .quit
  | .parseListFramesCommand => do
    let _ ← parseListFramesCommand s
    return s
  | .parseListCommandsCommand => return s
  | .parseListInterfacesCommand => return s
  | .parseUnsendTTSCommand => return parseUnsendTTSCommand s

/-- The call of a function with arguments, apart from `parseExecCommand`. The name of the frame
comes first. -/
def callCmdFuncWithArgs (env : SenderEnv) (s : SenderState) (func : CmdFuncWithArgs)
    (arguments : List Token) : Except Ending SenderState :=
  let name := arguments.headD []
  let rest := arguments.tail
  match func with
  | .parseCreateFrameCommand => parseCreateFrameCommand env s arguments
  | .parseListTTSCommand => parseListTTSCommand s arguments
  | .parsePrintFrameCommand => return s
  | .parseSetFrameCommand => parseSetFrameCommand env s name rest
  | .parseSetTTSCommand => parseSetTTSCommand s arguments
  | .parseSetDtcCommand => parseSetDtcCommand s name rest
  | .parseSendFrameCommand => parseSendFrameCommand s name rest
  | .parseSendTTSCommand => parseSendTTSCommand s arguments
  | .parseSendAddrCommand => parseSendAddrCommand s arguments
  | .parseExecCommand => return s
  | .parseUnsendFrameCommand => parseUnsendFrameCommand s name rest
  | .parseAddDtcCommand => parseAddDtcCommand s name rest
  | .parseDeleteDtcCommand => parseDeleteDtcCommand s name rest
  | .parseGetCommand => parseGetCommand env s arguments

/-- `parseLine`, with the number of scripts that it can open inside each other. `parseExecCommand`
is the only command that reads further lines. -/
def parseLine (env : SenderEnv) : ℕ → SenderState → Token → Except Ending SenderState
  | fuel, s, line =>
    match resolveLine line with
    | .nothing | .unknown | .wrongArguments => return s
    | .call func => callCmdFunc s func
    | .callWithArgs .parseExecCommand [file] =>
      match env.script file, fuel with
      | none, _ => return s
      | some _, 0 => .error .outOfFuel
      | some lines, fuel + 1 => lines.foldlM (fun s line => parseLine env fuel s line) s
    | .callWithArgs func arguments => callCmdFuncWithArgs env s func arguments

/-- The lines that `main` reads. -/
def parseLines (env : SenderEnv) (fuel : ℕ) (s : SenderState) (lines : List Token) :
    Except Ending SenderState :=
  lines.foldlM (parseLine env fuel) s

end J1939
