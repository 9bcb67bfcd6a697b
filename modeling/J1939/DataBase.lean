import J1939.DM1
import J1939.Lib.Json

/-!
# The database of frames

`J1939DataBase` reads frames and their SPNs from a JSON file and writes them to one. A
reading stops at the first entry that does not pass the checks. An assertion that fails or
an exception of the JSON library ends the process.
-/

namespace J1939

/-- `J1939DataBase::EErrorCode`. -/
inductive EErrorCode
  | ok
  | fileNotFound
  | jsonSyntax
  | unexpectedTokens
  | outOfRange
  | unknownSpnType
  | forbiddenToken
  deriving DecidableEq, Repr

/-- Why an entry of the file is rejected. -/
inductive Rejection
  | unexpectedTokens
  | outOfRange
  | unknownSpnType
  | forbiddenToken
  deriving DecidableEq, Repr

/-- The code that the parser leaves for `getLastError`. -/
def Rejection.errorCode : Rejection → EErrorCode
  | unexpectedTokens => .unexpectedTokens
  | outOfRange => .outOfRange
  | unknownSpnType => .unknownSpnType
  | forbiddenToken => .forbiddenToken

/-- How the process ends. -/
inductive Abort
  | assertion
  | thrown (e : JsonException)
  deriving DecidableEq, Repr

/-- How the parser leaves an entry that it does not accept. -/
inductive ParseEnd
  | rejected (r : Rejection)
  | aborted (a : Abort)
  deriving DecidableEq, Repr

/-- `J1939DataBase`. -/
structure J1939DataBase where
  frames : List GenericFrame := []
  errorCode : EErrorCode := .ok
  deriving DecidableEq

/-- A file, as `parseFromStream` finds it. -/
inductive JsonFile
  | notFound
  | syntaxError
  | value (data : Json)

@[simp] def pgnKey : String := "pgn"
@[simp] def spnsKey : String := "spns"
@[simp] def nameKey : String := "name"
@[simp] def numberKey : String := "number"
@[simp] def typeKey : String := "type"
@[simp] def offsetKey : String := "offset"
@[simp] def lengthKey : String := "length"
@[simp] def numFormatGainKey : String := "formatGain"
@[simp] def numFormatOffsetKey : String := "formatOffset"
@[simp] def numByteSizeKey : String := "byteSize"
@[simp] def numUnitsKey : String := "units"
@[simp] def statBitOffsetKey : String := "bitOffset"
@[simp] def statBitSizeKey : String := "bitSize"
@[simp] def statDescriptionsKey : String := "descriptions"

@[simp] def spnNumericType : UInt32 := 0
@[simp] def spnStatusType : UInt32 := 1
@[simp] def spnStringType : UInt32 := 2

/-- `SPN::getType`. -/
def SPN.getType : SPN → UInt32
  | .numeric _ => spnNumericType
  | .status _ => spnStatusType
  | .string _ => spnStringType

/-! ### Constructors and their assertions -/

/-- The constructor of `SPNSpec`. -/
def SPNSpec.construct (number : UInt32) (name : String) (offset : ℕ) : Except ParseEnd SPNSpec :=
  if h : number < 0x80000 then .ok ⟨number, name, offset, h⟩
  else .error (.aborted .assertion)

/-- The constructor of `SPNNumericSpec`. -/
def SPNNumericSpec.construct (formatGain formatOffset : ℚ) (byteSize : UInt8) (units : String) :
    Except ParseEnd SPNNumericSpec :=
  if h : 0 < byteSize.toNat ∧ byteSize.toNat ≤ spnNumericMaxByteSize then
    .ok ⟨formatGain, formatOffset, byteSize, units, h.1, h.2⟩
  else .error (.aborted .assertion)

/-- The constructor of `SPNStatusSpec`. -/
def SPNStatusSpec.construct (bitOffset bitSize : UInt8) (valueToDesc : SortedMap UInt8 String) :
    Except ParseEnd SPNStatusSpec :=
  if h : 0 < bitSize.toNat ∧ bitOffset.toNat + bitSize.toNat ≤ 8 then
    .ok ⟨bitOffset, bitSize, valueToDesc, h.1, h.2⟩
  else .error (.aborted .assertion)

/-- The constructor of `SPNNumeric`. -/
def SPNNumeric.construct (number : UInt32) (name : String) (offset : ℕ)
    (formatGain formatOffset : ℚ) (byteSize : UInt8) (units : String) :
    Except ParseEnd SPNNumeric := do
  let spec ← SPNSpec.construct number name offset
  let numSpec ← SPNNumericSpec.construct formatGain formatOffset byteSize units
  return { spec := spec, numSpec := numSpec }

/-- The constructor of `SPNStatus`. -/
def SPNStatus.construct (number : UInt32) (name : String) (offset : ℕ) (bitOffset bitSize : UInt8)
    (valueToDesc : SortedMap UInt8 String) : Except ParseEnd SPNStatus := do
  let spec ← SPNSpec.construct number name offset
  let statSpec ← SPNStatusSpec.construct bitOffset bitSize valueToDesc
  return { spec := spec, statSpec := statSpec }

/-- The constructor of `SPNString`. -/
def SPNString.construct (number : UInt32) (name : String) : Except ParseEnd SPNString := do
  let spec ← SPNSpec.construct number name 0
  return { spec := spec }

/-- The constructor of `GenericFrame`. -/
def GenericFrame.construct (pgn : UInt32) : Except ParseEnd GenericFrame :=
  if constructorAssertion pgn then .ok { pgn := pgn } else .error (.aborted .assertion)

/-- `GenericFrame::registerSPN` with its assertion. -/
def GenericFrame.register (frame : GenericFrame) (spn : SPN) : Except ParseEnd GenericFrame :=
  if frame.registerAssertion spn then .ok (frame.registerSPN spn) else .error (.aborted .assertion)

/-! ### Reading -/

/-- A call of the JSON library, whose exceptions nothing catches. -/
def call {α : Type} : Except JsonException α → Except ParseEnd α
  | .ok a => .ok a
  | .error e => .error (.aborted (.thrown e))

/-- A check of the parser. -/
def check (passed : Bool) (r : Rejection) : Except ParseEnd Unit :=
  if passed then .ok () else .error (.rejected r)

variable (lib : JsonCpp)

/-- The value has members under all keys, asked for one after the other. -/
def hasMembers (value : Json) : List String → Except ParseEnd Bool
  | [] => .ok true
  | key :: keys => do
    if ← call (lib.isMember value key) then hasMembers value keys else return false

/-- What `parseSPNNumeric` hands to the constructor. -/
structure NumericEntry where
  number : UInt32
  name : String
  offset : UInt32
  formatGain : ℚ
  formatOffset : ℚ
  byteSize : UInt32
  units : String

/-- The checks of `parseSPNNumeric`. -/
def readNumericEntry (spn : Json) : Except ParseEnd NumericEntry := do
  let found ← hasMembers lib spn
    [numFormatGainKey, numFormatOffsetKey, numByteSizeKey, numUnitsKey, offsetKey]
  check found .unexpectedTokens
  let name ← call (lib.member spn nameKey)
  let number ← call (lib.member spn numberKey)
  let offset ← call (lib.member spn offsetKey)
  let formatGain ← call (lib.member spn numFormatGainKey)
  let formatOffset ← call (lib.member spn numFormatOffsetKey)
  let byteSize ← call (lib.member spn numByteSizeKey)
  let units ← call (lib.member spn numUnitsKey)
  check (lib.isDouble formatGain && lib.isDouble formatOffset && lib.isUInt byteSize &&
    units.isString && lib.isUInt offset) .unexpectedTokens
  check (!(lib.asUInt byteSize > 4 || lib.asUInt byteSize = 0)) .outOfRange
  let name ← call (lib.asString name)
  let units ← call (lib.asString units)
  return {
    number := lib.asUInt number
    name := name
    offset := lib.asUInt offset
    formatGain := lib.asDouble formatGain
    formatOffset := lib.asDouble formatOffset
    byteSize := lib.asUInt byteSize
    units := units }

/-- `J1939DataBase::parseSPNNumeric`. -/
def parseSPNNumeric (frame : GenericFrame) (spn : Json) : Except ParseEnd GenericFrame := do
  let e ← readNumericEntry lib spn
  let spnNum ← SPNNumeric.construct e.number e.name e.offset.toNat e.formatGain e.formatOffset
    e.byteSize.toUInt8 e.units
  frame.register (.numeric spnNum)

/-- What `parseSPNStatus` hands to the constructor, but for the descriptions. -/
structure StatusEntry where
  number : UInt32
  name : String
  offset : UInt32
  bitOffset : UInt32
  bitSize : UInt32

/-- The checks of `parseSPNStatus`. -/
def readStatusEntry (spn : Json) : Except ParseEnd StatusEntry := do
  let found ← hasMembers lib spn [statBitOffsetKey, statBitSizeKey, offsetKey]
  check found .unexpectedTokens
  let name ← call (lib.member spn nameKey)
  let number ← call (lib.member spn numberKey)
  let offset ← call (lib.member spn offsetKey)
  let bitOffset ← call (lib.member spn statBitOffsetKey)
  let bitSize ← call (lib.member spn statBitSizeKey)
  check (lib.isUInt bitOffset && lib.isUInt bitSize && lib.isUInt offset) .unexpectedTokens
  check (!(lib.asUInt bitSize = 0 || lib.asUInt bitSize + lib.asUInt bitOffset > 8)) .outOfRange
  let name ← call (lib.asString name)
  return {
    number := lib.asUInt number
    name := name
    offset := lib.asUInt offset
    bitOffset := lib.asUInt bitOffset
    bitSize := lib.asUInt bitSize }

/-- The body of the loop of `parseSPNStatus` over the descriptions. -/
def readDescription (descriptions : Json) (valueToDesc : SortedMap UInt8 String) (i : ℕ) :
    Except ParseEnd (SortedMap UInt8 String) := do
  let element ← call (lib.element descriptions i)
  if element.isNull then return valueToDesc
  let description ← call (lib.asString element)
  return valueToDesc.insert (UInt8.ofNat i) description

/-- The descriptions that `parseSPNStatus` looks for. -/
def readDescriptions (spn : Json) : Except ParseEnd (SortedMap UInt8 String) := do
  if ← call (lib.isMember spn statDescriptionsKey) then
    let descriptions ← call (lib.member spn statDescriptionsKey)
    (List.range descriptions.size).foldlM (readDescription lib descriptions) ∅
  else return ∅

/-- `J1939DataBase::parseSPNStatus`. -/
def parseSPNStatus (frame : GenericFrame) (spn : Json) : Except ParseEnd GenericFrame := do
  let e ← readStatusEntry lib spn
  let valueToDesc ← readDescriptions lib spn
  let spnStat ← SPNStatus.construct e.number e.name e.offset.toNat e.bitOffset.toUInt8
    e.bitSize.toUInt8 valueToDesc
  frame.register (.status spnStat)

/-- What `parseSPNString` hands to the constructor. -/
structure StringEntry where
  number : UInt32
  name : String

/-- The reads of `parseSPNString`. -/
def readStringEntry (spn : Json) : Except ParseEnd StringEntry := do
  let name ← call (lib.member spn nameKey)
  let number ← call (lib.member spn numberKey)
  let name ← call (lib.asString name)
  return { number := lib.asUInt number, name := name }

/-- `J1939DataBase::parseSPNString`. -/
def parseSPNString (frame : GenericFrame) (spn : Json) : Except ParseEnd GenericFrame := do
  let e ← readStringEntry lib spn
  let spnStr ← SPNString.construct e.number e.name
  frame.register (.string spnStr)

/-- The checks of `parseJsonFile` on an SPN, which find its type. -/
def readType (spn : Json) : Except ParseEnd UInt32 := do
  let found ← hasMembers lib spn [nameKey, numberKey, typeKey]
  check found .unexpectedTokens
  let name ← call (lib.member spn nameKey)
  let number ← call (lib.member spn numberKey)
  let type ← call (lib.member spn typeKey)
  let _offset ← call (lib.member spn offsetKey)
  check (name.isString && lib.isUInt number && lib.isUInt type) .unexpectedTokens
  return lib.asUInt type

/-- The body of the loop of `parseJsonFile` over the SPNs of a frame. -/
def parseSPN (frame : GenericFrame) (spn : Json) : Except ParseEnd GenericFrame := do
  let type ← readType lib spn
  if type = spnNumericType then parseSPNNumeric lib frame spn
  else if type = spnStatusType then parseSPNStatus lib frame spn
  else if type = spnStringType then parseSPNString lib frame spn
  else .error (.rejected .unknownSpnType)

/-- The loop of `parseJsonFile` over the SPNs of a frame. -/
def parseSPNs : GenericFrame → List Json → Except ParseEnd GenericFrame
  | frame, [] => .ok frame
  | frame, spn :: spns => do
    let frame ← parseSPN lib frame spn
    parseSPNs frame spns

/-- The checks of `parseJsonFile` on the PGN of a frame. -/
def readPgn (jsonFrame : Json) : Except ParseEnd UInt32 := do
  let found ← hasMembers lib jsonFrame [pgnKey]
  check found .unexpectedTokens
  let pgn ← call (lib.member jsonFrame pgnKey)
  check (lib.isUInt pgn) .unexpectedTokens
  check (lib.asUInt pgn ≠ dm1Pgn) .forbiddenToken
  return lib.asUInt pgn

/-- The optional name of a frame. -/
def readName (jsonFrame : Json) : Except ParseEnd (Option String) := do
  if ← call (lib.isMember jsonFrame nameKey) then
    let name ← call (lib.member jsonFrame nameKey)
    if name.isString then
      let name ← call (lib.asString name)
      return some name
    else return none
  else return none

/-- The optional length of a frame. -/
def readLength (jsonFrame : Json) : Except ParseEnd (Option UInt32) := do
  if ← call (lib.isMember jsonFrame lengthKey) then
    let length ← call (lib.member jsonFrame lengthKey)
    if lib.isUInt length then return some (lib.asUInt length) else return none
  else return none

/-- The SPNs of a frame, none without the key. -/
def readSpns (jsonFrame : Json) : Except ParseEnd (List Json) := do
  if ← call (lib.isMember jsonFrame spnsKey) then
    let spns ← call (lib.member jsonFrame spnsKey)
    match spns with
    | .array elements => return elements
    | _ => .error (.rejected .unexpectedTokens)
  else return []

/-- The body of the loop of `parseJsonFile` over the frames, up to the loop over the SPNs. -/
def startFrame (jsonFrame : Json) : Except ParseEnd (GenericFrame × List Json) := do
  let pgn ← readPgn lib jsonFrame
  let frame ← GenericFrame.construct pgn
  let name ← readName lib jsonFrame
  let length ← readLength lib jsonFrame
  let spns ← readSpns lib jsonFrame
  return ({ frame with
    name := name.getD frame.name
    length := (length.map UInt32.toNat).getD frame.length }, spns)

/-- The body of the loop of `parseJsonFile` over the frames. -/
def parseFrame (jsonFrame : Json) : Except ParseEnd GenericFrame := do
  let (frame, spns) ← startFrame lib jsonFrame
  parseSPNs lib frame spns

/-- The loop of `parseJsonFile` over the frames: the frames accepted, and how it ends. -/
def parseFrames : List GenericFrame → List Json → List GenericFrame × Except ParseEnd Unit
  | frames, [] => (frames, .ok ())
  | frames, jsonFrame :: rest =>
    match parseFrame lib jsonFrame with
    | .error e => (frames, .error e)
    | .ok frame => parseFrames (frames ++ [frame]) rest

/-- `J1939DataBase::parseJsonFile`. -/
def parseJsonFile (db : J1939DataBase) : JsonFile → Except Abort (J1939DataBase × Bool)
  | .notFound => .ok ({ db with errorCode := .fileNotFound }, false)
  | .syntaxError => .ok ({ db with errorCode := .jsonSyntax }, false)
  | .value (.array data) =>
    match parseFrames lib db.frames data with
    | (frames, .ok ()) => .ok (⟨frames, .ok⟩, true)
    | (frames, .error (.rejected r)) => .ok (⟨frames, r.errorCode⟩, false)
    | (_, .error (.aborted a)) => .error a
  | .value _ => .ok ({ db with errorCode := .unexpectedTokens }, false)

/-! ### Writing -/

/-- `J1939DataBase::writeSPNNumeric`. -/
def writeSPNNumeric (spn : SPNNumeric) (jsonSpn : Json) : Json :=
  let jsonSpn := lib.setMember jsonSpn numByteSizeKey (.int spn.getByteSize.toNat)
  let jsonSpn := lib.setMember jsonSpn numFormatGainKey (.real spn.numSpec.formatGain)
  let jsonSpn := lib.setMember jsonSpn numFormatOffsetKey (.real spn.numSpec.formatOffset)
  lib.setMember jsonSpn numUnitsKey (.string spn.numSpec.units)

/-- The array of the descriptions: the values without one are null. -/
def writeDescriptions (valueToDesc : SortedMap UInt8 String) : Json :=
  valueToDesc.entries.foldl (fun description e =>
    lib.setElement description e.1.toNat (.string e.2)) .null

/-- `J1939DataBase::writeSPNStatus`. -/
def writeSPNStatus (spn : SPNStatus) (jsonSpn : Json) : Json :=
  let jsonSpn := lib.setMember jsonSpn statBitOffsetKey (.int spn.getBitOffset.toNat)
  let jsonSpn := lib.setMember jsonSpn statBitSizeKey (.int spn.getBitSize.toNat)
  if spn.statSpec.valueToDesc.entries = [] then jsonSpn
  else lib.setMember jsonSpn statDescriptionsKey (writeDescriptions lib spn.statSpec.valueToDesc)

/-- The body of the loop of `writeJsonFile` over the SPNs of a frame. -/
def writeSPN (spn : SPN) : Json :=
  let jsonSpn := lib.setMember .null typeKey (.int spn.getType.toNat)
  let jsonSpn := lib.setMember jsonSpn numberKey (.int spn.getSpnNumber.toNat)
  let jsonSpn := lib.setMember jsonSpn nameKey (.string spn.spec.name)
  let jsonSpn := lib.setMember jsonSpn offsetKey (.int spn.getOffset)
  match spn with
  | .numeric spnNum => writeSPNNumeric lib spnNum jsonSpn
  | .status spnStat => writeSPNStatus lib spnStat jsonSpn
  | .string _ => jsonSpn

/-- An array filled from the first index on. -/
def writeAll (values : List Json) : Json :=
  values.zipIdx.foldl (fun data e => lib.setElement data e.2 e.1) .null

/-- The body of the loop of `writeJsonFile` over the frames. -/
def writeFrame (frame : GenericFrame) : Json :=
  let jsonFrame := lib.setMember .null pgnKey (.int frame.pgn.toNat)
  let jsonFrame := lib.setMember jsonFrame nameKey (.string frame.name)
  let jsonFrame := lib.setMember jsonFrame lengthKey (.int frame.getDataLength)
  if frame.spns.values = [] then jsonFrame
  else lib.setMember jsonFrame spnsKey (writeAll lib (frame.spns.values.map (writeSPN lib)))

/-- What `J1939DataBase::writeJsonFile` prints into the file. -/
def writeJsonFile (db : J1939DataBase) : Json := writeAll lib (db.frames.map (writeFrame lib))

end J1939
