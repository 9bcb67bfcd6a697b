import J1939.Can
import J1939.Lib.IStream
import J1939.Lib.Loop

/-!
# Recordings

`TRCWriter` prints CAN frames with their times line by line, and `TRCReader` reads the lines
again, character by character. Times are computed and printed as floating point numbers, which
is a parameter.
-/

namespace J1939

/-- `Utils::TimeStamp`. -/
structure TimeStamp where
  seconds : UInt32
  microSec : UInt32
  deriving DecidableEq, Repr

/-- The floating point numbers in a recording: the milliseconds of a time stamp as
`std::fixed` and `std::setprecision(1)` print them, and the characters of a number as they are
converted, multiplied by 1000 and truncated. -/
structure TimeFormat where
  print : TimeStamp → List Char
  read : List Char → Option UInt64

/-- Digits, a decimal point and one more digit. -/
structure FixedPoint (cs whole : List Char) (d : Char) : Prop where
  eq : cs = whole ++ ['.', d]
  ne_nil : whole ≠ []
  length : whole.length ≤ 10
  whole : ∀ c ∈ whole, NumberBase.dec.isDigit c = true
  fraction : NumberBase.dec.isDigit d = true

/-- The documented behaviour. The milliseconds are the sum of a `u32` and a thousandth of
another one, which has at most ten digits before the decimal point. -/
structure TimeFormat.Documented (fmt : TimeFormat) : Prop where
  print_fixed : ∀ t, ∃ whole d, FixedPoint (fmt.print t) whole d
  read_fixed : ∀ cs whole d, FixedPoint cs whole d → ∃ x, fmt.read cs = some x

/-! ### The writer -/

/-- `TRC_FILE_HEADER`. -/
def trcFileHeader : List Char := ";$FILEVERSION=1.1\n;\n".toList

/-- `TRCWriter`: the open file with what has been written to it. -/
structure TRCWriter where
  fileStream : Option (List Char) := none
  counter : UInt32 := 0

/-- `TRCWriter::TRCWriteException`. -/
inductive TRCWriteException
  | trcWriteException
  deriving DecidableEq, Repr

/-- A byte of the data, as it is printed with a space behind it. -/
def printOctet (octet : UInt8) : List Char := setw 2 '0' (NumberBase.hex.print octet.toNat) ++ [' ']

/-- The line of a frame. -/
def printLine (fmt : TimeFormat) (counter : UInt32) (frame : CanFrame) (timeStamp : TimeStamp) :
    List Char :=
  setw 8 ' ' (NumberBase.dec.print counter.toNat ++ [')']) ++
    setw 12 ' ' (fmt.print timeStamp) ++
    setw 4 ' ' ['R', 'x'] ++
    setw 13 ' ' (setw 8 '0' (NumberBase.hex.print frame.id.toNat)) ++
    setw 3 ' ' (NumberBase.dec.print frame.data.length) ++
    [' ', ' '] ++ frame.data.flatMap printOctet ++ ['\n']

namespace TRCWriter

/-- `TRCWriter::write`. -/
def write (fmt : TimeFormat) (w : TRCWriter) (frame : CanFrame) (timeStamp : TimeStamp) :
    Except TRCWriteException TRCWriter :=
  match w.fileStream with
  | none => .error .trcWriteException
  | some written =>
    .ok {
      fileStream := some (written ++ printLine fmt (w.counter + 1) frame timeStamp)
      counter := w.counter + 1 }

/-- `TRCWriter::close`. -/
def close (_w : TRCWriter) : TRCWriter := { fileStream := none, counter := 0 }

/-- `TRCWriter::open` on a file that can be opened. -/
def openFile (w : TRCWriter) : TRCWriter := { w.close with fileStream := some trcFileHeader }

/-- `write` for one frame after the other. -/
def writeAll (fmt : TimeFormat) :
    TRCWriter → List (CanFrame × TimeStamp) → Except TRCWriteException TRCWriter
  | w, [] => .ok w
  | w, (frame, timeStamp) :: frames => do
    let w ← w.write fmt frame timeStamp
    writeAll fmt w frames

end TRCWriter

/-- The file that `open`, a call of `write` for every frame and `close` leave. -/
def recording (fmt : TimeFormat) (w : TRCWriter) (frames : List (CanFrame × TimeStamp)) :
    Except TRCWriteException (Option (List Char)) := do
  let w ← TRCWriter.writeAll fmt w.openFile frames
  return w.fileStream

/-! ### The reader -/

/-- `TRCReader`. -/
structure TRCReader where
  currentPos : ℕ := 0
  totalFrames : ℕ := 0
  fileStream : IStream := { content := [] }
  lastReadFrameTimePair : UInt64 × CanFrame := (0, ⟨0, []⟩)

def parseStateGetPosition : UInt8 := 0
def parseStateGetTime : UInt8 := 1
def parseStateGetType : UInt8 := 2
def parseStateGetId : UInt8 := 3
def parseStateGetLength : UInt8 := 4
def parseStateGetData : UInt8 := 5
def parseStateGetEnd : UInt8 := 6
def parseStateGetError : UInt8 := 7

/-- The local variables of `readNextLine`. Those without an initializer are taken for zero. -/
structure LineState where
  stream : IStream
  state : UInt8 := parseStateGetPosition
  position : UInt32 := 0
  time : UInt64 := 0
  id : UInt32 := 0
  length : UInt32 := 0
  dataAux : UInt32 := 0
  data : List UInt8 := []

/-- How the loop of `readNextLine` ends. -/
inductive LineEnd
  | undefined
  | left (l : LineState)

/-- `int pos = tellg(); pos -= 1; seekg(pos)`. The smallest `int` has no predecessor. -/
def seekBack (s : IStream) : Option IStream :=
  let told := s.tellg
  let pos := told.1.bmod (2 ^ 32)
  if pos = -2 ^ 31 then none else some (told.2.seekg (pos - 1))

/-- The `switch` of `readNextLine`. Its `c` is the first character of the field. -/
def readField (fmt : TimeFormat) (c : Char) (l : LineState) : LineState :=
  if l.state = parseStateGetPosition then
    let position := (l.stream.setBase .dec).extractUInt
    let parenthesis := position.2.get
    { l with
      stream := parenthesis.2
      position := position.1.getD l.position
      state := if parenthesis.1.getD c ≠ ')' then parseStateGetError else l.state }
  else if l.state = parseStateGetTime then
    let time := (l.stream.setBase .dec).extractDouble fmt.read
    { l with stream := time.2, time := time.1.getD l.time }
  else if l.state = parseStateGetType then
    { l with stream := l.stream.get.2.get.2 }
  else if l.state = parseStateGetId then
    let id := (l.stream.setBase .hex).extractUInt
    { l with stream := id.2, id := id.1.getD l.id }
  else if l.state = parseStateGetLength then
    let length := l.stream.extractUInt
    { l with stream := length.2, length := length.1.getD l.length }
  else if l.state = parseStateGetData then
    let dataAux := (l.stream.setBase .hex).extractUInt
    let value := dataAux.1.getD l.dataAux
    let l := { l with stream := dataAux.2, dataAux := value }
    if value ≤ 0xFF then
      let data := l.data ++ [value.toUInt8]
      { l with
        data := data
        state := if data.length < l.length.toNat then l.state - 1 else l.state }
    else { l with state := parseStateGetError }
  else l

/-- What follows the `switch`: a failure skips the rest of the line. -/
def afterField (l : LineState) : LineState ⊕ LineEnd :=
  let l :=
    if l.stream.failbit && !l.stream.eofbit then
      { l with
        stream := (l.stream.clear.ignoreUntil '\n').get.2
        state := parseStateGetError }
    else l
  if l.state = parseStateGetError then .inr (.left l) else .inl { l with state := l.state + 1 }

/-- A field of the line: its first character has been read already. -/
def parseField (fmt : TimeFormat) (c : Char) (l : LineState) : LineState ⊕ LineEnd :=
  match seekBack l.stream with
  | none => .inr .undefined
  | some s => afterField (readField fmt c { l with stream := s })

/-- The body of the loop of `readNextLine`. -/
def lineBody (fmt : TimeFormat) (l : LineState) : LineState ⊕ LineEnd :=
  match l.stream.get with
  | (none, s) => .inr (.left { l with stream := s })
  | (some c, s) =>
    if c = ' ' ∨ c = '\t' then .inl { l with stream := s }
    else if c = ';' then .inl { l with stream := s.ignoreUntil '\n' }
    else if c = '\n' then .inr (.left { l with stream := s })
    else if c = '\r' then
      match s.get with
      | (some '\n', s) => .inr (.left { l with stream := s })
      | (c', s) => parseField fmt (c'.getD c) { l with stream := s, state := parseStateGetError }
    else parseField fmt c { l with stream := s }

/-- `CanFrame::setData`: data that are too long are not taken. -/
def setData (data : List UInt8) : List UInt8 := if data.length > maxCanDataSize then [] else data

/-- What `readNextLine` hands out by reference. -/
structure LineFlags where
  error : Bool
  empty : Bool
  deriving DecidableEq, Repr

namespace TRCReader

/-- What follows the loop of `readNextLine`. -/
def endLine (r : TRCReader) (l : LineState) : TRCReader × LineFlags :=
  let r := { r with fileStream := l.stream }
  if l.state ≠ parseStateGetEnd ∧ l.state ≠ parseStateGetPosition then (r, ⟨true, false⟩)
  else if l.state = parseStateGetPosition then (r, ⟨false, true⟩)
  else if l.data.length ≠ l.length.toNat then (r, ⟨true, false⟩)
  else
    ({ r with
      currentPos := (l.position - 1).toNat
      lastReadFrameTimePair := (l.time, ⟨l.id, setData l.data⟩) }, ⟨false, false⟩)

end TRCReader

/-- Why a call has no result. -/
inductive NoResult
  | undefined
  | outOfFuel
  deriving DecidableEq, Repr

namespace TRCReader

/-- `TRCReader::readNextLine`. -/
def readNextLine (fmt : TimeFormat) (fuel : ℕ) (r : TRCReader) :
    Except NoResult (TRCReader × LineFlags) :=
  let r := { r with lastReadFrameTimePair := (0, ⟨0, []⟩) }
  match Loop.run (lineBody fmt) fuel { stream := r.fileStream } with
  | none => .error .outOfFuel
  | some .undefined => .error .undefined
  | some (.left l) => .ok (r.endLine l)

/-- `TRCReader::checkIntegrity`. -/
def checkIntegrity (fmt : TimeFormat) : ℕ → TRCReader → Except NoResult (TRCReader × Bool)
  | 0, _ => .error .outOfFuel
  | fuel + 1, r =>
    if r.fileStream.eofbit then .ok ({ r with totalFrames := r.currentPos + 1 }, true)
    else
      match readNextLine fmt fuel r with
      | .error e => .error e
      | .ok (r, flags) => if flags.error then .ok (r, false) else checkIntegrity fmt fuel r

/-- `TRCReader::unloadFile`, without the name of the file. A closed stream has no characters. -/
def unloadFile (r : TRCReader) : TRCReader :=
  { r with
    fileStream := { r.fileStream with content := [], pos := 0 }
    currentPos := 0
    totalFrames := 0 }

/-- `TRCReader::reset`. -/
def reset (r : TRCReader) : TRCReader :=
  { r with fileStream := r.fileStream.clear.seekg 0, currentPos := 0 }

/-- `TRCReader::loadFile` on the content of a file, if it can be opened. The base of the numbers
is not changed by `open`. -/
def loadFile (fmt : TimeFormat) (fuel : ℕ) (r : TRCReader) (file : Option (List Char)) :
    Except NoResult (TRCReader × Bool) :=
  let r := r.unloadFile
  match file with
  | none => .ok ({ r with fileStream := { r.fileStream with failbit := true } }, false)
  | some content =>
    match checkIntegrity fmt fuel
        { r with fileStream := { content := content, base := r.fileStream.base } } with
    | .error e => .error e
    | .ok (r, true) => .ok (r.reset, true)
    | .ok (r, false) => .ok (r.unloadFile, false)

/-- `TRCReader::getNumberOfFrames`. -/
def getNumberOfFrames (r : TRCReader) : ℕ := r.totalFrames

/-- `TRCReader::readNextCanFrame`. -/
def readNextCanFrame (fmt : TimeFormat) (fuel : ℕ) (r : TRCReader) : Except NoResult TRCReader :=
  if r.fileStream.eofbit then .ok r
  else
    match readNextLine fmt fuel r with
    | .error e => .error e
    | .ok (r, _) => .ok r

/-- `TRCReader::getLastCanFrame`. -/
def getLastCanFrame (r : TRCReader) : UInt64 × CanFrame := r.lastReadFrameTimePair

end TRCReader

end J1939
