import J1939.J1939Frame
import J1939.Lib.SortedMap
import Mathlib.Data.Rat.Defs

/-!
# Suspect parameters

The fields of a frame described by the database. A numeric SPN owns whole bytes,
a status SPN some bits of one byte, and a string SPN a run of bytes that ends with
`'*'`. The assertions of the specification classes are fields, so a specification
that would abort the program cannot be written down.
-/

namespace J1939

/-- `SPNSpec`, with the assertion of its constructor. -/
structure SPNSpec where
  spnNumber : UInt32
  name : String
  offset : ℕ
  spnNumber_lt : spnNumber < 0x80000
  deriving DecidableEq

/-- `SPNNumericSpec`, with the assertions of its constructor. -/
structure SPNNumericSpec where
  formatGain : ℚ
  formatOffset : ℚ
  byteSize : UInt8
  units : String
  byteSize_pos : 0 < byteSize.toNat
  byteSize_le : byteSize.toNat ≤ spnNumericMaxByteSize
  deriving DecidableEq

/-- `SPNStatusSpec`, with the assertions of its constructor. -/
structure SPNStatusSpec where
  bitOffset : UInt8
  bitSize : UInt8
  valueToDesc : SortedMap UInt8 String
  bitSize_pos : 0 < bitSize.toNat
  bits_le : bitOffset.toNat + bitSize.toNat ≤ 8
  deriving DecidableEq

structure SPNNumeric where
  spec : SPNSpec
  numSpec : SPNNumericSpec
  value : UInt32 := 0xFFFFFFFF
  deriving DecidableEq

structure SPNStatus where
  spec : SPNSpec
  statSpec : SPNStatusSpec
  /-- All ones after construction. -/
  value : UInt8 := 0xFF >>> (8 - statSpec.bitSize)
  deriving DecidableEq

/-- `SPNString`. A `std::string` is its bytes. -/
structure SPNString where
  spec : SPNSpec
  offset : ℕ := 0
  value : List UInt8 := []
  deriving DecidableEq

/-- A pointer to an `SPN`. -/
inductive SPN
  | numeric (spn : SPNNumeric)
  | status (spn : SPNStatus)
  | string (spn : SPNString)
  deriving DecidableEq

namespace SPNNumeric

def getByteSize (spn : SPNNumeric) : UInt8 := spn.numSpec.byteSize

/-- The loop of `decode` over the bytes of the value. -/
def decodeByte (i : ℕ) : Method SPNNumeric J1939Exception Unit := do
  let b ← Method.byte i
  Method.modify fun spn =>
    { spn with value := spn.value ||| (b.toUInt32 <<< UInt32.ofNat (i * 8)) }

/-- `SPNNumeric::decode`. -/
def decode (length : ℕ) : Method SPNNumeric J1939Exception Unit := do
  let self ← Method.get
  Method.throwIf (self.getByteSize.toNat > length ∨
    self.getByteSize.toNat > spnNumericMaxByteSize) .numericDecodeLength
  Method.modify fun spn => { spn with value := 0 }
  Method.forEach (List.range self.getByteSize.toNat) decodeByte

/-- The bytes that `encode` writes. -/
def valueBytes (spn : SPNNumeric) : List UInt8 :=
  (List.range spn.getByteSize.toNat).map fun i =>
    ((spn.value >>> UInt32.ofNat (i * 8)) &&& 0xFF).toUInt8

/-- `SPNNumeric::encode` on the buffer from index `offset` on. -/
def encode (spn : SPNNumeric) (buffer : List UInt8) (offset length : ℕ) :
    Except J1939Exception (List UInt8) :=
  if spn.getByteSize.toNat > length ∨ spn.getByteSize.toNat > spnNumericMaxByteSize then
    .error .numericEncodeLength
  else .ok (writeBytes buffer offset spn.valueBytes)

end SPNNumeric

namespace SPNStatus

def getBitOffset (spn : SPNStatus) : UInt8 := spn.statSpec.bitOffset
def getBitSize (spn : SPNStatus) : UInt8 := spn.statSpec.bitSize

/-- The format test of `decode` and `encode`. -/
def formatIncorrect (spn : SPNStatus) : Prop :=
  spn.getBitOffset.toNat > 7 ∨ spn.getBitSize.toNat > 8 ∨
    spn.getBitOffset.toNat + spn.getBitSize.toNat > 8

instance (spn : SPNStatus) : Decidable spn.formatIncorrect :=
  inferInstanceAs (Decidable (_ ∨ _ ∨ _))

/-- `SPNStatus::decode`, which ignores the length. -/
def decode (_length : ℕ) : Method SPNStatus J1939Exception Unit := do
  let self ← Method.get
  Method.throwIf self.formatIncorrect .statusDecodeFormat
  let b ← Method.byte 0
  let mask := (0xFF : UInt8) >>> (8 - self.getBitSize)
  Method.modify fun spn => { spn with value := (b >>> self.getBitOffset) &&& mask }

/-- The byte that `encode` leaves in place of `b`. -/
def merge (spn : SPNStatus) (b : UInt8) : UInt8 :=
  let mask := ((0xFF : UInt8) >>> (8 - spn.getBitSize)) <<< spn.getBitOffset
  (b &&& ~~~mask) ||| (spn.value <<< spn.getBitOffset)

/-- `SPNStatus::encode` on the buffer from index `offset` on. -/
def encode (spn : SPNStatus) (buffer : List UInt8) (offset : ℕ) :
    Except J1939Exception (List UInt8) :=
  let mask := ((0xFF : UInt8) >>> (8 - spn.getBitSize)) <<< spn.getBitOffset
  let value := spn.value <<< spn.getBitOffset
  if spn.formatIncorrect then .error .statusEncodeFormat
  else if value &&& mask ≠ value then .error .statusEncodeValue
  else .ok (buffer.modify offset spn.merge)

/-- `SPNStatus::setValue`. -/
def setValue (spn : SPNStatus) (value : UInt8) : SPNStatus :=
  if value.toNat < 1 <<< spn.getBitSize.toNat then { spn with value := value } else spn

end SPNStatus

namespace SPNString

/-- `SPNString::getByteSize`: the length with the terminator, as a `u8`. -/
def getByteSize (spn : SPNString) : UInt8 := UInt8.ofNat (spn.value.length + 1)

/-- A character that `setValue` and `decode` take for ASCII. -/
def isAscii (c : UInt8) : Bool := c &&& 0x80 = 0

/-- `memchr` over the `n` bytes from index `i` on. -/
def memchr (c : UInt8) (i : ℕ) : ℕ → Method SPNString J1939Exception (Option ℕ)
  | 0 => pure none
  | n + 1 => do
    let b ← Method.byte i
    if b = c then pure (some i) else memchr c (i + 1) n

/-- `SPNString::decode`, without the call-back of the owner. -/
def decode (length : ℕ) : Method SPNString J1939Exception Unit := do
  let terminator ← memchr strTerminator 0 length
  Method.modify fun spn => { spn with value := [] }
  match terminator with
  | none => Method.throw .stringTerminator
  | some strLength =>
    Method.forEach (List.range strLength) fun i => do
      let c ← Method.byte i
      Method.throwIf (isAscii c = false) .stringNotAscii
    let value ← Method.bytes 0 strLength
    Method.modify fun spn => { spn with value := value.toList }

/-- What `strcpy` copies: the characters before the first NUL, and a NUL. -/
def cString (value : List UInt8) : List UInt8 := value.takeWhile (· ≠ 0) ++ [0]

/-- `SPNString::encode` on the buffer from index `offset` on. -/
def encode (spn : SPNString) (buffer : List UInt8) (offset length : ℕ) :
    Except J1939Exception (List UInt8) :=
  if spn.value.length ≥ length then .error .stringEncodeLength
  else
    .ok ((writeBytes buffer offset (cString spn.value)).set (offset + spn.value.length)
      strTerminator)

/-- The assignment of `SPNString::setValue`, before the call-back of the owner:
anything but ASCII is ignored. -/
def setValue (spn : SPNString) (value : List UInt8) : SPNString :=
  if value.all isAscii then { spn with value := value } else spn

end SPNString

namespace SPN

def spec : SPN → SPNSpec
  | numeric spn => spn.spec
  | status spn => spn.spec
  | string spn => spn.spec

def getSpnNumber (spn : SPN) : UInt32 := spn.spec.spnNumber

/-- `getOffset`: a string SPN has its own, variable offset. -/
def getOffset : SPN → ℕ
  | numeric spn => spn.spec.offset
  | status spn => spn.spec.offset
  | string spn => spn.offset

/-- `setOffset` does nothing but on a string SPN. -/
def setOffset (offset : ℕ) : SPN → SPN
  | string spn => string { spn with offset := offset }
  | spn => spn

def getByteSize : SPN → UInt8
  | numeric spn => spn.getByteSize
  | status _ => 1
  | string spn => spn.getByteSize

/-- `getType() == SPN_STRING`. -/
def isString : SPN → Bool
  | string _ => true
  | _ => false

theorem exists_string {spn : SPN} (h : spn.isString = true) : ∃ s, spn = string s := by
  cases spn with
  | string s => exact ⟨s, rfl⟩
  | _ => cases h

/-- The virtual call of `SPN::decode`. -/
def decode (length : ℕ) : Method SPN J1939Exception Unit := fun spn =>
  match spn with
  | numeric n => Method.onPart (fun _ => n) (fun _ => numeric) (SPNNumeric.decode length) spn
  | status s => Method.onPart (fun _ => s) (fun _ => status) (SPNStatus.decode length) spn
  | string s => Method.onPart (fun _ => s) (fun _ => string) (SPNString.decode length) spn

/-- The virtual call of `SPN::encode`. -/
def encode (spn : SPN) (buffer : List UInt8) (offset length : ℕ) :
    Except J1939Exception (List UInt8) :=
  match spn with
  | numeric n => n.encode buffer offset length
  | status s => s.encode buffer offset
  | string s => s.encode buffer offset length

end SPN

end J1939
