import J1939.J1939Frame
import J1939.Lib.SortedMap

/-!
# The other predefined frames of fixed size

`RequestFrame` asks for a PGN, `AddressClaimFrame` carries the NAME of a node and
`FMS1Frame` one block of tell tales.
-/

namespace J1939

@[simp] def requestPgn : UInt32 := 0xEA00
@[simp] def requestFrameLength : ℕ := 3

structure RequestFrame extends Header where
  requestPGN : UInt32 := 0
  deriving DecidableEq, Repr

namespace RequestFrame

/-- The constructor without arguments. -/
def new : RequestFrame := { name := "Request" }

/-- `RequestFrame::decodeData`. -/
def decodeData (length : ℕ) : Method RequestFrame J1939Exception Unit := do
  Method.throwIf (length ≠ requestFrameLength) (.requestLength length)
  let b0 ← Method.byte 0
  Method.modify fun f => { f with requestPGN := b0.toUInt32 }
  let b1 ← Method.byte 1
  Method.modify fun f => { f with requestPGN := f.requestPGN ||| (b1.toUInt32 <<< 8) }
  let b2 ← Method.byte 2
  Method.modify fun f => { f with requestPGN := f.requestPGN ||| (b2.toUInt32 <<< 16) }
  Method.modify fun f => { f with requestPGN := f.requestPGN &&& pgnMask }

/-- `RequestFrame::encodeData`. -/
def encodeData (f : RequestFrame) (buffer : List UInt8) : Except J1939Exception (List UInt8) :=
  .ok (writeBytes buffer 0 [(f.requestPGN &&& 0xFF).toUInt8,
    ((f.requestPGN >>> 8) &&& 0xFF).toUInt8,
    ((f.requestPGN >>> 16) &&& (pgnMask >>> 16)).toUInt8])

instance : IsJ1939Frame RequestFrame where
  header := toHeader
  withHeader f h := { f with toHeader := h }
  getPGN _ := requestPgn
  decodeData := decodeData
  encodeData := encodeData
  getDataLength _ := requestFrameLength
  header_withHeader _ _ := rfl
  withHeader_header _ := rfl
  withHeader_withHeader _ _ _ := rfl
  getPGN_withHeader _ _ := rfl
  decodeData_header f length mem := by
    simp only [decodeData, Method.run_throwIf_bind]
    split_ifs <;> rfl
  decodeData_getPGN _ _ _ := rfl
  encodeData_length f buffer out h := by
    cases h
    simp

end RequestFrame

@[simp] def addressClaimPgn : UInt32 := 0x00EE00
@[simp] def addressFrameLength : ℕ := 8

@[simp] def industryGroupMask : UInt8 := 0x7
@[simp] def vehicleSystemInterfaceMask : UInt8 := 0xF
@[simp] def vehicleSystemMask : UInt8 := 0x7F
@[simp] def functionMask : UInt8 := 0xFF
@[simp] def functionInstanceMask : UInt8 := 0x1F
@[simp] def ecuInstanceMask : UInt8 := 0x7
@[simp] def manufacturerCodeMask : UInt16 := 0x7FF
@[simp] def identityNumberMask : UInt32 := 0x1FFFFF

/-- `EcuName`: the fields of a NAME. -/
structure EcuName where
  idNumber : UInt32 := 0
  manufacturerCode : UInt16 := 0
  ecuInstance : UInt8 := 0
  functionInstance : UInt8 := 0
  function : UInt8 := 0
  vehicleSystem : UInt8 := 0
  vehicleSystemInstance : UInt8 := 0
  industryGroup : UInt8 := 0
  arbitraryAddressCapable : Bool := false
  deriving DecidableEq, Repr

namespace EcuName

/-- `EcuName::getValue`. -/
def getValue (n : EcuName) : UInt64 :=
  ((if n.arbitraryAddressCapable then (1 : UInt64) else 0) <<< 63) |||
    ((n.industryGroup &&& industryGroupMask).toUInt64 <<< 60) |||
    ((n.vehicleSystemInstance &&& vehicleSystemInterfaceMask).toUInt64 <<< 56) |||
    ((n.vehicleSystem &&& vehicleSystemMask).toUInt64 <<< 49) |||
    ((n.function &&& functionMask).toUInt64 <<< 40) |||
    ((n.functionInstance &&& functionInstanceMask).toUInt64 <<< 35) |||
    ((n.ecuInstance &&& ecuInstanceMask).toUInt64 <<< 32) |||
    ((n.manufacturerCode &&& manufacturerCodeMask).toUInt64 <<< 21) |||
    ((n.idNumber &&& identityNumberMask).toUInt64 <<< 0)

end EcuName

structure AddressClaimFrame extends Header where
  ecuName : EcuName := {}
  deriving DecidableEq, Repr

namespace AddressClaimFrame

/-- The constructor from a NAME. -/
def ofEcuName (name : EcuName) : AddressClaimFrame := { name := "Address Claim", ecuName := name }

/-- The constructor without arguments. -/
def new : AddressClaimFrame := ofEcuName {}

/-- `AddressClaimFrame::decodeData`. -/
def decodeData (length : ℕ) : Method AddressClaimFrame J1939Exception Unit := do
  Method.throwIf (length ≠ addressFrameLength) (.addressClaimLength length)
  let b0 ← Method.byte 0
  let b1 ← Method.byte 1
  let b2 ← Method.byte 2
  let b3 ← Method.byte 3
  let b4 ← Method.byte 4
  let b5 ← Method.byte 5
  let b6 ← Method.byte 6
  let b7 ← Method.byte 7
  Method.modify fun f => { f with ecuName := {
    idNumber := (b0.toUInt32 ||| (b1.toUInt32 <<< 8)) ||| ((b2.toUInt32 &&& 0x1F) <<< 16)
    manufacturerCode := ((b2 &&& 0xE0) >>> 5).toUInt16 ||| (b3.toUInt16 <<< 3)
    ecuInstance := b4 &&& 0x07
    functionInstance := (b4 &&& 0xF8) >>> 3
    function := b5
    vehicleSystem := b6 >>> 1
    vehicleSystemInstance := b7 &&& 0x0F
    industryGroup := (b7 >>> 4) &&& 0x07
    arbitraryAddressCapable := b7 >>> 7 ≠ 0 } }

/-- The bytes that `encodeData` writes. -/
def nameBytes (n : EcuName) : List UInt8 :=
  [(n.idNumber &&& 0xFF).toUInt8,
    ((n.idNumber >>> 8) &&& 0xFF).toUInt8,
    ((n.idNumber >>> 16) &&& 0x1F).toUInt8 ||| ((n.manufacturerCode <<< 5) &&& 0xFF).toUInt8,
    ((n.manufacturerCode >>> 3) &&& 0xFF).toUInt8,
    (n.ecuInstance &&& ecuInstanceMask) ||| (n.functionInstance <<< 3),
    n.function,
    n.vehicleSystem <<< 1,
    (n.vehicleSystemInstance &&& vehicleSystemInterfaceMask) |||
      ((n.industryGroup &&& industryGroupMask) <<< 4) |||
      ((if n.arbitraryAddressCapable then (1 : UInt8) else 0) <<< 7)]

/-- `AddressClaimFrame::encodeData`. -/
def encodeData (f : AddressClaimFrame) (buffer : List UInt8) :
    Except J1939Exception (List UInt8) :=
  .ok (writeBytes buffer 0 (nameBytes f.ecuName))

instance : IsJ1939Frame AddressClaimFrame where
  header := toHeader
  withHeader f h := { f with toHeader := h }
  getPGN _ := addressClaimPgn
  decodeData := decodeData
  encodeData := encodeData
  getDataLength _ := addressFrameLength
  header_withHeader _ _ := rfl
  withHeader_header _ := rfl
  withHeader_withHeader _ _ _ := rfl
  getPGN_withHeader _ _ := rfl
  decodeData_header f length mem := by
    simp only [decodeData, Method.run_throwIf_bind]
    split_ifs <;> rfl
  decodeData_getPGN _ _ _ := rfl
  encodeData_length f buffer out h := by
    cases h
    simp

end AddressClaimFrame

@[simp] def fms1Pgn : UInt32 := 0xFD7D
@[simp] def fms1FrameLength : ℕ := 8
@[simp] def ttsMask : UInt8 := 0x7
@[simp] def blockIdMask : UInt8 := 0xF
@[simp] def ttsHighPartShift : UInt8 := 4
@[simp] def ttssPerBlock : ℕ := 15
@[simp] def ttsEncodingMask : UInt8 := 0x8
@[simp] def numberOfBlocks : UInt8 := 4

structure TellTale where
  number : UInt8 := 0
  status : UInt8 := 0
  deriving DecidableEq, Repr

/-- `TTS_STATUS_NOT_AVAILABLE`. -/
def TellTale.notAvailable : UInt8 := 0x7

structure FMS1Frame extends Header where
  blockID : UInt8 := numberOfBlocks
  ttss : SortedMap UInt8 TellTale := ∅
  deriving DecidableEq

namespace FMS1Frame

/-- The constructor without arguments: no block is selected yet. -/
def new : FMS1Frame := { name := "FMS1" }

/-- The constructor for one block, with its assertion. -/
def ofBlockID (blockID : UInt8) (_hblock : blockID < numberOfBlocks) : FMS1Frame :=
  { new with
    blockID := blockID
    ttss := (List.range' (blockID.toNat * ttssPerBlock + 1) ttssPerBlock).foldl
      (fun ttss i => ttss.insert (UInt8.ofNat i) ⟨UInt8.ofNat i, TellTale.notAvailable⟩) ∅ }

def setEntry (number status : UInt8) (f : FMS1Frame) : FMS1Frame :=
  { f with ttss := f.ttss.insert number ⟨number, status⟩ }

/-- The number of a tell tale counted within its block. -/
def ttsNumber (f : FMS1Frame) (k : ℕ) : UInt8 := UInt8.ofNat (ttssPerBlock * f.blockID.toNat + k)

/-- The two tell tales of byte `i`. -/
def decodeByte (i : ℕ) : Method FMS1Frame J1939Exception Unit := do
  let b ← Method.byte i
  Method.modify fun f => f.setEntry (f.ttsNumber (2 * i)) (b &&& ttsMask)
  Method.modify fun f =>
    f.setEntry (f.ttsNumber (2 * i + 1)) ((b >>> ttsHighPartShift) &&& ttsMask)

/-- `FMS1Frame::decodeData`. -/
def decodeData (length : ℕ) : Method FMS1Frame J1939Exception Unit := do
  Method.throwIf (length ≠ fms1FrameLength) (.fms1Length length)
  let b ← Method.byte 0
  let blockID := b &&& blockIdMask
  Method.throwIf (blockID ≥ numberOfBlocks) .fms1BlockID
  -- another block than the last one: forget its tell tales
  Method.modify fun f => if f.blockID ≠ blockID then { f with ttss := ∅ } else f
  Method.modify fun f => { f with blockID := blockID }
  Method.modify fun f => f.setEntry (f.ttsNumber 1) ((b >>> ttsHighPartShift) &&& ttsMask)
  Method.forEach (List.range' 1 (fms1FrameLength - 1)) decodeByte

/-- `mTTSs.at(number).getStatus() | TTS_ENCODING_MASK`. -/
def encodedStatus (f : FMS1Frame) (number : UInt8) : Except J1939Exception UInt8 :=
  match f.ttss.find? number with
  | none => .error .fms1OutOfRange
  | some tts => .ok (tts.status ||| ttsEncodingMask)

/-- The byte of two tell tales. -/
def encodeByte (f : FMS1Frame) (i : ℕ) : Except J1939Exception UInt8 := do
  let low ← f.encodedStatus (f.ttsNumber (2 * i))
  let high ← f.encodedStatus (f.ttsNumber (2 * i + 1))
  return low ||| (high <<< ttsHighPartShift)

/-- The test on the first and the last number. -/
def numbersIncorrect (f : FMS1Frame) : Prop :=
  (∀ e ∈ f.ttss.first?, e.1.toNat ≤ f.blockID.toNat * ttssPerBlock) ∨
    ∀ e ∈ f.ttss.last?, e.1.toNat > (f.blockID.toNat + 1) * ttssPerBlock

instance (f : FMS1Frame) : Decidable f.numbersIncorrect :=
  inferInstanceAs (Decidable ((∀ e ∈ f.ttss.first?, _) ∨ ∀ e ∈ f.ttss.last?, _))

/-- `FMS1Frame::encodeData`. -/
def encodeData (f : FMS1Frame) (buffer : List UInt8) : Except J1939Exception (List UInt8) :=
  if f.ttss.size ≠ ttssPerBlock then .error .fms1Count
  else if f.numbersIncorrect then .error .fms1Numbers
  else do
    let tts1 ← f.encodedStatus (f.ttsNumber 1)
    let bytes ← (List.range' 1 (fms1FrameLength - 1)).mapM f.encodeByte
    return writeBytes buffer 0
      (((f.blockID &&& blockIdMask) ||| (tts1 <<< ttsHighPartShift)) :: bytes)

theorem run_forEach_decodeByte (is : List ℕ) (f : FMS1Frame) (mem : Memory) :
    ∃ f', (Method.forEach is decodeByte).run f mem = (.ok (), f') ∧
      f'.toHeader = f.toHeader ∧ f'.blockID = f.blockID := by
  induction is generalizing f with
  | nil => exact ⟨f, rfl, rfl, rfl⟩
  | cons i is ih =>
    have hbyte : (decodeByte i).run f mem = (.ok (), _) := rfl
    rw [Method.forEach, Method.run_bind_of_ok hbyte]
    exact ih _

/-- The outcome depends on the length and on the first byte only. -/
theorem run_decodeData (f : FMS1Frame) (length : ℕ) (mem : Memory) :
    ∃ f', (decodeData length).run f mem =
        (if length ≠ fms1FrameLength then .error (.fms1Length length)
          else if mem 0 &&& blockIdMask ≥ numberOfBlocks then .error .fms1BlockID
          else .ok (), f') ∧ f'.toHeader = f.toHeader := by
  simp only [decodeData, Method.run_throwIf_bind, Method.run_byte_bind, Method.run_modify_bind]
  by_cases hlength : length ≠ fms1FrameLength
  · exact ⟨f, by rw [if_pos hlength, if_pos hlength], rfl⟩
  by_cases hblock : mem 0 &&& blockIdMask ≥ numberOfBlocks
  · exact ⟨f, by rw [if_neg hlength, if_neg hlength, if_pos hblock, if_pos hblock], rfl⟩
  rw [if_neg hlength, if_neg hlength, if_neg hblock, if_neg hblock]
  obtain ⟨f', hrun, hheader, -⟩ := run_forEach_decodeByte
    (List.range' 1 (fms1FrameLength - 1)) _ mem
  refine ⟨f', hrun, hheader.trans ?_⟩
  by_cases hid : f.blockID ≠ mem 0 &&& blockIdMask
  · rw [if_pos hid]
    rfl
  · rw [if_neg hid]
    rfl

/-- What has been encoded begins with the number of the block. -/
theorem encodeData_eq_ok {f : FMS1Frame} {buffer out : List UInt8}
    (h : f.encodeData buffer = .ok out) : f.ttss.size = ttssPerBlock ∧ ∃ tts1 bytes,
      out = writeBytes buffer 0
        (((f.blockID &&& blockIdMask) ||| (tts1 <<< ttsHighPartShift)) :: bytes) := by
  unfold encodeData at h
  split_ifs at h with hsize
  refine ⟨not_not.mp hsize, ?_⟩
  cases htts : f.encodedStatus (f.ttsNumber 1) with
  | error e =>
    rw [htts] at h
    cases h
  | ok tts1 =>
    cases hbytes : (List.range' 1 (fms1FrameLength - 1)).mapM f.encodeByte with
    | error e =>
      rw [htts, hbytes] at h
      cases h
    | ok bytes =>
      rw [htts, hbytes] at h
      cases h
      exact ⟨tts1, bytes, rfl⟩

theorem encodeData_length {f : FMS1Frame} {buffer out : List UInt8}
    (h : f.encodeData buffer = .ok out) : out.length = buffer.length := by
  obtain ⟨-, tts1, bytes, rfl⟩ := encodeData_eq_ok h
  exact length_writeBytes _ _ _

instance : IsJ1939Frame FMS1Frame where
  header := toHeader
  withHeader f h := { f with toHeader := h }
  getPGN _ := fms1Pgn
  decodeData := decodeData
  encodeData := encodeData
  getDataLength _ := fms1FrameLength
  header_withHeader _ _ := rfl
  withHeader_header _ := rfl
  withHeader_withHeader _ _ _ := rfl
  getPGN_withHeader _ _ := rfl
  decodeData_header f length mem := by
    obtain ⟨f', hrun, hheader⟩ := run_decodeData f length mem
    rw [hrun]
    exact hheader
  decodeData_getPGN _ _ _ := rfl
  encodeData_length _ _ _ h := encodeData_length h

end FMS1Frame

end J1939
