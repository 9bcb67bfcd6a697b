import Mathlib.Data.Nat.Notation

/-!
# Constants and exceptions of the library

The macros of `J1939Common.h` and the exceptions thrown by the frame classes.
-/

namespace J1939

/-- `J1939_MAX_SIZE`: the payload of one CAN frame. -/
@[simp] def maxSize : ℕ := 8

@[simp] def pgnOffset : UInt32 := 8
@[simp] def pgnMask : UInt32 := 0x3FFFF

@[simp] def dstAddrMask : UInt32 := 0xFF
@[simp] def srcAddrMask : UInt32 := 0xFF
@[simp] def dstAddrOffset : UInt32 := 0

@[simp] def pduFmtMask : UInt32 := 0xFF
@[simp] def pduFmtOffset : UInt32 := 8

@[simp] def priorityOffset : UInt32 := 26
@[simp] def priorityMask : UInt8 := 7

/-- `J1939_STR_TERMINATOR`: the byte that ends a string on the wire, `'*'`. -/
@[simp] def strTerminator : UInt8 := 0x2A

/-- `TP_DT_PACKET_SIZE`: the payload bytes of one data packet. -/
@[simp] def tpDtPacketSize : ℕ := 7

/-- `PDU_FMT_DELIMITER`: PDU formats below it address a destination. -/
@[simp] def pduFmtDelimiter : UInt32 := 0xF0

@[simp] def invalidAddress : UInt8 := 0xFE
@[simp] def broadcastAddress : UInt8 := 0xFF

/-- `SPN_NUMERIC_MAX_BYTE_SYZE`: the bytes that the value of a numeric SPN can hold. -/
@[simp] def spnNumericMaxByteSize : ℕ := 4

/-- The throw sites of the library. -/
inductive J1939Exception
  /-- `J1939Frame::decode`. -/
  | pgnMismatch
  /-- `J1939Frame::encode`: the priority does not fit in its field. -/
  | priorityRange
  /-- `J1939Frame::encode`: the buffer is too small. -/
  | encodeLength
  | tpcmLength (length : ℕ)
  | tpcmCtrlType
  /-- `TPCMFrame::encodeData`, which throws a decode exception. -/
  | tpcmEncodeCtrlType
  | tpdtLength (length : ℕ)
  | fms1Length (length : ℕ)
  | fms1BlockID
  | fms1Count
  | fms1Numbers
  /-- `std::out_of_range` of `std::map::at` in `FMS1Frame::encodeData`. -/
  | fms1OutOfRange
  | addressClaimLength (length : ℕ)
  | requestLength (length : ℕ)
  | dtcConversionMethod
  | dm1LampStatus
  | spnOffset
  | spnEncodeOffset (number : UInt32) (offset length : ℕ)
  | numericDecodeLength
  | numericEncodeLength
  | statusDecodeFormat
  | statusEncodeFormat
  | statusEncodeValue
  | stringTerminator
  | stringNotAscii
  | stringEncodeLength
  deriving DecidableEq, Repr

namespace J1939Exception

/-- Whether the exception is a `J1939DecodeException`, not a `J1939EncodeException`. -/
def isDecode : J1939Exception → Bool
  | pgnMismatch | tpcmLength _ | tpcmCtrlType | tpcmEncodeCtrlType | tpdtLength _
  | fms1Length _ | fms1BlockID | addressClaimLength _ | requestLength _ | dtcConversionMethod
  | spnOffset | numericDecodeLength | statusDecodeFormat | stringTerminator
  | stringNotAscii => true
  | _ => false

private def lengthMessage (className : String) (length expected : ℕ) : String :=
  "[" ++ className ++ "::decodeData] Buffer length does not match the expected length. " ++
    "Buffer length:" ++ toString length ++ ". Expected length: " ++ toString expected

/-- The text that `getMessage` returns. -/
def getMessage : J1939Exception → String
  | pgnMismatch => "[J1939Frame::decode] Pgn does not match"
  | priorityRange => "[J1939Frame::encode] Priority exceeded its range"
  | encodeLength => "[J1939Frame::encode] Length smaller than expected"
  | tpcmLength n => lengthMessage "TPCMFrame" n 8
  | tpcmCtrlType => "[TPCMFrame::decodeData] Unknown Ctrl type"
  | tpcmEncodeCtrlType => "[TPCMFrame::encodeData] Unknown Ctrl Type"
  -- the source names the packet size here, not the frame size it compares with
  | tpdtLength n => lengthMessage "TPDTFrame" n tpDtPacketSize
  | fms1Length n => lengthMessage "FMS1Frame" n 8
  | fms1BlockID =>
    "[FMS1Frame::decodeData] Block ID higher than the maximum permitted. Max: 3"
  | fms1Count => "[FMS1Frame::encodeData] There are not 15 defined"
  | fms1Numbers =>
    "[FMS1Frame::encodeData] TTS numbers are not the proper ones for this block"
  | fms1OutOfRange => "map::at"
  | addressClaimLength n => lengthMessage "AdressClaimFrame" n 8
  | requestLength n => lengthMessage "RequestFrame" n 3
  | dtcConversionMethod => "DTC: Unknown conversion method"
  | dm1LampStatus =>
    "[DM1::encodeData] SPNs are not expected to fit within more than 2 bytes"
  | spnOffset => "[GenericFrame::decodeData] Offset of spn is higher than frame length"
  | spnEncodeOffset number offset length =>
    "[GenericFrame::encodeData] Offset of spn is higher than frame length: SPN number: " ++
      toString number ++ " offset: " ++ toString offset ++ " length: " ++ toString length
  | numericDecodeLength => "[SPNNumeric::decode] Spn length is bigger than expected"
  | numericEncodeLength => "[SPNNumeric::encode] Spn length is bigger than expected"
  | statusDecodeFormat => "[SPNStatus::decode] Format incorrect to decode properly this spn"
  | statusEncodeFormat => "[SPNStatus::encode] Format incorrect to encode properly this spn"
  | statusEncodeValue => "[SPNStatus::encode] Value to encode is bigger than expected"
  | stringTerminator => "[SPNString::decode] '*' terminator not found"
  | stringNotAscii => "[SPNString::decode] String is not ASCII"
  | stringEncodeLength => "[SPNString::encode] Not enough length to encode the string"

end J1939Exception

end J1939
