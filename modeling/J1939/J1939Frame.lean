import J1939.Common
import J1939.Lib.Bits
import J1939.Lib.Reads

/-!
# The base class of all frames

`J1939Frame` holds the header of a frame and turns it into the 29-bit CAN
identifier and back. Its virtual methods are the operations of `IsJ1939Frame`:
every frame class is an instance, and `decode` and `encode` are defined once for
all of them.
-/

namespace J1939

/-- The fields of `J1939Frame` that change after construction, with the values its
constructor gives them. -/
structure Header where
  priority : UInt8 := 0
  srcAddr : UInt8 := invalidAddress
  dstAddr : UInt8 := invalidAddress
  name : String := "Unknown"
  deriving DecidableEq, Repr

/-- The fields of `J1939Frame`. The PGN is set once, by the constructor. -/
structure J1939Frame extends Header where
  pgn : UInt32
  deriving DecidableEq, Repr

/-- Whether PDU specific is a destination address or a group extension. -/
inductive EJ1939PduFormat
  | pduFormat1
  | pduFormat2
  deriving DecidableEq, Repr

/-- `J1939Frame::getPDUFormat`. -/
def getPDUFormat (pgn : UInt32) : UInt32 := (pgn >>> pduFmtOffset) &&& pduFmtMask

/-- `J1939Frame::getPDUFormatGroup`. -/
def getPDUFormatGroup (pgn : UInt32) : EJ1939PduFormat :=
  if getPDUFormat pgn < pduFmtDelimiter then .pduFormat1 else .pduFormat2

/-- The assertion of the constructor: a PGN of PDU format 1 has no PDU specific byte. -/
def constructorAssertion (pgn : UInt32) : Prop :=
  getPDUFormatGroup pgn = .pduFormat2 ∨ (pgn &&& dstAddrMask) >>> dstAddrOffset = 0

instance (pgn : UInt32) : Decidable (constructorAssertion pgn) :=
  inferInstanceAs (Decidable (_ ∨ _))

namespace J1939Frame

/-- The PGN field of the identifier before it is masked, with the destination
address in the place of PDU specific when the PGN is of PDU format 1. -/
def pgnField (f : J1939Frame) : UInt32 :=
  if getPDUFormatGroup f.pgn = .pduFormat1 then
    f.pgn ||| ((f.dstAddr.toUInt32 &&& dstAddrMask) <<< dstAddrOffset)
  else f.pgn

/-- `J1939Frame::getIdentifier`. -/
def getIdentifier (f : J1939Frame) : UInt32 :=
  (f.srcAddr.toUInt32 ||| ((f.pgnField &&& pgnMask) <<< pgnOffset)) |||
    (f.priority.toUInt32 <<< priorityOffset)

end J1939Frame

/-- The virtual methods of `J1939Frame`. The laws say what the language guarantees
of every subclass: it holds one base object, its `decodeData` has no access to the
private fields, and its `encodeData` writes the given buffer in place. -/
class IsJ1939Frame (F : Type) where
  header : F → Header
  withHeader : F → Header → F
  getPGN : F → UInt32
  decodeData : ℕ → Method F J1939Exception Unit
  encodeData : F → List UInt8 → Except J1939Exception (List UInt8)
  getDataLength : F → ℕ
  header_withHeader : ∀ f h, header (withHeader f h) = h
  withHeader_header : ∀ f, withHeader f (header f) = f
  withHeader_withHeader : ∀ f h h', withHeader (withHeader f h) h' = withHeader f h'
  getPGN_withHeader : ∀ f h, getPGN (withHeader f h) = getPGN f
  decodeData_header : ∀ f length mem, header ((decodeData length).run f mem).2 = header f
  decodeData_getPGN : ∀ f length mem, getPGN ((decodeData length).run f mem).2 = getPGN f
  encodeData_length : ∀ f buffer out, encodeData f buffer = .ok out →
    out.length = buffer.length

export IsJ1939Frame (header withHeader getPGN decodeData encodeData getDataLength)

attribute [simp] IsJ1939Frame.header_withHeader IsJ1939Frame.withHeader_header
  IsJ1939Frame.withHeader_withHeader IsJ1939Frame.getPGN_withHeader
  IsJ1939Frame.decodeData_header IsJ1939Frame.decodeData_getPGN

/-- What `encode` leaves in its three output arguments. -/
structure Encoded where
  identifier : UInt32
  buffer : List UInt8
  length : ℕ
  deriving DecidableEq, Repr

section Codec

variable {F : Type} [IsJ1939Frame F]

/-- The base object of a frame. -/
def base (f : F) : J1939Frame := { header f with pgn := getPGN f }

def getPriority (f : F) : UInt8 := (header f).priority
def getSrcAddr (f : F) : UInt8 := (header f).srcAddr
def getDstAddr (f : F) : UInt8 := (header f).dstAddr
def getName (f : F) : String := (header f).name
def getIdentifier (f : F) : UInt32 := (base f).getIdentifier

/-- `setPriority`: only three bits are kept. -/
def setPriority (f : F) (priority : UInt8) : F :=
  withHeader f { header f with priority := priority &&& priorityMask }

def setSrcAddr (f : F) (src : UInt8) : F := withHeader f { header f with srcAddr := src }

/-- `setDstAddr`: a frame of PDU format 2 keeps its destination address. -/
def setDstAddr (f : F) (dst : UInt8) : F :=
  if getPDUFormatGroup (getPGN f) = .pduFormat1 then
    withHeader f { header f with dstAddr := dst }
  else f

/-- Change the header of a frame. -/
def modifyHeader (g : Header → Header) : Method F J1939Exception Unit :=
  Method.modify fun f => withHeader f (g (header f))

/-- The PGN bits of an identifier, as `decode` and the factory extract them. -/
def identifierPgn (identifier : UInt32) : UInt32 := (identifier >>> pgnOffset) &&& pgnMask

/-- The PGN that an identifier is looked up under: for PDU format 1 only the PDU
format byte is kept. -/
def lookupPgn (identifier : UInt32) : UInt32 :=
  if getPDUFormat (identifierPgn identifier) < pduFmtDelimiter then
    identifierPgn identifier &&& (pduFmtMask <<< pduFmtOffset)
  else identifierPgn identifier

/-- `J1939Frame::decode`. -/
def decode (identifier : UInt32) (length : ℕ) : Method F J1939Exception Unit := do
  let pgn := identifierPgn identifier
  if getPDUFormat pgn < pduFmtDelimiter then
    modifyHeader fun h => { h with dstAddr := ((pgn >>> dstAddrOffset) &&& dstAddrMask).toUInt8 }
  let self ← Method.get
  Method.throwIf (lookupPgn identifier ≠ getPGN self) .pgnMismatch
  modifyHeader fun h => { h with srcAddr := (identifier &&& srcAddrMask).toUInt8 }
  modifyHeader fun h =>
    { h with priority := ((identifier >>> priorityOffset) &&& priorityMask.toUInt32).toUInt8 }
  decodeData length

/-- `J1939Frame::encode` into a buffer of `length` bytes. -/
def encode (f : F) (length : ℕ) : Except J1939Exception Encoded :=
  let prio := getPriority f &&& priorityMask
  if prio ≠ getPriority f then .error .priorityRange
  else if length < getDataLength f then .error .encodeLength
  else
    match encodeData f (List.replicate length 0xFF) with
    | .error e => .error e
    | .ok buffer =>
      .ok ⟨((getSrcAddr f).toUInt32 ||| (((base f).pgnField &&& pgnMask) <<< pgnOffset)) |||
        (prio.toUInt32 <<< priorityOffset), buffer, getDataLength f⟩

/-- The header that `decode` leaves when the PGN matches. -/
def receivedHeader (h : Header) (identifier : UInt32) : Header :=
  { h with
    dstAddr := if getPDUFormat (identifierPgn identifier) < pduFmtDelimiter then
      ((identifierPgn identifier >>> dstAddrOffset) &&& dstAddrMask).toUInt8 else h.dstAddr
    srcAddr := (identifier &&& srcAddrMask).toUInt8
    priority := ((identifier >>> priorityOffset) &&& priorityMask.toUInt32).toUInt8 }

/-- The received priority has three bits. -/
theorem priority_receivedHeader (header : Header) (identifier : UInt32) :
    (receivedHeader header identifier).priority ≤ 7 := by
  rw [UInt8.le_iff_toNat_le, receivedHeader, UInt32.toNat_toUInt8,
    Bits.toNat_low _ _ (show priorityMask.toUInt32.toNat = 2 ^ 3 - 1 from rfl)]
  change _ ≤ 7
  omega

/-- A matching identifier replaces the header and passes the data on. -/
theorem run_decode_of_match {f : F} {identifier : UInt32} {length : ℕ} {mem : Memory}
    (h : lookupPgn identifier = getPGN f) :
    (decode identifier length).run f mem =
      (decodeData length).run (withHeader f (receivedHeader (header f) identifier)) mem := by
  unfold decode
  by_cases hfmt : getPDUFormat (identifierPgn identifier) < pduFmtDelimiter
  · simp only [hfmt, if_true, modifyHeader, receivedHeader, Method.run_modify_bind,
      Method.run_get_bind, Method.run_throwIf_bind, IsJ1939Frame.getPGN_withHeader,
      IsJ1939Frame.header_withHeader, IsJ1939Frame.withHeader_withHeader]
    exact if_neg (not_not.mpr h)
  · simp only [hfmt, if_false, modifyHeader, receivedHeader, Method.run_modify_bind,
      Method.run_get_bind, Method.run_throwIf_bind, IsJ1939Frame.header_withHeader,
      IsJ1939Frame.withHeader_withHeader]
    exact if_neg (not_not.mpr h)

/-- Another PGN throws before the source address and the data are touched. -/
theorem run_decode_of_mismatch {f : F} {identifier : UInt32} {length : ℕ} {mem : Memory}
    (h : lookupPgn identifier ≠ getPGN f) :
    ((decode identifier length).run f mem).1 = .error .pgnMismatch := by
  unfold decode
  by_cases hfmt : getPDUFormat (identifierPgn identifier) < pduFmtDelimiter
  · simp only [hfmt, if_true, modifyHeader, Method.run_modify_bind, Method.run_get_bind,
      Method.run_throwIf_bind, IsJ1939Frame.getPGN_withHeader]
    rw [if_pos h]
  · simp only [hfmt, if_false, Method.run_get_bind, Method.run_throwIf_bind]
    rw [if_pos h]

/-- Only the destination address may have changed then. -/
theorem snd_run_decode_of_mismatch {f : F} {identifier : UInt32} {length : ℕ} {mem : Memory}
    (h : lookupPgn identifier ≠ getPGN f) : ∃ dst, ((decode identifier length).run f mem).2 =
      withHeader f { header f with dstAddr := dst } := by
  unfold decode
  by_cases hfmt : getPDUFormat (identifierPgn identifier) < pduFmtDelimiter
  · simp only [hfmt, if_true, modifyHeader, Method.run_modify_bind, Method.run_get_bind,
      Method.run_throwIf_bind, IsJ1939Frame.getPGN_withHeader]
    rw [if_pos h]
    exact ⟨_, rfl⟩
  · simp only [hfmt, if_false, Method.run_get_bind, Method.run_throwIf_bind]
    rw [if_pos h]
    exact ⟨(header f).dstAddr, (IsJ1939Frame.withHeader_header f).symm⟩

/-- The accesses of `decode` are those of `decodeData`. -/
theorem accessed_decode {f : F} {identifier : UInt32} {length : ℕ} {mem : Memory} :
    (decode identifier length).accessed f mem =
      if lookupPgn identifier = getPGN f then
        (decodeData length).accessed (withHeader f (receivedHeader (header f) identifier)) mem
      else [] := by
  unfold decode
  by_cases hfmt : getPDUFormat (identifierPgn identifier) < pduFmtDelimiter
  · simp only [hfmt, if_true, modifyHeader, receivedHeader, Method.accessed_modify_bind,
      Method.accessed_get_bind, Method.accessed_throwIf_bind, IsJ1939Frame.getPGN_withHeader,
      IsJ1939Frame.header_withHeader, IsJ1939Frame.withHeader_withHeader]
    exact ite_not _ _ _
  · simp only [hfmt, if_false, modifyHeader, receivedHeader, Method.accessed_modify_bind,
      Method.accessed_get_bind, Method.accessed_throwIf_bind, IsJ1939Frame.header_withHeader,
      IsJ1939Frame.withHeader_withHeader]
    exact ite_not _ _ _

/-- The header after a decoding that did not throw. -/
theorem header_decode {f f' : F} {identifier : UInt32} {length : ℕ} {mem : Memory}
    (h : (decode identifier length).run f mem = (.ok (), f')) :
    lookupPgn identifier = getPGN f ∧ getPGN f' = getPGN f ∧
      header f' = receivedHeader (header f) identifier := by
  by_cases hpgn : lookupPgn identifier = getPGN f
  · rw [run_decode_of_match hpgn] at h
    have hheader := IsJ1939Frame.decodeData_header
      (withHeader f (receivedHeader (header f) identifier)) length mem
    have hgetPGN := IsJ1939Frame.decodeData_getPGN
      (withHeader f (receivedHeader (header f) identifier)) length mem
    rw [h, IsJ1939Frame.header_withHeader] at hheader
    rw [h, IsJ1939Frame.getPGN_withHeader] at hgetPGN
    exact ⟨hpgn, hgetPGN, hheader⟩
  · have hfst : ((decode identifier length).run f mem).1 = .error .pgnMismatch :=
      run_decode_of_mismatch hpgn
    rw [h] at hfst
    cases hfst

end Codec

end J1939
