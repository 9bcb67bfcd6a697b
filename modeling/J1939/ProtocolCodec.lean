import J1939.TransportCodec
import J1939.Payloads

/-!
# The protocol frames in both directions

A connection frame, a packet or a request that is encoded and decoded again restores what
its layout carries, whatever the receiving object held before. Everything else is
rejected.
-/

namespace J1939

open Buffer

section Layout

variable {F : Type} [IsJ1939Frame F]

/-- Encoding `f` into any buffer that is large enough writes `bytes`, and decoding these
into any object of the class leaves an object that is `restored`. -/
def RoundTripsTo (f : F) (bytes : List UInt8) (restored : F → Prop) : Prop :=
  ∀ length, getDataLength f ≤ length → ∃ e, encode f length = .ok e ∧
    e.buffer.take e.length = bytes ∧ ∀ (g : F) (beyond : Memory), ∃ g',
      (decode e.identifier e.length).run g (e.payload beyond) = (.ok (), g') ∧ restored g'

/-- Decoding throws a decode exception for every payload that is not accepted. -/
def RejectsUnless (F : Type) [IsJ1939Frame F] (accepted : ℕ → Memory → Prop) : Prop :=
  ∀ (g : F) (identifier : UInt32) (length : ℕ) (mem : Memory), ¬accepted length mem →
    ∃ e, ((decode identifier length).run g mem).1 = .error e ∧ e.isDecode = true

/-- A class rejects what its `decodeData` rejects. -/
theorem rejectsUnless_of_decodesWhen {accepted : ℕ → Memory → Prop}
    (h : ∀ (g : F) (length : ℕ) (mem : Memory),
      DecodesWhen (decodeData length) g mem (accepted length mem)) :
    RejectsUnless F accepted := by
  intro g identifier length mem hnot
  by_cases hmatch : lookupPgn identifier = getPGN g
  · rw [run_decode_of_match hmatch]
    rcases h (withHeader g (receivedHeader (header g) identifier)) length mem with
      ⟨hyes, -⟩ | ⟨-, e, g', hrun, hdecode⟩
    · exact absurd hyes hnot
    · rw [hrun]
      exact ⟨e, rfl, hdecode⟩
  · exact ⟨.pgnMismatch, run_decode_of_mismatch hmatch, rfl⟩

/-- A frame that fills its payload round-trips when its bytes do. -/
theorem roundTripsTo_of_bytes {f : F} {bytes : List UInt8} {restored : F → Prop}
    (hprio : getPriority f ≤ 7) (hpgn : constructorAssertion (getPGN f) ∧ getPGN f ≤ 0x3FFFF ∧
      getPDUFormatGroup (getPGN f) = .pduFormat1 ∧ PgnReadsBack (getPGN f))
    (hclass : ∀ g : F, getPGN g = getPGN f) (hlength : bytes.length = getDataLength f)
    (hdata : ∀ rest, encodeData f (List.replicate (getDataLength f) 0xFF ++ rest) =
      .ok (bytes ++ rest))
    (hdecode : ∀ (g : F) (beyond : Memory), ∃ g',
      (decodeData bytes.length).run g (Memory.ofList bytes beyond) = (.ok (), g') ∧
        restored g') : RoundTripsTo f bytes restored := by
  intro length hle
  have hbuffer : List.replicate length (0xFF : UInt8) = List.replicate (getDataLength f) 0xFF ++
      List.replicate (length - getDataLength f) 0xFF := by
    rw [List.replicate_append_replicate, Nat.add_sub_cancel' hle]
  have hencode : encode f length = .ok ⟨getIdentifier f,
      bytes ++ List.replicate (length - getDataLength f) 0xFF, getDataLength f⟩ :=
    encode_eq_ok_iff.mpr ⟨hprio, hle, by rw [hbuffer]; exact hdata _, rfl, rfl⟩
  have htake : (bytes ++ List.replicate (length - getDataLength f) 0xFF).take (getDataLength f) =
      bytes := by
    rw [← hlength, List.take_left]
  refine ⟨_, hencode, htake, fun g beyond => ?_⟩
  obtain ⟨hlookup, -⟩ := identifier_of_encode hencode hpgn (header g)
  obtain ⟨g', hrun, hrestored⟩ :=
    hdecode (withHeader g (receivedHeader (header g) (getIdentifier f))) beyond
  refine ⟨g', ?_, hrestored⟩
  rw [run_decode_of_match (hlookup.trans (hclass g).symm), Encoded.payload, htake, ← hrun, hlength]

end Layout

/-! ### Connection frames -/

namespace TPCMFrame

/-- The bytes from index 1 on that a control type defines. -/
def definedBytes (ctrlType : UInt8) : ℕ :=
  if ctrlType = ctrlTpcmRts then 4
  else if ctrlType = ctrlTpcmCts then 2
  else if ctrlType = ctrlTpcmAck then 3
  else if ctrlType = ctrlTpcmAbort then 1
  else if ctrlType = ctrlTpcmBam then 3
  else 0

/-- The control types that carry the size of the message. -/
def CarriesSize (ctrlType : UInt8) : Prop :=
  ctrlType = ctrlTpcmRts ∨ ctrlType = ctrlTpcmAck ∨ ctrlType = ctrlTpcmBam

instance (ctrlType : UInt8) : Decidable (CarriesSize ctrlType) :=
  inferInstanceAs (Decidable (_ ∨ _))

/-- A frame agrees with another one on what a control type carries. -/
structure SameContent (f g : TPCMFrame) : Prop where
  ctrlType : g.ctrlType = f.ctrlType
  dataPgn : g.dataPgn = f.dataPgn
  totalMsgSize : CarriesSize f.ctrlType → g.totalMsgSize = f.totalMsgSize
  totalPackets : CarriesSize f.ctrlType → g.totalPackets = f.totalPackets
  maxPackets : f.ctrlType = ctrlTpcmRts → g.maxPackets = f.maxPackets
  packetsToTx : f.ctrlType = ctrlTpcmCts → g.packetsToTx = f.packetsToTx
  nextPacket : f.ctrlType = ctrlTpcmCts → g.nextPacket = f.nextPacket
  abortReason : f.ctrlType = ctrlTpcmAbort → g.abortReason = f.abortReason

/-- Two frames of a control type with the size of the message agree on little more. -/
theorem SameContent.of_carriesSize {f g : TPCMFrame} (h : CarriesSize f.ctrlType)
    (hctrl : g.ctrlType = f.ctrlType) (hpgn : g.dataPgn = f.dataPgn)
    (hsize : g.totalMsgSize = f.totalMsgSize) (hpackets : g.totalPackets = f.totalPackets)
    (hmax : f.ctrlType = ctrlTpcmRts → g.maxPackets = f.maxPackets) : f.SameContent g := by
  have hcts : f.ctrlType ≠ ctrlTpcmCts := by
    intro hcts
    rw [hcts] at h
    exact absurd h (by decide)
  have habort : f.ctrlType ≠ ctrlTpcmAbort := by
    intro habort
    rw [habort] at h
    exact absurd h (by decide)
  exact {
    ctrlType := hctrl
    dataPgn := hpgn
    totalMsgSize := fun _ => hsize
    totalPackets := fun _ => hpackets
    maxPackets := hmax
    packetsToTx := fun h => absurd h hcts
    nextPacket := fun h => absurd h hcts
    abortReason := fun h => absurd h habort }

/-- The payload of a connection frame: what the control type does not define is set. -/
def payloadOf (f : TPCMFrame) (ctrl : List UInt8) : List UInt8 :=
  f.ctrlType :: (ctrl ++ List.replicate (4 - ctrl.length) 0xFF) ++ f.dataPgnBytes

theorem encodeCtrl_of_known {f : TPCMFrame} (h : KnownCtrl f.ctrlType) :
    ∃ ctrl, f.encodeCtrl = .ok ctrl ∧ ctrl.length = definedBytes f.ctrlType := by
  rcases h with h | h | h | h | h <;> simp only [encodeCtrl, definedBytes, h] <;>
    exact ⟨_, rfl, rfl⟩

theorem definedBytes_le (ctrlType : UInt8) : definedBytes ctrlType ≤ 4 := by
  unfold definedBytes
  split_ifs <;> decide

theorem encodeData_append {f : TPCMFrame} {ctrl : List UInt8} (h : f.encodeCtrl = .ok ctrl)
    (hlength : ctrl.length ≤ 4) (rest : List UInt8) :
    f.encodeData (List.replicate tpCmSize 0xFF ++ rest) = .ok (f.payloadOf ctrl ++ rest) := by
  set unset : List UInt8 := List.replicate (4 - ctrl.length) 0xFF with hunset
  have hsplit : List.replicate 7 (0xFF : UInt8) =
      List.replicate ctrl.length 0xFF ++ (unset ++ List.replicate 3 0xFF) := by
    rw [hunset, List.replicate_append_replicate, List.replicate_append_replicate]
    exact congrArg (List.replicate · 0xFF) (by omega)
  have hcleared : writeBytes (List.replicate tpCmSize 0xFF ++ rest) 0
      (List.replicate tpCmSize 0xFF) = List.replicate tpCmSize 0xFF ++ rest :=
    Buffer.writeBytes_middle [] rest rfl rfl
  have hset : (List.replicate tpCmSize 0xFF ++ rest).set 0 f.ctrlType =
      [f.ctrlType] ++ List.replicate ctrl.length 0xFF ++
        (unset ++ List.replicate 3 0xFF ++ rest) := by
    change f.ctrlType :: (List.replicate 7 0xFF ++ rest) = _
    rw [hsplit]
    simp only [List.nil_append, List.cons_append, List.append_assoc]
  have hctrl : writeBytes ([f.ctrlType] ++ List.replicate ctrl.length 0xFF ++
      (unset ++ List.replicate 3 0xFF ++ rest)) 1 ctrl =
        [f.ctrlType] ++ ctrl ++ (unset ++ List.replicate 3 0xFF ++ rest) :=
    Buffer.writeBytes_middle _ _ rfl (List.length_replicate ..).symm
  have hfive : ([f.ctrlType] ++ ctrl ++ unset).length = 5 := by
    rw [List.length_append, List.length_append, hunset, List.length_replicate]
    change 1 + _ + _ = _
    omega
  have hpgn : writeBytes ([f.ctrlType] ++ ctrl ++ unset ++ List.replicate 3 0xFF ++ rest) 5
      f.dataPgnBytes = [f.ctrlType] ++ ctrl ++ unset ++ f.dataPgnBytes ++ rest :=
    Buffer.writeBytes_middle _ _ hfive rfl
  simp only [encodeData, h, hcleared, hset, hctrl]
  rw [← List.append_assoc, ← List.append_assoc, hpgn, payloadOf]
  simp only [List.nil_append, List.cons_append, List.append_assoc, hunset]

/-- `decodeData` reads the data PGN behind what the control type defines. -/
theorem run_decodeData_of_ctrl {g g' : TPCMFrame} {mem : Memory}
    (h : (decodeCtrl (mem 0)).run { g with ctrlType := mem 0 } mem = (.ok (), g')) :
    (decodeData tpCmSize).run g mem = (.ok (), { g' with
      dataPgn := ((mem 5).toUInt32 ||| ((mem 6).toUInt32 <<< 8)) |||
        ((mem 7).toUInt32 <<< 16) }) := by
  rw [decodeData, Method.run_throwIf_bind, if_neg (not_not.mpr rfl), Method.run_byte_bind,
    Method.run_modify_bind, Method.run_bind_of_ok h]
  rfl

/-- The three bytes of the data PGN hold 24 bits. -/
theorem dataPgnBytes_joined {f : TPCMFrame} (hpgn : f.dataPgn ≤ 0xFFFFFF) :
    ((f.dataPgn &&& 0xFF).toUInt8.toUInt32 |||
      (((f.dataPgn >>> 8) &&& 0xFF).toUInt8.toUInt32 <<< 8)) |||
        (((f.dataPgn >>> 16) &&& 0xFF).toUInt8.toUInt32 <<< 16) = f.dataPgn := by
  have hlt : f.dataPgn.toNat < 2 ^ 24 := Nat.lt_succ_of_le (UInt32.le_iff_toNat_le.mp hpgn)
  rw [Bits.join_bytes24]
  apply UInt32.toNat_inj.mp
  rw [Bits.toNat_low _ _ (w := 24) rfl, Nat.mod_eq_of_lt hlt]

/-- Decoding the payload restores what the control type carries. -/
theorem run_decodeData_sameContent {f : TPCMFrame} {ctrl : List UInt8}
    (hknown : KnownCtrl f.ctrlType) (hctrl : f.encodeCtrl = .ok ctrl)
    (hpgn : f.dataPgn ≤ 0xFFFFFF) (g : TPCMFrame) (beyond : Memory) :
    ∃ g', (decodeData tpCmSize).run g (Memory.ofList (f.payloadOf ctrl) beyond) = (.ok (), g') ∧
      f.SameContent g' := by
  have hsize := Bits.join_bytes16 f.totalMsgSize
  have hjoined := dataPgnBytes_joined hpgn
  have hmem : Memory.ofList (f.payloadOf ctrl) beyond 0 = f.ctrlType := rfl
  have hother : ∀ {x y : UInt8} {p : Prop}, f.ctrlType = x → x ≠ y → f.ctrlType = y → p :=
    fun hx hne hy => absurd (hx.symm.trans hy) hne
  have hsized : ∀ {x : UInt8} {p : Prop}, f.ctrlType = x → ¬CarriesSize x →
      CarriesSize f.ctrlType → p := fun hx hnot hy => absurd (hx ▸ hy) hnot
  rcases hknown with h | h | h | h | h
  · have henc : f.encodeCtrl = .ok f.encodeRTS := by simp only [encodeCtrl, h]; rfl
    cases henc.symm.trans hctrl
    refine ⟨_, run_decodeData_of_ctrl (by rw [hmem, h]; rfl), ?_⟩
    exact .of_carriesSize (by rw [h]; decide) h.symm hjoined hsize rfl (fun _ => rfl)
  · have henc : f.encodeCtrl = .ok f.encodeCTS := by simp only [encodeCtrl, h]; rfl
    cases henc.symm.trans hctrl
    refine ⟨_, run_decodeData_of_ctrl (by rw [hmem, h]; rfl), ?_⟩
    exact {
      ctrlType := h.symm
      dataPgn := hjoined
      totalMsgSize := hsized h (by decide)
      totalPackets := hsized h (by decide)
      maxPackets := hother h (by decide)
      packetsToTx := fun _ => rfl
      nextPacket := fun _ => rfl
      abortReason := hother h (by decide) }
  · have henc : f.encodeCtrl = .ok f.encodeEndOfMsgACK := by simp only [encodeCtrl, h]; rfl
    cases henc.symm.trans hctrl
    refine ⟨_, run_decodeData_of_ctrl (by rw [hmem, h]; rfl), ?_⟩
    exact .of_carriesSize (by rw [h]; decide) h.symm hjoined hsize rfl (hother h (by decide))
  · have henc : f.encodeCtrl = .ok f.encodeConnAbort := by simp only [encodeCtrl, h]; rfl
    cases henc.symm.trans hctrl
    refine ⟨_, run_decodeData_of_ctrl (by rw [hmem, h]; rfl), ?_⟩
    exact {
      ctrlType := h.symm
      dataPgn := hjoined
      totalMsgSize := hsized h (by decide)
      totalPackets := hsized h (by decide)
      maxPackets := hother h (by decide)
      packetsToTx := hother h (by decide)
      nextPacket := hother h (by decide)
      abortReason := fun _ => rfl }
  · have henc : f.encodeCtrl = .ok f.encodeBAM := by simp only [encodeCtrl, h]; rfl
    cases henc.symm.trans hctrl
    refine ⟨_, run_decodeData_of_ctrl (by rw [hmem, h]; rfl), ?_⟩
    exact .of_carriesSize (by rw [h]; decide) h.symm hjoined hsize rfl (hother h (by decide))

theorem length_payloadOf {f : TPCMFrame} {ctrl : List UInt8} (hlength : ctrl.length ≤ 4) :
    (f.payloadOf ctrl).length = tpCmSize := by
  have hpgn : f.dataPgnBytes.length = 3 := rfl
  rw [payloadOf, List.length_append, List.length_cons, List.length_append, List.length_replicate,
    hpgn, tpCmSize]
  omega

/-- What a control type does not define is set. -/
theorem payloadOf_undefined {f : TPCMFrame} {ctrl : List UInt8} {i : ℕ}
    (hfirst : ctrl.length + 1 ≤ i) (hlast : i < 5) : (f.payloadOf ctrl)[i]? = some 0xFF := by
  obtain ⟨k, rfl⟩ : ∃ k, i = k + 1 := ⟨i - 1, by omega⟩
  rw [payloadOf, List.cons_append, List.getElem?_cons_succ, List.append_assoc,
    List.getElem?_append_right (by omega),
    List.getElem?_append_left (by rw [List.length_replicate]; omega), List.getElem?_replicate,
    if_pos (by omega)]

/-- Connection frames of the five control types round-trip. -/
theorem roundTrips {f : TPCMFrame} (hprio : getPriority f ≤ 7) (hknown : KnownCtrl f.ctrlType)
    (hpgn : f.dataPgn ≤ 0xFFFFFF) : ∃ bytes, RoundTripsTo f bytes f.SameContent ∧
      ∀ i, definedBytes f.ctrlType + 1 ≤ i → i < 5 → bytes[i]? = some 0xFF := by
  obtain ⟨ctrl, hctrl, hdefined⟩ := encodeCtrl_of_known hknown
  have hlength : ctrl.length ≤ 4 := by
    rw [hdefined]
    exact definedBytes_le _
  refine ⟨f.payloadOf ctrl, ?_, fun i hfirst hlast => ?_⟩
  · have hreads : constructorAssertion tpCmPgn ∧ tpCmPgn ≤ 0x3FFFF ∧
        getPDUFormatGroup tpCmPgn = .pduFormat1 ∧ PgnReadsBack tpCmPgn := by decide
    refine roundTripsTo_of_bytes hprio hreads (fun _ => rfl) (length_payloadOf hlength)
      (encodeData_append hctrl hlength) fun g beyond => ?_
    rw [length_payloadOf hlength]
    exact run_decodeData_sameContent hknown hctrl hpgn g beyond
  · exact payloadOf_undefined (by rw [hdefined]; exact hfirst) hlast

/-- Another control type is not encoded. -/
theorem encode_unknown {f : TPCMFrame} (hnot : ¬KnownCtrl f.ctrlType) (length : ℕ) :
    ∃ e, encode f length = .error e := by
  cases hencode : encode f length with
  | error e => exact ⟨e, rfl⟩
  | ok e =>
    obtain ⟨-, -, hdata, -, -⟩ := encode_eq_ok_iff.mp hencode
    simp only [KnownCtrl, not_or] at hnot
    obtain ⟨hrts, hcts, hack, habort, hbam⟩ := hnot
    change f.encodeData _ = _ at hdata
    rw [encodeData, encodeCtrl, if_neg hrts, if_neg hcts, if_neg hack, if_neg habort,
      if_neg hbam] at hdata
    cases hdata

end TPCMFrame

/-! ### Packets and requests -/

theorem TPDTFrame.roundTrips {f : TPDTFrame} (hprio : getPriority f ≤ 7) :
    RoundTripsTo f (f.sq :: f.data.toList) fun g => g.sq = f.sq ∧ g.data = f.data := by
  have hreads : constructorAssertion tpDtPgn ∧ tpDtPgn ≤ 0x3FFFF ∧
      getPDUFormatGroup tpDtPgn = .pduFormat1 ∧ PgnReadsBack tpDtPgn := by decide
  have hlength : (f.sq :: f.data.toList).length = bamDtSize := by
    rw [List.length_cons, List.Vector.toList_length]
    rfl
  refine roundTripsTo_of_bytes hprio hreads (fun _ => rfl) hlength (fun rest => ?_)
    fun g beyond => ?_
  · have hdata := encodeData_tpdt f
    change Except.ok (writeBytes ((List.replicate bamDtSize 0xFF ++ rest).set 0 f.sq) 1
      f.data.toList) = _
    rw [List.set_append_left _ _ (by decide), writeBytes_append _ (by
      rw [List.Vector.toList_length, List.length_set, List.length_replicate]
      decide), Except.ok.inj hdata]
    rfl
  · have hrun := TPDTFrame.run_decodeData g bamDtSize (Memory.ofList (f.sq :: f.data.toList) beyond)
    rw [if_neg (not_not.mpr rfl), Memory.vector_ofList_cons] at hrun
    rw [hlength]
    exact ⟨_, hrun, rfl, rfl⟩

/-- The payload of a request. -/
def RequestFrame.payloadOf (f : RequestFrame) : List UInt8 :=
  [(f.requestPGN &&& 0xFF).toUInt8, ((f.requestPGN >>> 8) &&& 0xFF).toUInt8,
    ((f.requestPGN >>> 16) &&& (pgnMask >>> 16)).toUInt8]

theorem RequestFrame.roundTrips {f : RequestFrame} (hprio : getPriority f ≤ 7)
    (hpgn : f.requestPGN ≤ pgnMask) :
    RoundTripsTo f f.payloadOf fun g => g.requestPGN = f.requestPGN := by
  have hreads : constructorAssertion requestPgn ∧ requestPgn ≤ 0x3FFFF ∧
      getPDUFormatGroup requestPgn = .pduFormat1 ∧ PgnReadsBack requestPgn := by decide
  refine roundTripsTo_of_bytes hprio hreads (fun _ => rfl) rfl (fun rest => rfl)
    fun g beyond => ⟨_, rfl, ?_⟩
  have hlt : f.requestPGN.toNat < 2 ^ 18 := Nat.lt_succ_of_le (UInt32.le_iff_toNat_le.mp hpgn)
  -- the mask on the third byte keeps all there is of a PGN
  have hthird : (f.requestPGN >>> 16) &&& (pgnMask >>> 16) = (f.requestPGN >>> 16) &&& 0xFF := by
    apply UInt32.toNat_inj.mp
    rw [Bits.toNat_field _ 16 _ (by decide) (w := 2) rfl,
      Bits.toNat_field _ 16 _ (by decide) (w := 8) rfl]
    change f.requestPGN.toNat / 2 ^ 16 % 2 ^ 2 = f.requestPGN.toNat / 2 ^ 16 % 2 ^ 8
    omega
  have hmasked : (f.requestPGN &&& 0xFFFFFF) &&& pgnMask = f.requestPGN := by
    apply UInt32.toNat_inj.mp
    rw [Bits.toNat_low _ _ (w := 18) rfl, Bits.toNat_low _ _ (w := 24) rfl]
    omega
  change ((f.requestPGN &&& 0xFF).toUInt8.toUInt32 |||
    (((f.requestPGN >>> 8) &&& 0xFF).toUInt8.toUInt32 <<< 8) |||
      (((f.requestPGN >>> 16) &&& (pgnMask >>> 16)).toUInt8.toUInt32 <<< 16)) &&& pgnMask = _
  rw [hthird, Bits.join_bytes24, hmasked]

/-- The protocol frames round-trip over their whole field ranges, from any state of the
receiving object, and no other payload is accepted. -/
theorem protocol_roundTrip :
    (∀ c : TPCMFrame, getPriority c ≤ 7 → TPCMFrame.KnownCtrl c.ctrlType →
      c.dataPgn ≤ 0xFFFFFF → ∃ bytes, RoundTripsTo c bytes c.SameContent ∧
        ∀ i, TPCMFrame.definedBytes c.ctrlType + 1 ≤ i → i < 5 → bytes[i]? = some 0xFF) ∧
    (∀ dt : TPDTFrame, getPriority dt ≤ 7 →
      ∃ bytes, RoundTripsTo dt bytes fun g => g.sq = dt.sq ∧ g.data = dt.data) ∧
    (∀ r : RequestFrame, getPriority r ≤ 7 → r.requestPGN ≤ pgnMask →
      ∃ bytes, RoundTripsTo r bytes fun g => g.requestPGN = r.requestPGN) ∧
    RejectsUnless TPCMFrame (fun length mem => length = tpCmSize ∧ TPCMFrame.KnownCtrl (mem 0)) ∧
    RejectsUnless TPDTFrame (fun length _ => length = bamDtSize) ∧
    RejectsUnless RequestFrame (fun length _ => length = requestFrameLength) ∧
    ∀ c : TPCMFrame, ¬TPCMFrame.KnownCtrl c.ctrlType → ∀ length,
      ∃ e, encode c length = .error e :=
  ⟨fun _ hprio hknown hpgn => TPCMFrame.roundTrips hprio hknown hpgn,
    fun _ hprio => ⟨_, TPDTFrame.roundTrips hprio⟩,
    fun _ hprio hpgn => ⟨_, RequestFrame.roundTrips hprio hpgn⟩,
    rejectsUnless_of_decodesWhen TPCMFrame.decodesWhen,
    rejectsUnless_of_decodesWhen TPDTFrame.decodesWhen,
    rejectsUnless_of_decodesWhen RequestFrame.decodesWhen,
    fun _ hnot length => TPCMFrame.encode_unknown hnot length⟩

/-- A request to send 1785 bytes. -/
def requestToSend : TPCMFrame :=
  { TPCMFrame.new with
    priority := 7
    ctrlType := ctrlTpcmRts
    totalMsgSize := 1785
    totalPackets := 255
    maxPackets := 16
    dataPgn := 0xFEEC }

/-- A request for the vehicle identification. -/
def vinRequestFrame : RequestFrame := { RequestFrame.new with requestPGN := 0xFEEC }

theorem requestToSend_roundTrip :
    (∃ bytes, RoundTripsTo requestToSend bytes requestToSend.SameContent) ∧
      (∃ bytes, RoundTripsTo TPDTFrame.new bytes fun g =>
        g.sq = TPDTFrame.new.sq ∧ g.data = TPDTFrame.new.data) ∧
      ∃ bytes, RoundTripsTo vinRequestFrame bytes fun g => g.requestPGN = 0xFEEC := by
  obtain ⟨hconn, hpacket, hrequest, -⟩ := protocol_roundTrip
  obtain ⟨bytes, hbytes, -⟩ := hconn requestToSend (by decide) (by decide) (by decide)
  exact ⟨⟨bytes, hbytes⟩, hpacket TPDTFrame.new (by decide),
    hrequest vinRequestFrame (by decide) (by decide)⟩

end J1939
