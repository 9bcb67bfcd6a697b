import J1939.BamPayload
import J1939.StringFrames
import J1939.TransportCodec

/-!
# A broadcast transfer is lossless

The fragments of a frame, encoded, decoded again and handled in order, make the
reassembler call the factory once, with the payload of the frame. It does not matter
what the reassembler has seen before and what other sources send in between.
-/

namespace J1939

open BamReassembler BamFragmenter

/-! ### The fragments -/

section Fragments

variable {F : Type} [IsJ1939Frame F]

/-- `addressed` on a frame of PDU format 1. -/
theorem addressed_eq {T : Type} [IsJ1939Frame T] (f : F) (t : T)
    (hfmt : getPDUFormatGroup (getPGN t) = .pduFormat1) :
    addressed f t = withHeader t
      { header t with
        priority := getPriority f &&& priorityMask
        srcAddr := getSrcAddr f
        dstAddr := broadcastAddress } := by
  unfold addressed setDstAddr setSrcAddr setPriority
  rw [if_pos (by simpa using hfmt)]
  simp

theorem packet_eq (f : F) (data : List UInt8) (k : ℕ) :
    packet f data k =
      { TPDTFrame.ofData (UInt8.ofNat (k + 1)) ((data.drop (tpDtPacketSize * k)).take
          (min tpDtPacketSize (data.length - tpDtPacketSize * k))) with
        priority := getPriority f &&& priorityMask
        srcAddr := getSrcAddr f
        dstAddr := broadcastAddress } :=
  addressed_eq f _ (by change getPDUFormatGroup tpDtPgn = _; decide)

theorem connFrame_eq (f : F) (cmFrame : TPCMFrame) :
    connFrame f cmFrame =
      { cmFrame.clear with
        ctrlType := ctrlTpcmBam
        dataPgn := getPGN f
        priority := getPriority f &&& priorityMask
        srcAddr := getSrcAddr f
        dstAddr := broadcastAddress } :=
  addressed_eq f _ (by change getPDUFormatGroup tpCmPgn = _; decide)

/-- The packets are stored in the order in which they are made. -/
theorem entries_packets {α : Type} (packets : ℕ → α) {count : ℕ} (hcount : count ≤ 255) :
    ((List.range count).foldl (fun m k => m.insert (UInt8.ofNat (k + 1)) (packets k))
        (∅ : SortedMap UInt8 α)).entries =
      (List.range count).map fun k => (UInt8.ofNat (k + 1), packets k) := by
  induction count with
  | zero => rfl
  | succ n ih =>
    rw [List.range_succ, List.foldl_append, List.foldl_cons, List.foldl_nil,
      SortedMap.entries_insert_of_lt, ih (by omega), List.map_append, List.map_singleton]
    intro e he
    rw [ih (by omega)] at he
    obtain ⟨k, hk, rfl⟩ := List.mem_map.mp he
    rw [List.mem_range] at hk
    rw [UInt8.lt_iff_toNat_lt, UInt8.toNat_ofNat', UInt8.toNat_ofNat']
    omega

/-- The connection frame of a fragmented frame. -/
def fragmentConn (f : F) (cmFrame : TPCMFrame) (length : ℕ) : TPCMFrame :=
  { connFrame f cmFrame with
    totalPackets := UInt8.ofNat (packetCount length)
    totalMsgSize := UInt16.ofNat length }

/-- The frames of a fragmenter in the order in which they are sent. -/
def transportFrames (fragmenter : BamFragmenter) : List Frame :=
  .tpcm fragmenter.getConnFrame :: fragmenter.getDataFrames.map .tpdt

theorem packetCount_le {length : ℕ} (h : length ≤ 1785) : packetCount length ≤ 255 := by
  simp only [packetCount, tpDtPacketSize]
  omega

/-- A long frame is split into its packets. -/
theorem fragment_eq {f : F} {encoded : Encoded} (fragmenter : BamFragmenter)
    (hencode : encode f (getDataLength f) = .ok encoded) (hmin : maxSize < encoded.length)
    (hmax : encoded.length ≤ 1785) :
    (fragmenter.fragment f).1 = .ok true ∧
      transportFrames (fragmenter.fragment f).2 =
        .tpcm (fragmentConn f fragmenter.cmFrame encoded.length) ::
          (List.range (packetCount encoded.length)).map fun k =>
            .tpdt (packet f encoded.buffer k) := by
  obtain ⟨-, -, -, -, hlength⟩ := encode_eq_ok_iff.mp hencode
  have hentries := entries_packets (packet f encoded.buffer) (packetCount_le hmax)
  rw [fragment, if_neg (by omega), hencode]
  refine ⟨rfl, ?_⟩
  simp only [transportFrames, getConnFrame, getDataFrames, SortedMap.values, SortedMap.size,
    hentries, List.length_map, List.length_range, List.map_map]
  rfl

/-- A packet holds its slice of the data, filled up. -/
theorem packet_toList (f : F) (data : List UInt8) (k : ℕ) :
    (packet f data k).data.toList =
      ((data.drop (tpDtPacketSize * k)).take tpDtPacketSize ++
        List.replicate tpDtPacketSize 0xFF).take tpDtPacketSize := by
  rw [packet_eq]
  change ((data.drop (tpDtPacketSize * k)).take
    (min tpDtPacketSize (data.length - tpDtPacketSize * k)) ++ _).take _ = _
  rw [← List.length_drop, ← List.take_take, List.take_length]

/-- Cut after the original length, the packets are the data. -/
theorem packets_data (data : List UInt8) (f : F) (count : ℕ) :
    ((List.range count).flatMap fun k => (packet f data k).data.toList).take data.length =
      data.take (tpDtPacketSize * count) := by
  have hlength : ∀ n, ((List.range n).flatMap fun k => (packet f data k).data.toList).length =
      tpDtPacketSize * n := by
    intro n
    induction n with
    | zero => rfl
    | succ n ih =>
      rw [List.range_succ, List.flatMap_append, List.length_append, ih, List.flatMap_singleton,
        List.Vector.toList_length, Nat.mul_succ]
  induction count with
  | zero => simp
  | succ n ih =>
    have hsize : tpDtPacketSize = 7 := rfl
    rw [List.range_succ, List.flatMap_append, List.take_append, ih, hlength, Nat.mul_succ,
      List.take_add, List.flatMap_singleton, packet_toList]
    congr 1
    -- the padding of a last, short packet is cut off
    rw [List.take_take]
    by_cases hfull : tpDtPacketSize ≤ data.length - tpDtPacketSize * n
    · rw [Nat.min_eq_right hfull, List.take_append_of_le_length
        (by rw [List.length_take, List.length_drop]; omega), List.take_take, Nat.min_self]
    · have hshort : ((data.drop (tpDtPacketSize * n)).take tpDtPacketSize).length =
          data.length - tpDtPacketSize * n := by
        rw [List.length_take, List.length_drop]
        omega
      rw [Nat.min_eq_left (by omega), ← hshort, List.take_left']
      rfl

end Fragments

/-! ### The link of the source -/

section Link

variable {factory : J1939Factory}

/-- The packets that still have to come after `received` of them. -/
structure Follows (c : TPCMFrame) (received : ℕ) (dts : List TPDTFrame) : Prop where
  sqs : dts.map (fun dt => dt.sq.toNat) = List.range' (received + 1) dts.length
  broadcast : ∀ dt ∈ dts, dt.dstAddr = broadcastAddress
  total : received + dts.length = c.totalPackets.toNat

theorem Follows.tail {c : TPCMFrame} {received : ℕ} {dt : TPDTFrame} {dts : List TPDTFrame}
    (h : Follows c received (dt :: dts)) : Follows c (received + 1) dts where
  sqs := by
    have hsqs := h.sqs
    rw [List.map_cons, List.length_cons, List.range'_succ, List.cons.injEq] at hsqs
    exact hsqs.2
  broadcast := fun dt' hdt' => h.broadcast dt' (List.mem_cons_of_mem _ hdt')
  total := by
    have htotal := h.total
    rw [List.length_cons] at htotal
    omega

/-- The next packet is accepted. -/
theorem Follows.accepts {b : BAMFragments} (hb : b.Numbered) {dt : TPDTFrame}
    {dts : List TPDTFrame} (h : Follows b.cmFrame b.dtFrames.length (dt :: dts)) :
    accepts b (.tpdt dt) = some dt ∧ dt.sq.toNat = b.dtFrames.length + 1 := by
  have hsqs := h.sqs
  rw [List.map_cons, List.length_cons, List.range'_succ, List.cons.injEq] at hsqs
  have htotal := h.total
  rw [List.length_cons] at htotal
  have hle : dt.sq ≤ b.cmFrame.totalPackets := by
    rw [UInt8.le_iff_toNat_le, hsqs.1]
    omega
  have hexpects : expects b dt.sq := ⟨hle, by rw [hb.getLastSQ_toNat, hsqs.1]⟩
  exact ⟨accepts_eq_some_iff.mpr ⟨rfl, h.broadcast dt (List.mem_cons_self ..), hexpects⟩, hsqs.1⟩

/-- A link that gets its remaining packets calls the factory once, at the last one. -/
theorem link_packets {b : BAMFragments} (hb : b.Numbered) {dts : List TPDTFrame}
    (hfollows : Follows b.cmFrame b.dtFrames.length dts) (hne : dts ≠ [])
    {events : List BamEvent}
    (hevents : events.map BamEvent.frame = dts.map fun dt => some (.tpdt dt)) :
    ∃ heap, let full : BAMFragments := { b with dtFrames := b.dtFrames ++ dts }
      ((runMachine (linkStep factory) (some b) events).2.filterMap Prod.snd =
          [deliveryOf full heap]) ∧
        (runMachine (linkStep factory) (some b) events).1 =
          (finishLink factory heap full).session := by
  induction dts generalizing b events with
  | nil => exact absurd rfl hne
  | cons dt dts ih =>
    obtain _ | ⟨e, events⟩ := events
    · cases hevents
    rw [List.map_cons, List.map_cons, List.cons.injEq] at hevents
    obtain ⟨hframe, hevents⟩ := hevents
    obtain ⟨frame, heap⟩ | _ := e
    swap
    · cases hframe
    obtain rfl : frame = .tpdt dt := Option.some.inj hframe
    obtain ⟨haccepts, hsq⟩ := hfollows.accepts hb
    have hstep : stepLink factory heap (some b) (.tpdt dt) = extendLink factory heap b dt :=
      stepLink_of_accepts haccepts
    have hexpects := (accepts_eq_some_iff.mp haccepts).2.2
    have htotal := hfollows.total
    rw [List.length_cons] at htotal
    simp only [runMachine_cons, linkStep, hstep]
    by_cases hlast : dts = []
    · -- the last packet
      subst hlast
      obtain rfl : events = [] := List.map_eq_nil_iff.mp hevents
      have hdone : dt.sq = b.cmFrame.totalPackets := by
        apply UInt8.toNat_inj.mp
        rw [hsq, ← htotal]
        rfl
      refine ⟨heap, ?_⟩
      rw [extendLink, if_pos hdone, finishLink_call]
      exact ⟨rfl, rfl⟩
    · -- a packet in between
      have hmore : dt.sq ≠ b.cmFrame.totalPackets := by
        intro hdone
        have hpos := List.length_pos_iff.mpr hlast
        rw [← hdone, hsq] at htotal
        omega
      have hlength : (b.addDtFrame dt).dtFrames.length = b.dtFrames.length + 1 := by
        simp [BAMFragments.addDtFrame]
      have hnext : Follows (b.addDtFrame dt).cmFrame (b.addDtFrame dt).dtFrames.length dts := by
        rw [hlength]
        exact hfollows.tail
      obtain ⟨heap', hcalls, hsession⟩ := ih (hb.addDtFrame hexpects) hnext hlast hevents
      refine ⟨heap', ?_⟩
      rw [extendLink, if_neg hmore]
      simp only [BAMFragments.addDtFrame, List.append_assoc, List.singleton_append]
        at hcalls hsession
      exact ⟨hcalls, hsession⟩

/-- A link that gets a whole transfer, whatever its session was before. -/
theorem link_transfer (factory : J1939Factory) {c : TPCMFrame} {dts : List TPDTFrame}
    (hopens : opens (.tpcm c) = some c)
    (hfollows : Follows c 0 dts) (hne : dts ≠ []) (session : Option BAMFragments)
    {events : List BamEvent}
    (hevents : events.map BamEvent.frame = some (.tpcm c) :: dts.map fun dt => some (.tpdt dt)) :
    ∃ heap,
      ((runMachine (linkStep factory) session events).2.filterMap Prod.snd =
          [deliveryOf ⟨c, dts⟩ heap]) ∧
        (runMachine (linkStep factory) session events).1 =
          (finishLink factory heap ⟨c, dts⟩).session := by
  obtain _ | ⟨e, events⟩ := events
  · cases hevents
  rw [List.map_cons, List.cons.injEq] at hevents
  obtain ⟨hframe, hevents⟩ := hevents
  obtain ⟨frame, heap⟩ | _ := e
  swap
  · cases hframe
  obtain rfl : frame = .tpcm c := Option.some.inj hframe
  simp only [runMachine_cons, linkStep, stepLink_of_opens hopens]
  exact link_packets (BAMFragments.numbered_new c) hfollows hne hevents

end Link

/-! ### The whole transfer -/

/-- The identifier handed to the factory holds priority, PGN and source address. -/
theorem newId_toNat {c : TPCMFrame} (hpgn : c.dataPgn ≤ 0x3FFFF) :
    (newId c).toNat =
      (getSrcAddr c).toNat + c.dataPgn.toNat * 2 ^ 8 +
        (getPriority c &&& priorityMask).toNat * 2 ^ 26 := by
  have hsrc := (getSrcAddr c).toNat_lt
  have hprio : (getPriority c &&& priorityMask).toNat < 8 := by
    rw [UInt8.toNat_and]
    exact Nat.and_lt_two_pow _ (n := 3) (by decide)
  have hlt : c.dataPgn.toNat ≤ 262143 := UInt32.le_iff_toNat_le.mp hpgn
  have hmask : ((getSrcAddr c).toUInt32 &&& srcAddrMask).toNat = (getSrcAddr c).toNat := by
    rw [Bits.toNat_low _ srcAddrMask (w := 8) rfl, UInt8.toNat_toUInt32]
    omega
  have hlow : (((getSrcAddr c).toUInt32 &&& srcAddrMask) ||| (c.dataPgn <<< pgnOffset)).toNat =
      (getSrcAddr c).toNat + c.dataPgn.toNat * 2 ^ 8 := by
    rw [Bits.toNat_or_shiftLeft _ _ pgnOffset (by decide) (by rw [hmask]; exact hsrc)
      (by change _ * 2 ^ 8 < _; omega), hmask]
    rfl
  have horder : newId c =
      (((getSrcAddr c).toUInt32 &&& srcAddrMask) ||| (c.dataPgn <<< pgnOffset)) |||
        ((getPriority c &&& priorityMask).toUInt32 <<< priorityOffset) := by
    rw [newId, UInt32.or_comm, ← UInt32.or_assoc]
    rw [UInt32.or_comm (_ ||| _) (c.dataPgn <<< pgnOffset),
      UInt32.or_comm _ (c.dataPgn <<< pgnOffset), UInt32.or_assoc]
  rw [horder, Bits.toNat_or_shiftLeft _ _ priorityOffset (by decide)
    (by rw [hlow]; change _ < 2 ^ 26; omega)
    (by rw [UInt8.toNat_toUInt32]; change _ * 2 ^ 26 < _; omega), hlow, UInt8.toNat_toUInt32]
  rfl

/-- Whatever the announced PGN is, the identifier holds its low 18 bits. -/
theorem identifierPgn_newId (c : TPCMFrame) : identifierPgn (newId c) = c.dataPgn &&& pgnMask := by
  apply UInt32.toNat_inj.mp
  apply Nat.eq_of_testBit_eq
  intro i
  have hmask : ∀ j, pgnMask.toNat.testBit j = decide (j < 18) :=
    fun j => Nat.testBit_two_pow_sub_one 18 j
  have hlow : ((getSrcAddr c).toUInt32 &&& srcAddrMask).toNat.testBit (8 + i) = false := by
    rw [Bits.toNat_low _ srcAddrMask (w := 8) rfl, Nat.testBit_mod_two_pow]
    simp
  have hhigh : i < 18 → ((getPriority c &&& priorityMask).toUInt32 <<<
      priorityOffset).toNat.testBit (8 + i) = false := by
    intro hi
    rw [UInt32.toNat_shiftLeft, Nat.testBit_mod_two_pow, Nat.testBit_shiftLeft]
    have hlt : ¬26 ≤ 8 + i := by omega
    simp [hlt]
  have hmiddle : i < 18 → (c.dataPgn <<< pgnOffset).toNat.testBit (8 + i) =
      c.dataPgn.toNat.testBit i := by
    intro hi
    rw [UInt32.toNat_shiftLeft, Nat.testBit_mod_two_pow, Nat.testBit_shiftLeft]
    have hlt : 8 + i < 32 := by omega
    simp [hlt]
  rw [identifierPgn, UInt32.toNat_and, UInt32.toNat_and, Nat.testBit_and, Nat.testBit_and, hmask,
    UInt32.toNat_shiftRight]
  by_cases hi : i < 18
  · have hshift : ((newId c).toNat >>> (pgnOffset.toNat % 32)).testBit i =
        (newId c).toNat.testBit (8 + i) := Nat.testBit_shiftRight _
    rw [hshift, newId, UInt32.toNat_or, UInt32.toNat_or, Nat.testBit_or, Nat.testBit_or, hlow,
      hhigh hi, hmiddle hi]
    simp
  · simp [hi]

theorem srcAddr_newId (c : TPCMFrame) (h : Header) :
    (receivedHeader h (newId c)).srcAddr = getSrcAddr c := by
  have hsrc := (getSrcAddr c).toNat_lt
  apply UInt8.toNat_inj.mp
  rw [receivedHeader_srcAddr_toNat]
  have hlow : (newId c).toNat % 2 ^ 8 = ((getSrcAddr c).toUInt32 &&& srcAddrMask).toNat := by
    rw [newId, UInt32.toNat_or, UInt32.toNat_or, Nat.or_mod_two_pow, Nat.or_mod_two_pow,
      UInt32.toNat_shiftLeft, UInt32.toNat_shiftLeft, Bits.toNat_low _ srcAddrMask (w := 8) rfl]
    have hprio : ((getPriority c &&& priorityMask).toUInt32.toNat <<<
        (priorityOffset.toNat % 32)) % 2 ^ 32 % 2 ^ 8 = 0 := by
      rw [Nat.shiftLeft_eq]
      change _ * 2 ^ 26 % 2 ^ 32 % 2 ^ 8 = 0
      omega
    have hpgn : (c.dataPgn.toNat <<< (pgnOffset.toNat % 32)) % 2 ^ 32 % 2 ^ 8 = 0 := by
      rw [Nat.shiftLeft_eq]
      change _ * 2 ^ 8 % 2 ^ 32 % 2 ^ 8 = 0
      omega
    rw [hprio, hpgn, Nat.zero_or, Nat.zero_or, Nat.mod_mod]
  refine hlow.trans ?_
  rw [Bits.toNat_low _ srcAddrMask (w := 8) rfl, UInt8.toNat_toUInt32, Nat.mod_eq_of_lt hsrc]

/-- The calls of the factory that a run makes for the frames of a source. -/
def callsFor (s : UInt8) (out : List (BamEvent × Option FactoryCall)) : List FactoryCall :=
  (out.filter fun o => o.1.source = some s).filterMap Prod.snd

section Transfer

variable {F : Type} [IsJ1939Frame F] {f : F} {data : List UInt8}

/-- The connection frame that arrives. -/
def arrivedConn (p : TPCMFrame) (f : F) (fragmenter : BamFragmenter) (length : ℕ) : TPCMFrame :=
  receivedConn p (fragmentConn f fragmenter.cmFrame length)

/-- The packets that arrive. -/
def arrivedPackets (q : TPDTFrame) (f : F) (data : List UInt8) : List TPDTFrame :=
  (List.range (packetCount data.length)).map fun k => receivedPacket q (packet f data k)

/-- The frames that arrive, in order. -/
def arrivedFrames (p : TPCMFrame) (q : TPDTFrame) (f : F) (fragmenter : BamFragmenter)
    (data : List UInt8) : List Frame :=
  .tpcm (arrivedConn p f fragmenter data.length) :: (arrivedPackets q f data).map .tpdt

theorem opens_arrivedConn (p : TPCMFrame) (f : F) (fragmenter : BamFragmenter) (length : ℕ) :
    opens (.tpcm (arrivedConn p f fragmenter length)) =
      some (arrivedConn p f fragmenter length) := by
  refine opens_eq_some_iff.mpr ⟨rfl, ?_, ?_⟩
  · change (connFrame f fragmenter.cmFrame).ctrlType = _
    rw [connFrame_eq]
  · change (connFrame f fragmenter.cmFrame).dstAddr = _
    rw [connFrame_eq]

theorem follows_arrivedPackets (p : TPCMFrame) (q : TPDTFrame) (f : F)
    (fragmenter : BamFragmenter) (hmax : data.length ≤ 1785) :
    Follows (arrivedConn p f fragmenter data.length) 0 (arrivedPackets q f data) := by
  have hcount := packetCount_le hmax
  have hlength : (arrivedPackets q f data).length = packetCount data.length := by
    simp [arrivedPackets]
  refine ⟨?_, ?_, ?_⟩
  · rw [hlength, List.range'_eq_map_range]
    simp only [arrivedPackets, List.map_map]
    apply List.map_congr_left
    intro k hk
    rw [List.mem_range] at hk
    have hsq : (receivedPacket q (packet f data k)).sq = UInt8.ofNat (k + 1) := by
      rw [packet_eq]
      rfl
    simp only [Function.comp_apply, hsq, UInt8.toNat_ofNat']
    omega
  · intro dt hdt
    obtain ⟨k, -, rfl⟩ := List.mem_map.mp hdt
    rw [packet_eq]
    rfl
  · have htotal : (arrivedConn p f fragmenter data.length).totalPackets =
        UInt8.ofNat (packetCount data.length) := rfl
    rw [hlength, htotal, UInt8.toNat_ofNat']
    omega

/-- The payload put together from the packets that arrive is the data. -/
theorem payload_arrived (p : TPCMFrame) (q : TPDTFrame) (f : F) (fragmenter : BamFragmenter)
    (hmax : data.length ≤ 1785) (heap : Memory) :
    (deliveryOf ⟨arrivedConn p f fragmenter data.length, arrivedPackets q f data⟩ heap).payload =
      data := by
  set b : BAMFragments := ⟨arrivedConn p f fragmenter data.length, arrivedPackets q f data⟩
  have hsize : b.cmFrame.totalMsgSize.toNat = data.length := by
    change (UInt16.ofNat data.length).toNat = data.length
    rw [UInt16.toNat_ofNat']
    omega
  have hreceived : b.received = (List.range (packetCount data.length)).flatMap fun k =>
      (packet f data k).data.toList := by
    simp only [BAMFragments.received, b, arrivedPackets, List.flatMap_map]
    rfl
  have hcount : data.length ≤ tpDtPacketSize * packetCount data.length := by
    simp only [packetCount, tpDtPacketSize]
    omega
  have hlength : b.received.length = tpDtPacketSize * packetCount data.length := by
    rw [b.length_received]
    simp [b, arrivedPackets]
  have htake := payload_eq_take (b := b) heap (by omega)
  rw [hsize, hreceived, packets_data, List.take_of_length_le hcount] at htake
  exact htake

theorem dataPgn_arrivedConn (p : TPCMFrame) (f : F) (fragmenter : BamFragmenter) (length : ℕ) :
    (arrivedConn p f fragmenter length).dataPgn = getPGN f &&& 0xFFFFFF := by
  change (connFrame f fragmenter.cmFrame).dataPgn &&& 0xFFFFFF = _
  rw [connFrame_eq]

theorem srcAddr_arrivedConn (p : TPCMFrame) (f : F) (fragmenter : BamFragmenter) (length : ℕ) :
    getSrcAddr (arrivedConn p f fragmenter length) = getSrcAddr f := by
  change (connFrame f fragmenter.cmFrame).srcAddr = _
  rw [connFrame_eq]

/-- The fields of the identifier handed to the factory. -/
theorem newId_arrivedConn (p : TPCMFrame) (fragmenter : BamFragmenter) (length : ℕ)
    (hprio : getPriority f ≤ 7) (hpgn : getPGN f ≤ 0x3FFFF) :
    let id := newId (arrivedConn p f fragmenter length)
    identifierPgn id = getPGN f ∧ ∀ h, (receivedHeader h id).priority = getPriority f ∧
      (receivedHeader h id).srcAddr = getSrcAddr f := by
  intro id
  have hmask : getPriority f &&& priorityMask = getPriority f := (priority_masked_iff _).mpr hprio
  have hpgnNat : (getPGN f).toNat ≤ 262143 := UInt32.le_iff_toNat_le.mp hpgn
  have hconnPgn : (arrivedConn p f fragmenter length).dataPgn = getPGN f := by
    rw [dataPgn_arrivedConn]
    apply UInt32.toNat_inj.mp
    rw [Bits.toNat_low _ 0xFFFFFF (w := 24) rfl]
    omega
  have hconnSrc := srcAddr_arrivedConn p f fragmenter length
  have hconnPrio : getPriority (arrivedConn p f fragmenter length) = getPriority f := by
    change (connFrame f fragmenter.cmFrame).priority = _
    rw [connFrame_eq]
    exact hmask
  have hid : id.toNat = _ := newId_toNat (c := arrivedConn p f fragmenter length)
    (by rw [hconnPgn]; exact hpgn)
  rw [hconnPgn, hconnSrc, hconnPrio, hmask] at hid
  have hsrc := (getSrcAddr f).toNat_lt
  have hprioNat : (getPriority f).toNat ≤ 7 := UInt8.le_iff_toNat_le.mp hprio
  refine ⟨?_, fun h => ⟨?_, ?_⟩⟩
  · apply UInt32.toNat_inj.mp
    rw [identifierPgn_toNat, hid]
    omega
  · apply UInt8.toNat_inj.mp
    rw [receivedHeader_priority_toNat, hid]
    omega
  · apply UInt8.toNat_inj.mp
    rw [receivedHeader_srcAddr_toNat, hid]
    omega

/-- A broadcast transfer is lossless. The fragments of a frame with a payload of 9 to
1785 bytes, encoded, decoded and handled in order, make any reassembler call the
factory once, with that payload and the fields of the frame, whatever other events
come in between. The session is closed then, unless that call throws. -/
theorem bam_transfer_lossless {factory : J1939Factory} {p : TPCMFrame} {q : TPDTFrame}
    (hfactory : TransportRegistered factory p q) {encoded : Encoded}
    (hencode : encode f (getDataLength f) = .ok encoded) (hprio : getPriority f ≤ 7)
    (hpgn : getPGN f ≤ 0x3FFFF) (hmin : 9 ≤ encoded.buffer.length)
    (hmax : encoded.buffer.length ≤ 1785) (fragmenter : BamFragmenter) :
    (fragmenter.fragment f).1 = .ok true ∧
      ∃ (sent : List Encoded) (received : List Frame),
        List.Forall₂ (fun t e => encode t maxSize = .ok e)
          (transportFrames (fragmenter.fragment f).2) sent ∧
        List.Forall₂ (fun e t => e.buffer.length = maxSize ∧ ∀ beyond,
          (factory.getJ1939Frame e.identifier e.buffer.length).value
            (Memory.ofList e.buffer beyond) = .ok (some t)) sent received ∧
        ∀ (r : BamReassembler) (events : List BamEvent),
          (events.filter fun e => e.source = some (getSrcAddr f)).map BamEvent.frame =
              received.map some →
            ∃ call, callsFor (getSrcAddr f) (bamRun factory r events).2 = [call] ∧
              call.payload = encoded.buffer ∧ call.length = encoded.buffer.length ∧
              identifierPgn call.id = getPGN f ∧
              (∀ h, (receivedHeader h call.id).priority = getPriority f ∧
                (receivedHeader h call.id).srcAddr = getSrcAddr f) ∧
              ((∀ x, (factory.getJ1939Frame call.id call.length).value call.data ≠ .error x) →
                (bamRun factory r events).1.fragments.find? (getSrcAddr f) = none) := by
  obtain ⟨-, -, -, -, hlength⟩ := encode_eq_ok_iff.mp hencode
  have hbuffer := length_encode hencode
  have hsame : encoded.length = encoded.buffer.length := hlength.trans hbuffer.symm
  obtain ⟨hfragment, hframes⟩ := fragment_eq fragmenter hencode
    (by rw [hsame]; exact hmin) (by rw [hsame]; exact hmax)
  have hmask : getPriority f &&& priorityMask = getPriority f := (priority_masked_iff _).mpr hprio
  set c := fragmentConn f fragmenter.cmFrame encoded.length with hc
  have hctrl : c.ctrlType = ctrlTpcmBam := by
    change (connFrame f fragmenter.cmFrame).ctrlType = _
    rw [connFrame_eq]
  have hconnPrio : getPriority c ≤ 7 := by
    change (connFrame f fragmenter.cmFrame).priority ≤ 7
    rw [connFrame_eq]
    exact hmask.symm ▸ hprio
  have hpacketPrio : ∀ k, getPriority (packet f encoded.buffer k) ≤ 7 := by
    intro k
    rw [packet_eq]
    exact hmask.symm ▸ hprio
  refine ⟨hfragment, encodedConn c :: (List.range (packetCount encoded.buffer.length)).map
      (fun k => encodedPacket (packet f encoded.buffer k)),
    arrivedFrames p q f fragmenter encoded.buffer, ?_, ?_, ?_⟩
  · rw [hframes, hsame]
    refine List.Forall₂.cons (encode_tpcm hctrl hconnPrio) ?_
    rw [List.forall₂_map_left_iff, List.forall₂_map_right_iff, List.forall₂_same]
    exact fun k _ => encode_tpdt (hpacketPrio k)
  · rw [arrivedFrames, arrivedPackets, List.map_map]
    refine List.Forall₂.cons ⟨rfl, fun beyond => ?_⟩ ?_
    · rw [arrivedConn, ← hsame]
      exact decode_tpcm hfactory (encode_tpcm hctrl hconnPrio) hctrl beyond
    · rw [List.forall₂_map_left_iff, List.forall₂_map_right_iff, List.forall₂_same]
      intro k _
      exact ⟨length_encode (encode_tpdt (hpacketPrio k)), fun beyond =>
        decode_tpdt hfactory (encode_tpdt (hpacketPrio k)) beyond⟩
  · intro r events hevents
    have hne : arrivedPackets q f encoded.buffer ≠ [] := by
      have hpos : 0 < (arrivedPackets q f encoded.buffer).length := by
        simp only [arrivedPackets, List.length_map, List.length_range, packetCount, tpDtPacketSize]
        omega
      exact List.ne_nil_of_length_pos hpos
    have hlinkEvents : ((bamLinks factory).inputsOf (getSrcAddr f) events).map BamEvent.frame =
        some (.tpcm (arrivedConn p f fragmenter encoded.buffer.length)) ::
          (arrivedPackets q f encoded.buffer).map fun dt => some (.tpdt dt) := by
      rw [arrivedFrames, List.map_cons, List.map_map] at hevents
      exact hevents
    obtain ⟨heap, hcalls, hsession⟩ := link_transfer factory
      (opens_arrivedConn p f fragmenter _) (follows_arrivedPackets p q f fragmenter hmax) hne
      (r.fragments.find? (getSrcAddr f)) hlinkEvents
    have hview := (bamLinks factory).view_run (getSrcAddr f) (s := r) trivial events
    have hstate := congrArg Prod.fst hview
    have hout := congrArg Prod.snd hview
    obtain ⟨hidPgn, hidHeader⟩ := newId_arrivedConn p fragmenter encoded.buffer.length hprio hpgn
    refine ⟨_, ?_, payload_arrived p q f fragmenter hmax heap, ?_, hidPgn, hidHeader, ?_⟩
    · rw [← hcalls]
      exact congrArg (List.filterMap Prod.snd) hout
    · change (UInt16.ofNat encoded.buffer.length).toNat = _
      rw [UInt16.toNat_ofNat']
      omega
    · intro hok
      refine hstate.trans (hsession.trans ?_)
      rw [finishLink_eq]
      split
      · next x hx => exact absurd hx (hok x)
      · rfl

/-- A vehicle identification number, longer than one CAN frame. -/
def vehicleIdentification : GenericFrame :=
  GenericFrame.registerSPN { pgn := 0xFEEC, priority := 6, srcAddr := 0x10 }
    (.string
      { spec := vehicleNumber
        value := [0x57, 0x41, 0x55, 0x5A, 0x5A, 0x5A, 0x38, 0x4B, 0x39, 0x41] })

/-- Its two packets bring it to the factory. -/
theorem vehicleIdentification_lossless :
    ∃ (sent : List Encoded) (received : List Frame),
      List.Forall₂ (fun t e => encode t maxSize = .ok e)
        (transportFrames (fragment {} vehicleIdentification).2) sent ∧
      ∀ (r : BamReassembler) (events : List BamEvent),
        (events.filter fun e => e.source = some 0x10).map BamEvent.frame = received.map some →
          ∃ call, callsFor 0x10 (bamRun J1939Factory.new r events).2 = [call] ∧
            call.payload =
              [0x57, 0x41, 0x55, 0x5A, 0x5A, 0x5A, 0x38, 0x4B, 0x39, 0x41, strTerminator] := by
  have hencode : encode vehicleIdentification (getDataLength vehicleIdentification) =
      .ok ⟨0x18FEEC10, [0x57, 0x41, 0x55, 0x5A, 0x5A, 0x5A, 0x38, 0x4B, 0x39, 0x41,
        strTerminator], 11⟩ := by
    decide
  obtain ⟨-, sent, received, hsent, -, hrun⟩ := bam_transfer_lossless
    (transportRegistered_registerFrames []) hencode (by decide) (by decide) (by decide)
    (by decide) {}
  refine ⟨sent, received, hsent, fun r events hevents => ?_⟩
  obtain ⟨call, hcalls, hpayload, -⟩ := hrun r events hevents
  exact ⟨call, hcalls, hpayload⟩

end Transfer

end J1939
