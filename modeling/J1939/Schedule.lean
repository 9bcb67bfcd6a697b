import J1939.BamTransfer
import J1939.Can

/-!
# The rings of a schedule

A long frame is scheduled as a ring of its connection frame and its packets, a short one as
a ring of one CAN frame. Scheduling replaces a ring with the same identifiers.
-/

namespace J1939

open BamReassembler BamFragmenter CommonCanSender

/-! ### The CAN frames of a message -/

/-- The CAN frame of an encoded frame. -/
def Encoded.toCan (e : Encoded) : CanFrame := ⟨e.identifier, e.buffer.take e.length⟩

theorem encodeCan_eq {F : Type} [IsJ1939Frame F] {f : F} {e : Encoded}
    (h : encode f (getDataLength f) = .ok e) : encodeCan f = .ok e.toCan := by
  rw [encodeCan, h]
  rfl

/-- A frame that needs a broadcast transfer, encoded. -/
structure Message where
  frame : Frame
  encoded : Encoded
  encodes : encode frame (getDataLength frame) = .ok encoded
  long : maxCanDataSize < encoded.buffer.length
  le_max : encoded.buffer.length ≤ 1785

namespace Message

variable (m : Message)

/-- The payload. -/
def data : List UInt8 := m.encoded.buffer

/-- The source address. -/
def source : UInt8 := getSrcAddr m.frame

theorem length_eq : m.encoded.length = m.data.length := by
  obtain ⟨-, -, -, -, hlength⟩ := encode_eq_ok_iff.mp m.encodes
  exact hlength.trans (length_encode m.encodes).symm

theorem getDataLength_eq : getDataLength m.frame = m.data.length :=
  (length_encode m.encodes).symm

/-- The priority that the transport frames take over. -/
theorem masked_priority_le : getPriority m.frame &&& priorityMask ≤ 7 := by
  obtain ⟨hprio, -⟩ := encode_eq_ok_iff.mp m.encodes
  rw [(priority_masked_iff _).mpr hprio]
  exact hprio

/-- The connection frame. -/
def conn : TPCMFrame := fragmentConn m.frame TPCMFrame.new m.data.length

/-- The packets. -/
def packets : List TPDTFrame := (List.range (packetCount m.data.length)).map (packet m.frame m.data)

theorem conn_encodes : encode m.conn tpCmSize = .ok (encodedConn m.conn) := by
  refine encode_tpcm ?_ ?_
  · change (connFrame m.frame TPCMFrame.new).ctrlType = _
    rw [connFrame_eq]
  · change (connFrame m.frame TPCMFrame.new).priority ≤ 7
    rw [connFrame_eq]
    exact m.masked_priority_le

theorem packet_encodes {dt : TPDTFrame} (h : dt ∈ m.packets) :
    encode dt bamDtSize = .ok (encodedPacket dt) := by
  obtain ⟨k, -, rfl⟩ := List.mem_map.mp h
  refine encode_tpdt ?_
  change (packet m.frame m.data k).priority ≤ 7
  rw [packet_eq]
  exact m.masked_priority_le

/-- What the bus carries for a message. -/
def canFrames : List CanFrame :=
  (encodedConn m.conn).toCan :: m.packets.map fun dt => (encodedPacket dt).toCan

theorem length_packets : m.packets.length = packetCount m.data.length := by simp [packets]

theorem packets_ne_nil : m.packets ≠ [] := by
  have hlong : 8 < m.data.length := m.long
  apply List.ne_nil_of_length_pos
  rw [length_packets]
  simp only [packetCount, tpDtPacketSize]
  omega

end Message

theorem mapM_encodeCan {dts : List TPDTFrame}
    (h : ∀ dt ∈ dts, encode dt bamDtSize = .ok (encodedPacket dt)) :
    dts.mapM encodeCan = .ok (dts.map fun dt => (encodedPacket dt).toCan) := by
  induction dts with
  | nil => rfl
  | cons dt dts ih =>
    rw [List.forall_mem_cons] at h
    rw [List.mapM_cons, encodeCan_eq h.1, ih h.2]
    rfl

/-- The fragmenter splits a message into its connection frame and its packets. -/
theorem Message.exists_fragmenter (m : Message) :
    ∃ fragmenter, ({} : BamFragmenter).fragment m.frame = (.ok true, fragmenter) ∧
      fragmenter.getConnFrame = m.conn ∧ fragmenter.getDataFrames = m.packets := by
  obtain ⟨hfragment, hframes⟩ := fragment_eq {} m.encodes
    (by rw [m.length_eq]; exact m.long) (by rw [m.length_eq]; exact m.le_max)
  generalize ({} : BamFragmenter).fragment m.frame = res at hfragment hframes
  obtain ⟨ret, fragmenter⟩ := res
  simp only at hfragment hframes
  rw [transportFrames, m.length_eq, List.cons.injEq, Frame.tpcm.injEq] at hframes
  obtain ⟨hconn, hpackets⟩ := hframes
  refine ⟨fragmenter, by rw [hfragment], hconn, ?_⟩
  refine List.map_injective_iff.mpr (fun _ _ => Frame.tpdt.inj) (hpackets.trans ?_)
  rw [Message.packets, List.map_map]
  rfl

theorem encodeBam_eq (m : Message) : encodeBam m.frame = .ok m.canFrames := by
  obtain ⟨fragmenter, hfragment, hconn, hdata⟩ := m.exists_fragmenter
  have hcan : encodeCan fragmenter.getConnFrame = .ok (encodedConn m.conn).toCan := by
    rw [hconn]
    exact encodeCan_eq m.conn_encodes
  simp only [encodeBam, hfragment, hcan, hdata, mapM_encodeCan fun _ => m.packet_encodes]
  rfl

/-- A long frame that can be encoded is a message. -/
theorem exists_message {frame : Frame} {canFrames : List CanFrame}
    (h : encodeBam frame = .ok canFrames) (hlong : maxCanDataSize < getDataLength frame)
    (hmax : getDataLength frame ≤ 1785) :
    ∃ m : Message, m.frame = frame ∧ canFrames = m.canFrames := by
  cases hencode : encode frame (getDataLength frame) with
  | error e =>
    have hfragment : (({} : BamFragmenter).fragment frame).1 = .error e := by
      have hle : ¬getDataLength frame ≤ maxSize := not_le.mpr hlong
      rw [fragment, if_neg hle, hencode]
    rw [encodeBam] at h
    generalize ({} : BamFragmenter).fragment frame = res at hfragment h
    obtain ⟨ret, fragmenter⟩ := res
    simp only at hfragment
    rw [hfragment] at h
    cases h
  | ok encoded =>
    have hlength := length_encode hencode
    let m : Message := ⟨frame, encoded, hencode, by rwa [hlength], by rwa [hlength]⟩
    exact ⟨m, rfl, Except.ok.inj (h.symm.trans (encodeBam_eq m))⟩

/-! ### One turn of a ring -/

namespace CanFrameRing

theorem frames_shift (ring : CanFrameRing) : ring.shift.frames = ring.frames := by
  unfold shift
  split_ifs <;> rfl

theorem period_shift (ring : CanFrameRing) : ring.shift.period = ring.period := by
  unfold shift
  split_ifs <;> rfl

theorem currentPos_shift {ring : CanFrameRing} (h : ring.currentPos < ring.frames.length) :
    ring.shift.currentPos =
      if ring.currentPos + 1 = ring.frames.length then 0 else ring.currentPos + 1 := by
  rw [shift, if_neg h.ne]
  split_ifs <;> rfl

/-- In its turn a ring sends nothing, or its current frame. -/
theorem tick_cases (now : Timespec) (ring : CanFrameRing) :
    ring.tick now = (ring, none) ∨
      (ring.tick now).2 = ring.getCurrentFrame ∧ (ring.tick now).1.frames = ring.frames ∧
        (ring.tick now).1.currentPos = ring.shift.currentPos := by
  unfold tick
  by_cases hdue : ring.isDue now
  · rw [if_pos hdue]
    simp only
    refine Or.inr ?_
    split_ifs
    · exact ⟨rfl, ring.frames_shift, rfl⟩
    · exact ⟨rfl, ring.frames_shift, rfl⟩
  · rw [if_neg hdue]
    exact Or.inl rfl

theorem frames_tick (now : Timespec) (ring : CanFrameRing) :
    (ring.tick now).1.frames = ring.frames := by
  rcases ring.tick_cases now with h | ⟨-, h, -⟩
  · rw [h]
  · exact h

theorem period_tick (now : Timespec) (ring : CanFrameRing) :
    (ring.tick now).1.period = ring.period := by
  unfold tick
  split_ifs
  · simp only
    split_ifs <;> exact ring.period_shift
  · rfl

end CanFrameRing

theorem frames_passRings (now : Timespec) (rings : List CanFrameRing) :
    (passRings now rings).1.map CanFrameRing.frames = rings.map CanFrameRing.frames := by
  induction rings with
  | nil => rfl
  | cons ring rings ih =>
    rw [passRings, List.map_cons, List.map_cons, ih, CanFrameRing.frames_tick]

/-! ### The rings -/

/-- The base object of a transport frame for all nodes. -/
def transportBase (pgn : UInt32) (priority srcAddr : UInt8) : J1939Frame where
  pgn := pgn
  priority := priority &&& priorityMask
  srcAddr := srcAddr
  dstAddr := broadcastAddress

/-- The identifier of a transport frame for all nodes. -/
def transportId (pgn : UInt32) (priority srcAddr : UInt8) : UInt32 :=
  (transportBase pgn priority srcAddr).getIdentifier

/-- The identifiers do not depend on the payload, but on the number of packets. -/
theorem Message.ids_canFrames (m : Message) :
    m.canFrames.map CanFrame.id =
      transportId tpCmPgn (getPriority m.frame) m.source ::
        List.replicate (packetCount m.data.length)
          (transportId tpDtPgn (getPriority m.frame) m.source) := by
  have hconn : getIdentifier m.conn = transportId tpCmPgn (getPriority m.frame) m.source := by
    rw [conn, fragmentConn, connFrame_eq]
    rfl
  have hpacket : ∀ k, getIdentifier (packet m.frame m.data k) =
      transportId tpDtPgn (getPriority m.frame) m.source := by
    intro k
    rw [packet_eq]
    rfl
  rw [canFrames, packets, List.map_cons, List.map_map, List.map_map, ← List.length_range
    (n := packetCount m.data.length), ← List.map_const', List.length_range]
  exact congrArg₂ List.cons hconn (List.map_congr_left fun k _ => hpacket k)

/-- A transport identifier gives back the priority and the source address. -/
theorem transportId_inj {pgn : UInt32} (hpgn : constructorAssertion pgn) (hlt : pgn ≤ 0x3FFFF)
    {priority priority' source source' : UInt8} (hprio : priority &&& priorityMask ≤ 7)
    (hprio' : priority' &&& priorityMask ≤ 7)
    (h : transportId pgn priority source = transportId pgn priority' source') :
    priority &&& priorityMask = priority' &&& priorityMask ∧ source = source' := by
  have hread := receivedHeader_getIdentifier (b := transportBase pgn priority source) {} hprio hpgn
    hlt
  have hread' := receivedHeader_getIdentifier (b := transportBase pgn priority' source') {} hprio'
    hpgn hlt
  have hid : (transportBase pgn priority source).getIdentifier =
      (transportBase pgn priority' source').getIdentifier := h
  rw [hid] at hread
  exact ⟨hread.1.symm.trans hread'.1, hread.2.1.symm.trans hread'.2.1⟩

/-- The source address of a ring of more than one frame. -/
def ringSource (frames : List CanFrame) : Option UInt8 :=
  match frames.map CanFrame.id with
  | id :: _ :: _ => some (id &&& srcAddrMask).toUInt8
  | _ => none

theorem ringSource_congr {frames frames' : List CanFrame}
    (h : frames.map CanFrame.id = frames'.map CanFrame.id) :
    ringSource frames = ringSource frames' := by
  rw [ringSource, ringSource, h]

theorem Message.ringSource_canFrames (m : Message) : ringSource m.canFrames = some m.source := by
  have hsrc : (transportId tpCmPgn (getPriority m.frame) m.source &&& srcAddrMask).toUInt8 =
      m.source := by
    have hpgn : constructorAssertion tpCmPgn := by decide
    have hlt : tpCmPgn ≤ 0x3FFFF := by decide
    obtain ⟨-, hsrc, -⟩ := receivedHeader_getIdentifier
      (b := transportBase tpCmPgn (getPriority m.frame) m.source) {} m.masked_priority_le hpgn hlt
    exact hsrc
  have hpos := List.length_pos_iff.mpr m.packets_ne_nil
  rw [length_packets] at hpos
  obtain ⟨count, hcount⟩ := Nat.exists_eq_succ_of_ne_zero (Nat.pos_iff_ne_zero.mp hpos)
  rw [ringSource, ids_canFrames, hcount, List.replicate_succ]
  exact congrArg some hsrc

/-- The rings are not those of two messages of one source. -/
def Apart (frames₁ frames₂ : List CanFrame) : Prop :=
  ∀ s, ringSource frames₁ = some s → ringSource frames₂ ≠ some s

/-- The rings that scheduled frames leave in the sender. -/
inductive Scheduled (frames : List Frame) : List CanFrame → Prop
  | short {frame : Frame} {canFrame : CanFrame} (hmem : frame ∈ frames)
      (hshort : getDataLength frame ≤ maxCanDataSize) (hcan : encodeCan frame = .ok canFrame) :
      Scheduled frames [canFrame]
  | long (m : Message) (hmem : m.frame ∈ frames) : Scheduled frames m.canFrames

theorem Scheduled.mono {frames frames' : List Frame} (h : frames ⊆ frames')
    {canFrames : List CanFrame} (hscheduled : Scheduled frames canFrames) :
    Scheduled frames' canFrames := by
  cases hscheduled with
  | short hmem hshort hcan => exact .short (h hmem) hshort hcan
  | long m hmem => exact .long m (h hmem)

/-- A ring with a source is that of a message. -/
theorem Scheduled.exists_message {frames : List Frame} {canFrames : List CanFrame}
    (h : Scheduled frames canFrames) {s : UInt8} (hs : ringSource canFrames = some s) :
    ∃ m : Message, canFrames = m.canFrames ∧ m.frame ∈ frames := by
  cases h with
  | short => cases hs
  | long m hmem => exact ⟨m, rfl, hmem⟩

/-- Two long frames of one source have the same identifiers, so that the later one takes
the place of the earlier one. -/
def Compatible (frame₁ frame₂ : Frame) : Prop :=
  maxCanDataSize < getDataLength frame₁ → maxCanDataSize < getDataLength frame₂ →
    getSrcAddr frame₁ = getSrcAddr frame₂ →
      getPriority frame₁ = getPriority frame₂ ∧
        packetCount (getDataLength frame₁) = packetCount (getDataLength frame₂)

instance (frame₁ frame₂ : Frame) : Decidable (Compatible frame₁ frame₂) :=
  inferInstanceAs (Decidable (_ → _ → _ → _))

theorem Message.ids_of_compatible {m m' : Message} (h : Compatible m'.frame m.frame)
    (hsource : m'.source = m.source) :
    m'.canFrames.map CanFrame.id = m.canFrames.map CanFrame.id := by
  obtain ⟨hprio, hcount⟩ := h (m'.getDataLength_eq ▸ m'.long) (m.getDataLength_eq ▸ m.long) hsource
  rw [getDataLength_eq, getDataLength_eq] at hcount
  rw [ids_canFrames, ids_canFrames, hprio, hcount, hsource]

/-- The rings of a sender that has been given compatible frames. -/
structure RingsOf (frames : List Frame) (rings : List CanFrameRing) : Prop where
  scheduled : ∀ ring ∈ rings, ring.currentPos = 0 ∧ Scheduled frames ring.frames
  apart : (rings.map CanFrameRing.frames).Pairwise Apart

theorem ringsOf_nil (frames : List Frame) : RingsOf frames [] :=
  ⟨by simp, List.Pairwise.nil⟩

theorem RingsOf.mono {frames frames' : List Frame} (h : frames ⊆ frames')
    {rings : List CanFrameRing} (hrings : RingsOf frames rings) : RingsOf frames' rings :=
  ⟨fun ring hring => ⟨(hrings.scheduled ring hring).1, (hrings.scheduled ring hring).2.mono h⟩,
    hrings.apart⟩

/-- Erasing the first element of a kind leaves none, if no two of the kind are related. -/
theorem not_of_mem_eraseP {α : Type} {R : α → α → Prop} {p : α → Prop} [DecidablePred p]
    (hkind : ∀ a b, p a → p b → ¬R a b) {l : List α} (h : l.Pairwise R) :
    ∀ a ∈ l.eraseP (fun a => p a), ¬p a := by
  induction h with
  | nil => simp
  | @cons b l hb _ ih =>
    intro a ha hpa
    by_cases hpb : p b
    · rw [List.eraseP_cons_of_pos (by simpa using hpb)] at ha
      exact hkind b a hpb hpa (hb a ha)
    · rw [List.eraseP_cons_of_neg (by simpa using hpb), List.mem_cons] at ha
      rcases ha with rfl | ha
      · exact hpb hpa
      · exact ih a ha hpa

/-- A ring is added, and the ring with the same identifiers erased. -/
theorem RingsOf.send_frames {frames : List Frame} {sender : CommonCanSender}
    (h : RingsOf frames sender.frameRings) {canFrames : List CanFrame}
    (hscheduled : Scheduled frames canFrames)
    (hapart : ∀ ring ∈ sender.frameRings,
      ring.frames.map CanFrame.id ≠ canFrames.map CanFrame.id → Apart ring.frames canFrames)
    (period : UInt32) : RingsOf frames (sender.sendFrames canFrames period).frameRings := by
  unfold sendFrames
  by_cases hnil : canFrames = []
  · rwa [if_pos hnil]
  rw [if_neg hnil]
  constructor
  · intro ring hring
    rw [List.mem_append, List.mem_singleton] at hring
    rcases hring with hring | rfl
    · exact h.scheduled ring (List.mem_of_mem_eraseP hring)
    · exact ⟨rfl, hscheduled⟩
  · rw [List.map_append, List.pairwise_append]
    refine ⟨h.apart.sublist (List.eraseP_sublist.map _), List.pairwise_singleton _ _, ?_⟩
    simp only [List.map_cons, List.map_nil, List.mem_singleton, forall_eq, List.forall_mem_map]
    intro ring hring s hs
    refine hapart ring (List.mem_of_mem_eraseP hring) (fun hids => ?_) s hs
    -- with the same identifiers it would have been erased
    refine not_of_mem_eraseP (fun a b ha hb hab => ?_) (List.pairwise_map.mp h.apart) ring hring
      hids
    rw [← hids] at ha hb
    exact hab s ((ringSource_congr ha).trans hs) ((ringSource_congr hb).trans hs)

/-- One more compatible frame is scheduled. -/
theorem RingsOf.send_frame {frames : List Frame} {sender : CommonCanSender}
    (h : RingsOf frames sender.frameRings) {frame : Frame} (hmax : getDataLength frame ≤ 1785)
    (hcompatible : ∀ frame' ∈ frames, Compatible frame' frame)
    {period : UInt32} {sender' : CommonCanSender} {sent : List CanFrame}
    (hsend : sendFrameThroughInterface sender frame period = .ok (sender', sent)) :
    RingsOf (frames ++ [frame]) sender'.frameRings := by
  have hmem : frame ∈ frames ++ [frame] := by simp
  have hmono := h.mono (List.subset_append_left frames [frame])
  unfold sendFrameThroughInterface at hsend
  by_cases hlong : maxCanDataSize < getDataLength frame
  · rw [if_pos hlong] at hsend
    cases hbam : encodeBam frame with
    | error e =>
      rw [hbam] at hsend
      cases hsend
    | ok canFrames =>
      rw [hbam] at hsend
      cases hsend
      obtain ⟨m, rfl, rfl⟩ := exists_message hbam hlong hmax
      refine hmono.send_frames (.long m hmem) (fun ring hring hids => ?_) period
      intro s hs hs'
      obtain ⟨m', hm', hmem'⟩ := (h.scheduled ring hring).2.exists_message hs
      rw [hm', Message.ringSource_canFrames] at hs
      rw [Message.ringSource_canFrames] at hs'
      have hsource : m'.source = m.source := Option.some.inj (hs.trans hs'.symm)
      rw [hm'] at hids
      exact hids (Message.ids_of_compatible (hcompatible _ hmem') hsource)
  · rw [if_neg hlong] at hsend
    cases hcan : encodeCan frame with
    | error e =>
      rw [hcan] at hsend
      cases hsend
    | ok canFrame =>
      rw [hcan] at hsend
      change (if period = 0 then _ else _) = _ at hsend
      by_cases hperiod : period = 0
      · rw [if_pos hperiod] at hsend
        cases hsend
        exact hmono
      · rw [if_neg hperiod] at hsend
        cases hsend
        refine hmono.send_frames (.short hmem (not_lt.mp hlong) hcan) (fun _ _ _ s _ hs => ?_)
          period
        cases hs

/-- Compatible frames leave compatible rings. -/
theorem RingsOf.schedule_frames {frames : List Frame} {sender : CommonCanSender}
    (h : RingsOf frames sender.frameRings) {sched : List (Frame × UInt32)}
    (hmax : ∀ e ∈ sched, getDataLength e.1 ≤ 1785)
    (hcompatible : (frames ++ sched.map Prod.fst).Pairwise Compatible) :
    RingsOf (frames ++ sched.map Prod.fst) (schedule sender sched).1.frameRings := by
  induction sched generalizing frames sender with
  | nil => simpa [schedule] using h
  | cons e sched ih =>
    obtain ⟨frame, period⟩ := e
    rw [List.forall_mem_cons] at hmax
    rw [List.map_cons, List.append_cons] at hcompatible ⊢
    have hbefore : ∀ frame' ∈ frames, Compatible frame' frame := by
      have hfirst := (List.pairwise_append.mp hcompatible).1
      exact fun frame' hmem' => (List.pairwise_append.mp hfirst).2.2 frame' hmem' frame (by simp)
    rw [schedule]
    cases hsend : sendFrameThroughInterface sender frame period with
    | error e => exact ih (h.mono (List.subset_append_left _ _)) hmax.2 hcompatible
    | ok next =>
      obtain ⟨sender', sent⟩ := next
      exact ih (h.send_frame hmax.1 hbefore hsend) hmax.2 hcompatible

end J1939
