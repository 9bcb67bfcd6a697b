import J1939.Schedule

/-!
# Periodic sending

The rings of a sender advance independently, so that the bus carries the packets of
different messages mixed. As long as every source address has one message at most, the
session that a ring is about to continue is the one that its own frames have opened.
-/

namespace J1939

open BamReassembler BamFragmenter CommonCanSender

/-! ### The packets of a session -/

section Link

variable {c : TPCMFrame} {dts : List TPDTFrame}

theorem Follows.drop (h : Follows c 0 dts) {k : ℕ} (hk : k ≤ dts.length) :
    Follows c k (dts.drop k) := by
  induction k with
  | zero => exact h
  | succ k ih =>
    have hdrop := ih (by omega)
    rw [List.drop_eq_getElem_cons (by omega)] at hdrop
    exact hdrop.tail

theorem Follows.numbered_take (h : Follows c 0 dts) {k : ℕ} (hk : k ≤ dts.length) :
    BAMFragments.Numbered ⟨c, dts.take k⟩ := by
  have hlength : (dts.take k).length = k := List.length_take_of_le hk
  have htotal := h.total
  constructor
  · change (dts.take k).map (fun dt => dt.sq.toNat) = List.range' 1 (dts.take k).length
    rw [List.map_take, h.sqs, hlength, List.take_range'_of_length_ge hk]
  · change (dts.take k).length ≤ c.totalPackets.toNat
    omega

/-- A session that has the first packets gets the next one. -/
theorem Follows.stepLink_getElem (h : Follows c 0 dts) {k : ℕ} (hk : k < dts.length)
    (factory : J1939Factory) (heap : Memory) :
    stepLink factory heap (some ⟨c, dts.take k⟩) (.tpdt dts[k]) =
      if k + 1 = dts.length then finishLink factory heap ⟨c, dts⟩
      else ⟨some ⟨c, dts.take (k + 1)⟩, none, none⟩ := by
  have hlength : (dts.take k).length = k := List.length_take_of_le hk.le
  have hnext : Follows c (dts.take k).length (dts[k] :: dts.drop (k + 1)) := by
    rw [hlength, ← List.drop_eq_getElem_cons hk]
    exact h.drop hk.le
  obtain ⟨haccepts, hsq⟩ := hnext.accepts (h.numbered_take hk.le)
  have hadd : BAMFragments.addDtFrame ⟨c, dts.take k⟩ dts[k] = ⟨c, dts.take (k + 1)⟩ := by
    rw [BAMFragments.addDtFrame, List.take_add_one, List.getElem?_eq_getElem hk]
    rfl
  have hlast : dts[k].sq = c.totalPackets ↔ k + 1 = dts.length := by
    have htotal := h.total
    rw [← UInt8.toNat_inj, hsq, hlength, ← htotal]
    omega
  rw [stepLink_of_accepts haccepts, extendLink, hadd]
  by_cases hdone : k + 1 = dts.length
  · rw [if_pos (hlast.mpr hdone), if_pos hdone, hdone, List.take_length]
  · rw [if_neg fun hsame => hdone (hlast.mp hsame), if_neg hdone]

end Link

/-! ### What a receiver makes of a CAN frame -/

section Receive

variable {factory : J1939Factory} {r : BamReassembler} {x : Reception}

/-- A decoded frame moves the link of its source. -/
theorem receive_of_value {frame : Frame}
    (h : (factory.getJ1939Frame x.id x.length).value x.memory = .ok (some frame)) :
    (receive factory r x).2 =
        (stepLink factory x.heap (r.fragments.find? (getSrcAddr frame)) frame).call ∧
      ∀ s, (receive factory r x).1.fragments.find? s =
        if s = getSrcAddr frame then
          (stepLink factory x.heap (r.fragments.find? (getSrcAddr frame)) frame).session
        else r.fragments.find? s := by
  have hmove := handleFrame_movesLink factory x.heap r frame
  simp only [receive, h]
  exact ⟨hmove.call, hmove.session⟩

/-- A CAN frame that the factory does not make a transport frame for all nodes of. -/
def Quiet (factory : J1939Factory) (canFrame : CanFrame) : Prop :=
  ∀ beyond frame, (factory.getJ1939Frame canFrame.id canFrame.data.length).value
    (Memory.ofList canFrame.data beyond) = .ok (some frame) → toBeHandled frame = false

/-- A CAN frame under another PGN is none. -/
theorem quiet_of_lookupPgn {canFrame : CanFrame} (hcm : lookupPgn canFrame.id ≠ tpCmPgn)
    (hdt : lookupPgn canFrame.id ≠ tpDtPgn) : Quiet factory canFrame := by
  intro beyond frame hvalue
  rw [J1939Factory.getPGN_of_value hvalue] at hcm hdt
  rw [toBeHandled, if_neg hcm, decide_eq_false hdt, ite_self]

/-- What is not to be handled does not count. -/
theorem stepLink_of_not_toBeHandled {frame : Frame} (h : toBeHandled frame = false)
    (heap : Memory) (session : Option BAMFragments) :
    stepLink factory heap session frame = ⟨session, none, none⟩ := by
  unfold toBeHandled at h
  unfold stepLink
  by_cases hdst : getDstAddr frame ≠ broadcastAddress
  · rw [if_pos hdst]
  rw [if_neg hdst] at h ⊢
  by_cases hcm : getPGN frame = tpCmPgn
  · rw [if_pos hcm] at h ⊢
    rw [connLink, if_neg (of_decide_eq_false h)]
  · rw [if_neg hcm] at h ⊢
    rw [if_neg (of_decide_eq_false h)]

theorem receive_of_quiet (h : Quiet factory x.frame) :
    (receive factory r x).2 = none ∧
      ∀ s, (receive factory r x).1.fragments.find? s = r.fragments.find? s := by
  cases hvalue : (factory.getJ1939Frame x.id x.length).value x.memory with
  | error e => simp [receive, hvalue]
  | ok decoded =>
    cases decoded with
    | none => simp [receive, hvalue]
    | some frame =>
      obtain ⟨hcall, hlinks⟩ := receive_of_value (r := r) hvalue
      rw [stepLink_of_not_toBeHandled (h x.beyond frame hvalue)] at hcall hlinks
      refine ⟨hcall, fun s => (hlinks s).trans ?_⟩
      split_ifs with hs
      · rw [hs]
      · rfl

end Receive

/-- The call of the factory with the payload of a frame, under its PGN and source address.
An identifier has 18 bits for the PGN. -/
structure Delivers (frame : Frame) (call : FactoryCall) : Prop where
  payload : ∃ encoded, encode frame (getDataLength frame) = .ok encoded ∧
    call.payload = encoded.buffer
  pgn : identifierPgn call.id = getPGN frame &&& pgnMask
  srcAddr : ∀ h, (receivedHeader h call.id).srcAddr = getSrcAddr frame

namespace Message

variable (p : TPCMFrame) (q : TPDTFrame) (m : Message)

/-- The session of a receiver that has got the connection frame and some packets. -/
def session (received : ℕ) : BAMFragments :=
  ⟨arrivedConn p m.frame {} m.data.length, (m.packets.map (receivedPacket q)).take received⟩

theorem arrivedPackets_eq :
    arrivedPackets q m.frame m.data = m.packets.map (receivedPacket q) := by
  rw [arrivedPackets, packets, List.map_map]
  rfl

theorem follows_packets :
    Follows (arrivedConn p m.frame {} m.data.length) 0 (m.packets.map (receivedPacket q)) := by
  rw [← arrivedPackets_eq]
  exact follows_arrivedPackets p q m.frame {} m.le_max

/-- The complete session is handed to the factory as the message. -/
theorem delivers (heap : Memory) :
    Delivers m.frame
      (deliveryOf ⟨arrivedConn p m.frame {} m.data.length, m.packets.map (receivedPacket q)⟩
        heap) := by
  refine ⟨⟨m.encoded, m.encodes, ?_⟩, ?_, fun h => ?_⟩
  · rw [← arrivedPackets_eq]
    exact payload_arrived p q m.frame {} m.le_max heap
  · refine (identifierPgn_newId _).trans ?_
    have hmask : (0xFFFFFF : UInt32) &&& pgnMask = pgnMask := by decide
    rw [dataPgn_arrivedConn, UInt32.and_assoc, hmask]
  · exact (srcAddr_newId _ h).trans (srcAddr_arrivedConn p m.frame {} m.data.length)

variable {p q m} {factory : J1939Factory} {r : BamReassembler} {x : Reception}

/-- The connection frame opens the session of the source. -/
theorem receive_conn (hfactory : TransportRegistered factory p q)
    (hx : x.frame = (encodedConn m.conn).toCan) :
    (receive factory r x).2 = none ∧
      ∀ s, (receive factory r x).1.fragments.find? s =
        if s = m.source then some (m.session p q 0) else r.fragments.find? s := by
  have hctrl : m.conn.ctrlType = ctrlTpcmBam := by
    change (connFrame m.frame TPCMFrame.new).ctrlType = _
    rw [connFrame_eq]
  have hvalue : (factory.getJ1939Frame x.id x.length).value x.memory =
      .ok (some (.tpcm (arrivedConn p m.frame {} m.data.length))) := by
    rw [Reception.id, Reception.length, Reception.memory, hx]
    exact decode_tpcm hfactory m.conn_encodes hctrl x.beyond
  obtain ⟨hcall, hlinks⟩ := receive_of_value (r := r) hvalue
  rw [stepLink_of_opens (opens_arrivedConn p m.frame {} m.data.length)] at hcall hlinks
  have hsource : getSrcAddr (Frame.tpcm (arrivedConn p m.frame {} m.data.length)) = m.source :=
    srcAddr_arrivedConn p m.frame {} m.data.length
  rw [hsource] at hlinks
  exact ⟨hcall, hlinks⟩

/-- The next packet continues the session of the source; the last one delivers the
message. -/
theorem receive_packet (hfactory : TransportRegistered factory p q) {k : ℕ}
    (hk : k < m.packets.length) (hx : x.frame = (encodedPacket m.packets[k]).toCan)
    (hlink : r.fragments.find? m.source = some (m.session p q k)) :
    (∀ call, (receive factory r x).2 = some call → Delivers m.frame call) ∧
      (k + 1 < m.packets.length →
        (receive factory r x).1.fragments.find? m.source = some (m.session p q (k + 1))) ∧
      ∀ s, s ≠ m.source →
        (receive factory r x).1.fragments.find? s = r.fragments.find? s := by
  have hencodes := m.packet_encodes (List.getElem_mem hk)
  have hdata : (encodedPacket m.packets[k]).toCan.data = (encodedPacket m.packets[k]).buffer :=
    List.take_of_length_le (length_encode hencodes).le
  have hvalue : (factory.getJ1939Frame x.id x.length).value x.memory =
      .ok (some (.tpdt (receivedPacket q m.packets[k]))) := by
    rw [Reception.id, Reception.length, Reception.memory, hx, hdata]
    exact decode_tpdt hfactory hencodes x.beyond
  have hsource : getSrcAddr (Frame.tpdt (receivedPacket q m.packets[k])) = m.source := by
    obtain ⟨j, -, hj⟩ := List.mem_map.mp (List.getElem_mem hk)
    rw [← hj, packet_eq]
    rfl
  have hk' : k < (m.packets.map (receivedPacket q)).length := by rwa [List.length_map]
  have hstep : stepLink factory x.heap (some (m.session p q k))
      (.tpdt (receivedPacket q m.packets[k])) =
        if k + 1 = m.packets.length then
          finishLink factory x.heap
            ⟨arrivedConn p m.frame {} m.data.length, m.packets.map (receivedPacket q)⟩
        else ⟨some (m.session p q (k + 1)), none, none⟩ := by
    have hgeneral := (m.follows_packets p q).stepLink_getElem hk' factory x.heap
    simp only [List.getElem_map, List.length_map] at hgeneral
    exact hgeneral
  obtain ⟨hcall, hlinks⟩ := receive_of_value (r := r) hvalue
  rw [hsource, hlink, hstep] at hcall hlinks
  refine ⟨fun call hsome => ?_, fun hmore => ?_, fun s hs => ?_⟩
  · rw [hcall] at hsome
    by_cases hlast : k + 1 = m.packets.length
    · rw [if_pos hlast, finishLink_call] at hsome
      obtain rfl := Option.some.inj hsome
      exact m.delivers p q x.heap
    · rw [if_neg hlast] at hsome
      cases hsome
  · rw [hlinks, if_pos rfl, if_neg hmore.ne]
  · rw [hlinks, if_neg hs]

end Message

/-! ### The turns of a pass -/

/-- What the links of a receiver have of the message that a ring is about to continue. -/
inductive Tracked (factory : J1939Factory) (p : TPCMFrame) (q : TPDTFrame) (frames : List Frame)
    (links : UInt8 → Option BAMFragments) (ring : CanFrameRing) : Prop
  | short {canFrame : CanFrame} (hframes : ring.frames = [canFrame]) (hpos : ring.currentPos = 0)
      (hquiet : Quiet factory canFrame)
  | long (m : Message) (hmem : m.frame ∈ frames) (hframes : ring.frames = m.canFrames)
      (hpos : ring.currentPos < ring.frames.length)
      (hsession : ∀ k, ring.currentPos = k + 1 → links m.source = some (m.session p q k))

section Turns

variable {factory : J1939Factory} {p : TPCMFrame} {q : TPDTFrame} {frames : List Frame}

/-- Only the link of its source matters to a ring. -/
theorem Tracked.congr {links links' : UInt8 → Option BAMFragments} {ring : CanFrameRing}
    (h : Tracked factory p q frames links ring)
    (hlinks : ∀ s, ringSource ring.frames = some s → links' s = links s) :
    Tracked factory p q frames links' ring := by
  cases h with
  | short hframes hpos hquiet => exact .short hframes hpos hquiet
  | long m hmem hframes hpos hsession =>
    refine .long m hmem hframes hpos fun k hk => ?_
    rw [hlinks m.source (by rw [hframes, m.ringSource_canFrames])]
    exact hsession k hk

theorem Tracked.currentPos_lt {links : UInt8 → Option BAMFragments} {ring : CanFrameRing}
    (h : Tracked factory p q frames links ring) : ring.currentPos < ring.frames.length := by
  cases h with
  | short hframes hpos =>
    rw [hpos, hframes]
    exact Nat.one_pos
  | long m _ _ hpos => exact hpos

/-- A ring that sends nothing stays as it is. -/
theorem Tracked.idle {links : UInt8 → Option BAMFragments} {ring : CanFrameRing}
    (h : Tracked factory p q frames links ring) {now : Timespec}
    (hnone : (ring.tick now).2 = none) : (ring.tick now).1 = ring := by
  rcases ring.tick_cases now with hidle | ⟨hsent, -, -⟩
  · rw [hidle]
  · rw [hnone, CanFrameRing.getCurrentFrame, List.getElem?_eq_getElem h.currentPos_lt] at hsent
    cases hsent

/-- The frame that a ring sends keeps the ring tracked, and touches no link but that of its
source. What it delivers is a scheduled message. -/
theorem Tracked.turn (hfactory : TransportRegistered factory p q) {r : BamReassembler}
    {ring : CanFrameRing} (h : Tracked factory p q frames r.fragments.find? ring) {now : Timespec}
    {x : Reception} (hx : (ring.tick now).2 = some x.frame) :
    Tracked factory p q frames (receive factory r x).1.fragments.find? (ring.tick now).1 ∧
      (∀ s, ringSource ring.frames ≠ some s →
        (receive factory r x).1.fragments.find? s = r.fragments.find? s) ∧
      ∀ call, (receive factory r x).2 = some call → ∃ frame ∈ frames, Delivers frame call := by
  have hlt := h.currentPos_lt
  rcases ring.tick_cases now with hidle | ⟨hsent, hframes', hpos'⟩
  · rw [hidle] at hx
    cases hx
  rw [hsent, CanFrameRing.getCurrentFrame] at hx
  cases h with
  | @short canFrame hframes hpos hquiet =>
    obtain rfl : canFrame = x.frame := by
      rw [hframes, hpos] at hx
      exact Option.some.inj hx
    have hshift : ring.shift.currentPos = 0 := by
      rw [CanFrameRing.currentPos_shift hlt, if_pos]
      rw [hpos, hframes]
      rfl
    obtain ⟨hcall, hlinks⟩ := @receive_of_quiet factory r x hquiet
    refine ⟨.short (hframes'.trans hframes) (hpos'.trans hshift) hquiet, fun s _ => hlinks s, ?_⟩
    intro call hsome
    rw [hcall] at hsome
    cases hsome
  | long m hmem hframes hpos hsession =>
    have hring : ringSource ring.frames = some m.source := by rw [hframes, m.ringSource_canFrames]
    have hlength : ring.frames.length = m.packets.length + 1 := by
      rw [hframes, Message.canFrames, List.length_cons, List.length_map]
    have hshift := hpos'.trans (CanFrameRing.currentPos_shift hpos)
    have hpackets := List.length_pos_iff.mpr m.packets_ne_nil
    have hnext : (ring.tick now).1.currentPos < (ring.tick now).1.frames.length := by
      rw [hframes', hshift]
      split_ifs <;> omega
    rw [hframes] at hx
    cases hcurrent : ring.currentPos with
    | zero =>
      -- the connection frame
      rw [hcurrent] at hx hshift
      obtain ⟨hcall, hlinks⟩ := @Message.receive_conn p q m factory r x hfactory
        (Option.some.inj hx).symm
      rw [if_neg (by omega)] at hshift
      refine ⟨.long m hmem (hframes'.trans hframes) hnext fun k hk => ?_, fun s hs => ?_, ?_⟩
      · obtain rfl : k = 0 := by omega
        rw [hlinks, if_pos rfl]
      · rw [hlinks, if_neg]
        rintro rfl
        exact hs hring
      · intro call hsome
        rw [hcall] at hsome
        cases hsome
    | succ k =>
      -- a packet
      rw [hcurrent] at hx hshift hpos
      have hk : k < m.packets.length := by omega
      have hpacket : x.frame = (encodedPacket m.packets[k]).toCan := by
        rw [Message.canFrames, List.getElem?_cons_succ, List.getElem?_map,
          List.getElem?_eq_getElem hk] at hx
        exact (Option.some.inj hx).symm
      obtain ⟨hdelivers, hsession', hothers⟩ := Message.receive_packet hfactory hk hpacket
        (hsession k hcurrent)
      refine ⟨.long m hmem (hframes'.trans hframes) hnext fun j hj => ?_, fun s hs => ?_, ?_⟩
      · by_cases hlast : k + 1 + 1 = ring.frames.length
        · rw [if_pos hlast] at hshift
          omega
        · rw [if_neg hlast] at hshift
          obtain rfl : j = k + 1 := by omega
          exact hsession' (by omega)
      · refine hothers s ?_
        rintro rfl
        exact hs hring
      · exact fun call hsome => ⟨m.frame, hmem, hdelivers call hsome⟩

/-- A pass over the rings that are still to come keeps all rings tracked. -/
theorem tracked_pass (hfactory : TransportRegistered factory p q) (now : Timespec)
    {done todo : List CanFrameRing} {r : BamReassembler} {xs : List Reception}
    (hrings : ∀ ring ∈ done ++ todo, Tracked factory p q frames r.fragments.find? ring)
    (hapart : ((done ++ todo).map CanFrameRing.frames).Pairwise Apart)
    (hxs : xs.map Reception.frame = (passRings now todo).2) :
    (∀ ring ∈ done ++ (passRings now todo).1,
        Tracked factory p q frames (runMachine (receive factory) r xs).1.fragments.find? ring) ∧
      ∀ call ∈ (runMachine (receive factory) r xs).2.filterMap Prod.snd,
        ∃ frame ∈ frames, Delivers frame call := by
  induction todo generalizing done r xs with
  | nil =>
    obtain rfl : xs = [] := List.map_eq_nil_iff.mp hxs
    exact ⟨hrings, by simp⟩
  | cons ring todo ih =>
    have hring := hrings ring (by simp)
    have hframes : ((done ++ [(ring.tick now).1] ++ todo).map CanFrameRing.frames) =
        (done ++ ring :: todo).map CanFrameRing.frames := by
      simp [CanFrameRing.frames_tick]
    rw [passRings] at hxs ⊢
    rw [← hframes] at hapart
    simp only at hxs ⊢
    rw [List.append_cons]
    cases hsent : (ring.tick now).2 with
    | none =>
      rw [hsent] at hxs
      refine ih (fun ring' hmem => hrings ring' ?_) hapart hxs
      rw [hring.idle hsent] at hmem
      simpa using hmem
    | some canFrame =>
      rw [hsent] at hxs
      obtain ⟨x, xs', rfl, rfl, htail⟩ := List.map_eq_cons_iff.mp hxs
      obtain ⟨hturn, hothers, hdelivers⟩ := hring.turn hfactory hsent
      rw [hframes] at hapart
      have hseparate : ∀ ring' ∈ done ++ todo, ∀ s, ringSource ring'.frames = some s →
          ringSource ring.frames ≠ some s := by
        rw [List.map_append, List.map_cons, List.pairwise_append, List.pairwise_cons] at hapart
        obtain ⟨-, ⟨hafter, -⟩, hbefore⟩ := hapart
        intro ring' hmem s hs hs'
        rcases List.mem_append.mp hmem with hmem | hmem
        · exact hbefore _ (List.mem_map_of_mem hmem) ring.frames (List.mem_cons_self ..) s hs hs'
        · exact hafter _ (List.mem_map_of_mem hmem) s hs' hs
      have htracked : ∀ ring' ∈ done ++ [(ring.tick now).1] ++ todo,
          Tracked factory p q frames (receive factory r x).1.fragments.find? ring' := by
        have hkept : ∀ ring' ∈ done ++ todo,
            Tracked factory p q frames (receive factory r x).1.fragments.find? ring' := by
          intro ring' hmem
          have hmem' : ring' ∈ done ++ ring :: todo := by
            rw [List.mem_append] at hmem ⊢
            exact hmem.imp_right (List.mem_cons_of_mem ring)
          exact (hrings ring' hmem').congr fun s hs => hothers s (hseparate ring' hmem s hs)
        simp only [List.forall_mem_append, List.forall_mem_singleton] at hkept ⊢
        exact ⟨⟨hkept.1, hturn⟩, hkept.2⟩
      obtain ⟨hrest, hcalls⟩ := ih htracked (hframes ▸ hapart) htail
      refine ⟨hrest, fun call hcall => ?_⟩
      rw [runMachine_cons, List.filterMap_cons] at hcall
      cases hfirst : (receive factory r x).2 with
      | none =>
        rw [hfirst] at hcall
        exact hcalls call hcall
      | some call' =>
        rw [hfirst] at hcall
        rcases List.mem_cons.mp hcall with rfl | hcall
        · exact hdelivers call hfirst
        · exact hcalls call hcall

/-- A run over tracked rings delivers scheduled messages only. -/
theorem tracked_run (hfactory : TransportRegistered factory p q) {rings : List CanFrameRing}
    (hapart : (rings.map CanFrameRing.frames).Pairwise Apart) {clock : List Timespec}
    {r : BamReassembler}
    (hrings : ∀ ring ∈ rings, Tracked factory p q frames r.fragments.find? ring)
    {xs : List Reception} (hxs : xs.map Reception.frame = (run ⟨rings⟩ clock).2) :
    ∀ call ∈ (runMachine (receive factory) r xs).2.filterMap Prod.snd,
      ∃ frame ∈ frames, Delivers frame call := by
  induction clock generalizing rings r xs with
  | nil =>
    obtain rfl : xs = [] := List.map_eq_nil_iff.mp hxs
    simp
  | cons now clock ih =>
    obtain ⟨xs₁, xs₂, rfl, hpass, hrest⟩ := List.map_eq_append_iff.mp hxs
    obtain ⟨htracked, hcalls⟩ := @tracked_pass factory p q frames hfactory now [] rings r xs₁ hrings
      hapart hpass
    rw [List.nil_append] at htracked
    rw [runMachine_append, List.filterMap_append, List.forall_mem_append]
    exact ⟨hcalls, ih (by rwa [frames_passRings]) htracked hrest⟩

end Turns

/-- Periodic sending never mixes two messages. Let long frames of one source be scheduled
under the same identifiers only, so that one takes the place of the other, and let no short
frame be a transport frame itself. Then every payload that a receiver hands to the factory
is that of a scheduled frame, under its PGN and source address, whatever the clock and the
state of the receiver are. -/
theorem periodic_delivers {factory : J1939Factory} {p : TPCMFrame} {q : TPDTFrame}
    (hfactory : TransportRegistered factory p q) {sched : List (Frame × UInt32)}
    (hmax : ∀ e ∈ sched, getDataLength e.1 ≤ 1785)
    (hcompatible : (sched.map Prod.fst).Pairwise Compatible)
    (hquiet : ∀ e ∈ sched, getDataLength e.1 ≤ maxCanDataSize → ∀ canFrame,
      encodeCan e.1 = .ok canFrame → Quiet factory canFrame)
    (clock : List Timespec) (r : BamReassembler) {xs : List Reception}
    (hxs : xs.map Reception.frame = (run (schedule {} sched).1 clock).2) :
    ∀ call ∈ (runMachine (receive factory) r xs).2.filterMap Prod.snd,
      ∃ e ∈ sched, Delivers e.1 call := by
  have hrings : RingsOf (sched.map Prod.fst) (schedule {} sched).1.frameRings :=
    (ringsOf_nil []).schedule_frames hmax hcompatible
  have htracked : ∀ ring ∈ (schedule {} sched).1.frameRings,
      Tracked factory p q (sched.map Prod.fst) r.fragments.find? ring := by
    intro ring hmem
    obtain ⟨hpos, hscheduled⟩ := hrings.scheduled ring hmem
    generalize hframes : ring.frames = canFrames at hscheduled
    cases hscheduled with
    | short hframe hshort hcan =>
      obtain ⟨e, he, rfl⟩ := List.mem_map.mp hframe
      exact .short hframes hpos (hquiet e he hshort _ hcan)
    | long m hframe =>
      refine .long m hframe hframes ?_ fun k hk => ?_
      · rw [hpos, hframes]
        exact Nat.succ_pos _
      · rw [hpos] at hk
        cases hk
  intro call hcall
  obtain ⟨frame, hframe, hdelivers⟩ := tracked_run hfactory hrings.apart htracked hxs call hcall
  obtain ⟨e, he, rfl⟩ := List.mem_map.mp hframe
  exact ⟨e, he, hdelivers⟩

/-- The calls of the factory when a new receiver gets what a sender sends. -/
def callsOn (sched : List (Frame × UInt32)) (clock : List Timespec) : List FactoryCall :=
  (runMachine (receive J1939Factory.new) {} ((run (schedule {} sched).1 clock).2.map fun frame =>
    ⟨frame, fun _ => 0, fun _ => 0⟩)).2.filterMap Prod.snd

/-- A frame of one string under a PGN. -/
def stringFrame (pgn : UInt32) (srcAddr : UInt8) (value : List UInt8) : GenericFrame :=
  GenericFrame.registerSPN { pgn := pgn, priority := 6, srcAddr := srcAddr }
    (.string { spec := ⟨586, "Make", 0, by decide⟩, value := value })

/-- A component identification of 14 characters. -/
def componentIdentification (srcAddr : UInt8) : GenericFrame :=
  stringFrame 0xFEEB srcAddr
    [0x4D, 0x41, 0x4B, 0x45, 0x4D, 0x4F, 0x44, 0x45, 0x4C, 0x53, 0x45, 0x52, 0x49, 0x41]

/-- Two long frames of different sources and a short frame. -/
def separateSources : List (Frame × UInt32) :=
  [(.generic (componentIdentification 0x20), 1000), (.generic vehicleIdentification, 700),
    (.generic (stringFrame 0xFF10 0x10 [0x4F, 0x4B]), 100)]

/-- Both messages arrive, and nothing else. -/
theorem separateSources_deliver :
    (callsOn separateSources [⟨1, 0⟩, ⟨2, 0⟩, ⟨3, 0⟩, ⟨4, 0⟩]).length = 2 ∧
      ∀ call ∈ callsOn separateSources [⟨1, 0⟩, ⟨2, 0⟩, ⟨3, 0⟩, ⟨4, 0⟩],
        ∃ e ∈ separateSources, Delivers e.1 call := by
  refine ⟨by decide +kernel, periodic_delivers (transportRegistered_registerFrames []) (by decide)
    (by decide) (fun e he hshort canFrame hcan => ?_) [⟨1, 0⟩, ⟨2, 0⟩, ⟨3, 0⟩, ⟨4, 0⟩] {} ?_⟩
  · have hshortOnly : ∀ e ∈ separateSources, getDataLength e.1 ≤ maxCanDataSize →
        encodeCan e.1 = .ok ⟨0x18FF1010, [0x4F, 0x4B, strTerminator]⟩ := by decide
    rw [hshortOnly e he hshort] at hcan
    cases hcan
    have hcm : lookupPgn 0x18FF1010 ≠ tpCmPgn := by decide
    have hdt : lookupPgn 0x18FF1010 ≠ tpDtPgn := by decide
    exact quiet_of_lookupPgn hcm hdt
  · rw [List.map_map]
    exact List.map_id _

/-- Two long frames of one source with different numbers of packets. -/
def sameSource : List (Frame × UInt32) :=
  [(.generic (componentIdentification 0x10), 1000), (.generic vehicleIdentification, 1000)]

/-- The frames of a transfer, scheduled one by one. -/
def scheduledTransfer : List (Frame × UInt32) :=
  [(.tpcm
      { TPCMFrame.new with
        priority := 6
        srcAddr := 0x10
        dstAddr := broadcastAddress
        ctrlType := ctrlTpcmBam
        totalMsgSize := 7
        totalPackets := 1
        dataPgn := 0xFEEB }, 1000),
    (.tpdt
      { TPDTFrame.ofData 1 [0x4D, 0x41, 0x4B, 0x45, 0x4D, 0x4F, 0x44] with
        priority := 6
        srcAddr := 0x10
        dstAddr := broadcastAddress }, 1000)]

/-- A call with a payload that no scheduled frame has delivers none of them. -/
theorem exists_foreign {sched : List (Frame × UInt32)} {clock : List Timespec}
    {payload : List UInt8} (hcalls : (callsOn sched clock).map FactoryCall.payload = [payload])
    (hforeign : ∀ e ∈ sched,
      (encode e.1 (getDataLength e.1)).map Encoded.buffer ≠ .ok payload) :
    ∃ call ∈ callsOn sched clock, ∀ e ∈ sched, ¬Delivers e.1 call := by
  obtain ⟨call, hcall, hpayload⟩ : ∃ call ∈ callsOn sched clock, call.payload = payload := by
    rw [← List.mem_map, hcalls]
    exact List.mem_singleton_self _
  refine ⟨call, hcall, fun e he hdelivers => hforeign e he ?_⟩
  obtain ⟨encoded, hencode, hsame⟩ := hdelivers.payload
  rw [hencode, ← hpayload, hsame]
  rfl

/-- The packets of one message are taken for those of another message of its source, and
transport frames that are scheduled themselves are put together as well. -/
theorem periodic_mixes :
    (∃ call ∈ callsOn sameSource [⟨1, 0⟩, ⟨2, 0⟩, ⟨3, 0⟩],
        ∀ e ∈ sameSource, ¬Delivers e.1 call) ∧
      ∃ call ∈ callsOn scheduledTransfer [⟨1, 0⟩], ∀ e ∈ scheduledTransfer, ¬Delivers e.1 call :=
  ⟨@exists_foreign sameSource [⟨1, 0⟩, ⟨2, 0⟩, ⟨3, 0⟩]
      [0x4D, 0x41, 0x4B, 0x45, 0x4D, 0x4F, 0x44, 0x45, 0x4C, 0x53, 0x45]
      (by decide +kernel) (by decide),
    @exists_foreign scheduledTransfer [⟨1, 0⟩] [0x4D, 0x41, 0x4B, 0x45, 0x4D, 0x4F, 0x44]
      (by decide +kernel) (by decide)⟩

end J1939
