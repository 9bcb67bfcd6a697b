import J1939.BamPayload

/-!
# What the reassembler delivers

Over every run, the packets of an open session are the ones accepted since the
connection frame that opened it. A delivered payload consists of these packets
exactly when the connection frame did not announce more bytes than they hold.
-/

namespace J1939

open BamReassembler

/-- The broadcast BAM connection frame that an event hands over for a source. -/
def bamFrom (s : UInt8) : BamEvent → Option TPCMFrame
  | .handleFrame frame _ => if getSrcAddr frame = s then opens frame else none
  | .dequeueReassembledFrame => none

/-- The packet of a source that an event adds to the session of the source. -/
def acceptedFrom (s : UInt8) (session : Option BAMFragments) : BamEvent → Option TPDTFrame
  | .handleFrame frame _ =>
    if getSrcAddr frame = s then session.bind fun b => accepts b frame else none
  | .dequeueReassembledFrame => none

/-- The packets of a source that are accepted during a run. -/
def acceptedAlong (factory : J1939Factory) (s : UInt8) :
    BamReassembler → List BamEvent → List TPDTFrame
  | _, [] => []
  | r, e :: es =>
    (acceptedFrom s (r.fragments.find? s) e).toList ++
      acceptedAlong factory s (bamStep factory r e).1 es

section Steps

variable {factory : J1939Factory} {s : UInt8} {r : BamReassembler} {e : BamEvent}

/-- A connection frame opens a new session. -/
theorem session_of_bam {c : TPCMFrame} (h : bamFrom s e = some c) :
    (bamStep factory r e).1.fragments.find? s = some { cmFrame := c } := by
  cases e with
  | dequeueReassembledFrame => cases h
  | handleFrame frame heap =>
    obtain ⟨rfl, hopens⟩ := Option.ite_none_right_eq_some.mp h
    have hmove := handleFrame_movesLink factory heap r frame
    exact (hmove.session _).trans ((if_pos rfl).trans
      (congrArg LinkResult.session (stepLink_of_opens hopens)))

/-- Without a connection frame a session is extended by the accepted packet or closed. -/
theorem session_of_not_bam (hbam : bamFrom s e = none) {b' : BAMFragments}
    (h : (bamStep factory r e).1.fragments.find? s = some b') :
    ∃ b, r.fragments.find? s = some b ∧ b'.cmFrame = b.cmFrame ∧
      b'.dtFrames = b.dtFrames ++ (acceptedFrom s (r.fragments.find? s) e).toList := by
  cases e with
  | dequeueReassembledFrame => exact ⟨b', h, rfl, (List.append_nil _).symm⟩
  | handleFrame frame heap =>
    have hmove := (handleFrame_movesLink factory heap r frame).session s
    change (r.handleFrame factory heap frame).reassembler.fragments.find? s = some b' at h
    rw [hmove] at h
    by_cases hs : s = getSrcAddr frame
    · subst hs
      rw [if_pos rfl] at h
      rw [bamFrom, if_pos rfl] at hbam
      rw [acceptedFrom, if_pos rfl]
      rcases stepLink_cases factory heap (r.fragments.find? (getSrcAddr frame)) frame with
        ⟨c, hopens, -⟩ | ⟨b, dt, -, hfind, haccepts, hstep⟩ | ⟨-, haccepts, hstep⟩
      · rw [hbam] at hopens
        cases hopens
      · rw [hstep] at h
        rw [extendLink_session h, hfind]
        exact ⟨b, rfl, rfl, by simp [haccepts, BAMFragments.addDtFrame]⟩
      · rw [hstep] at h
        refine ⟨b', h, rfl, ?_⟩
        change r.fragments.find? (getSrcAddr frame) = some b' at h
        rw [h] at haccepts ⊢
        simp [haccepts b' rfl]
    · rw [if_neg hs] at h
      rw [acceptedFrom, if_neg (Ne.symm hs)]
      exact ⟨b', h, rfl, (List.append_nil _).symm⟩

/-- The factory is called exactly when a frame completes a session. -/
theorem call_eq_some_iff {call : FactoryCall} :
    (bamStep factory r e).2 = some call ↔
      ∃ frame heap b, e = .handleFrame frame heap ∧
        completed (r.fragments.find? (getSrcAddr frame)) frame = some b ∧
        call = deliveryOf b heap := by
  cases e with
  | dequeueReassembledFrame => simp [bamStep]
  | handleFrame frame heap =>
    have hmove := (handleFrame_movesLink factory heap r frame).call
    have hcall := hmove.trans (stepLink_call factory heap _ frame)
    change (r.handleFrame factory heap frame).call = some call ↔ _
    rw [hcall, Option.map_eq_some_iff]
    constructor
    · rintro ⟨b, hb, rfl⟩
      exact ⟨frame, heap, b, rfl, hb, rfl⟩
    · rintro ⟨_, _, b, he, hb, rfl⟩
      cases he
      exact ⟨b, hb, rfl⟩

/-- The packets of every session are the first ones, in order. -/
def AllNumbered (r : BamReassembler) : Prop :=
  ∀ s b, r.fragments.find? s = some b → b.Numbered

theorem bamStep_numbered (h : AllNumbered r) (e : BamEvent) :
    AllNumbered (bamStep factory r e).1 := by
  intro s b' hb'
  cases hbam : bamFrom s e with
  | some c =>
    rw [session_of_bam hbam] at hb'
    cases hb'
    exact BAMFragments.numbered_new c
  | none =>
    obtain ⟨b, hb, hcm, hdts⟩ := session_of_not_bam hbam hb'
    have hnumbered := h s b hb
    rw [hb] at hdts
    cases haccepted : acceptedFrom s (some b) e with
    | none =>
      rw [haccepted, Option.toList_none, List.append_nil] at hdts
      obtain ⟨hsqs, htotal⟩ := hnumbered
      exact ⟨by rwa [hdts], by rwa [hdts, hcm]⟩
    | some dt =>
      rw [haccepted, Option.toList_some] at hdts
      have hexpects : expects b dt.sq := by
        cases e with
        | dequeueReassembledFrame => cases haccepted
        | handleFrame frame heap =>
          obtain ⟨-, haccepts⟩ := Option.ite_none_right_eq_some.mp haccepted
          exact (accepts_eq_some_iff.mp haccepts).2.2
      have hadd := hnumbered.addDtFrame hexpects
      have heq : b' = b.addDtFrame dt := by
        cases b'
        simp only at hcm hdts
        rw [BAMFragments.addDtFrame, hcm, hdts]
      rw [heq]
      exact hadd

end Steps

section Runs

variable (factory : J1939Factory)

/-- In every reachable state the packets of each session are the first ones, in order. -/
theorem bamRun_numbered (events : List BamEvent) {s : UInt8} {b : BAMFragments}
    (h : (bamRun factory {} events).1.fragments.find? s = some b) : b.Numbered :=
  have hstep : ∀ r e, AllNumbered r → AllNumbered (bamStep factory r e).1 :=
    fun _ e hr => bamStep_numbered hr e
  have hfresh : AllNumbered {} := fun _ _ h => by cases h
  runMachine_invariant hstep hfresh events s b h

theorem bamRun_append (r : BamReassembler) (es es' : List BamEvent) :
    (bamRun factory r (es ++ es')).1 = (bamRun factory (bamRun factory r es).1 es').1 := by
  rw [bamRun, runMachine_append]

theorem bamRun_concat (r : BamReassembler) (es : List BamEvent) (e : BamEvent) :
    (bamRun factory r (es ++ [e])).1 = (bamStep factory (bamRun factory r es).1 e).1 :=
  bamRun_append factory r es [e]

theorem acceptedAlong_append (s : UInt8) (r : BamReassembler) (es : List BamEvent)
    (e : BamEvent) :
    acceptedAlong factory s r (es ++ [e]) = acceptedAlong factory s r es ++
      (acceptedFrom s ((bamRun factory r es).1.fragments.find? s) e).toList := by
  induction es generalizing r with
  | nil => simp [acceptedAlong, bamRun]
  | cons e' es ih =>
    rw [List.cons_append, acceptedAlong, ih, acceptedAlong, List.append_assoc]
    rfl

/-- While no connection frame of its source comes, an open session is the earlier one
with the packets accepted since. -/
theorem session_along {s : UInt8} {es : List BamEvent} (hes : ∀ e ∈ es, bamFrom s e = none)
    {r : BamReassembler} {b' : BAMFragments}
    (h : (bamRun factory r es).1.fragments.find? s = some b') :
    ∃ b, r.fragments.find? s = some b ∧ b'.cmFrame = b.cmFrame ∧
      b'.dtFrames = b.dtFrames ++ acceptedAlong factory s r es := by
  induction es generalizing r with
  | nil => exact ⟨b', h, rfl, (List.append_nil _).symm⟩
  | cons e es ih =>
    rw [List.forall_mem_cons] at hes
    obtain ⟨b₁, hb₁, hcm₁, hdts₁⟩ := ih hes.2 h
    obtain ⟨b, hb, hcm, hdts⟩ := session_of_not_bam hes.1 hb₁
    refine ⟨b, hb, hcm₁.trans hcm, ?_⟩
    rw [hdts₁, hdts, acceptedAlong, List.append_assoc]

/-- The part of a run in which a session was built: the connection frame `c` of the
source, and what came after it. -/
structure OpenedBy (s : UInt8) (events : List BamEvent) (c : TPCMFrame)
    (before : List BamEvent) (opening : BamEvent) (after : List BamEvent) : Prop where
  split : events = before ++ opening :: after
  bam : bamFrom s opening = some c
  last : ∀ e ∈ after, bamFrom s e = none

/-- The packets of a source accepted after the opening event. -/
def packetsSince (s : UInt8) (before : List BamEvent) (opening : BamEvent)
    (after : List BamEvent) : List TPDTFrame :=
  acceptedAlong factory s (bamRun factory {} (before ++ [opening])).1 after

/-- A session in a reachable state was opened by the last connection frame of its
source, and holds the packets accepted since. -/
theorem session_openedBy {s : UInt8} {events : List BamEvent} {c : TPCMFrame}
    {before : List BamEvent} {opening : BamEvent} {after : List BamEvent}
    (ho : OpenedBy s events c before opening after) {b : BAMFragments}
    (h : (bamRun factory {} events).1.fragments.find? s = some b) :
    b.cmFrame = c ∧ b.dtFrames = packetsSince factory s before opening after := by
  have hsplit : before ++ opening :: after = (before ++ [opening]) ++ after := by simp
  rw [ho.split, hsplit, bamRun_append] at h
  obtain ⟨b₀, hb₀, hcm, hdts⟩ := session_along factory ho.last h
  have hopen : (bamRun factory {} (before ++ [opening])).1.fragments.find? s =
      some { cmFrame := c } := by
    rw [bamRun_concat]
    exact session_of_bam ho.bam
  have heq : b₀ = { cmFrame := c } := Option.some.inj (hb₀.symm.trans hopen)
  rw [heq] at hcm hdts
  exact ⟨hcm, hdts⟩

/-- Every session in a reachable state was opened by some connection frame. -/
theorem exists_openedBy {s : UInt8} {events : List BamEvent} {b : BAMFragments}
    (h : (bamRun factory {} events).1.fragments.find? s = some b) :
    ∃ c before opening after, OpenedBy s events c before opening after := by
  induction events using List.reverseRecOn generalizing b with
  | nil => cases h
  | append_singleton es e ih =>
    rw [bamRun_concat] at h
    cases hbam : bamFrom s e with
    | some c => exact ⟨c, es, e, [], rfl, hbam, by simp⟩
    | none =>
      obtain ⟨b₀, hb₀, -, -⟩ := session_of_not_bam hbam h
      obtain ⟨c, before, opening, after, hsplit, hopening, hlast⟩ := ih hb₀
      refine ⟨c, before, opening, after ++ [e], ?_, hopening, ?_⟩
      · rw [hsplit, List.append_assoc, List.cons_append]
      · intro e' he'
        rcases List.mem_append.mp he' with he' | he'
        · exact hlast e' he'
        · rw [List.mem_singleton.mp he']
          exact hbam

/-- The session that an event completes, with its last packet. -/
def completedBy (r : BamReassembler) : BamEvent → Option BAMFragments
  | .handleFrame frame _ => completed (r.fragments.find? (getSrcAddr frame)) frame
  | .dequeueReassembledFrame => none

/-- A payload was received from a source: the last connection frame of the source
announces its length, the packets accepted since are numbered as it announces, and
their data starts with the payload. -/
def Received (s : UInt8) (events : List BamEvent) (call : FactoryCall) : Prop :=
  ∃ c before opening after, OpenedBy s events c before opening after ∧
    (packetsSince factory s before opening after).map (fun dt => dt.sq.toNat) =
      List.range' 1 c.totalPackets.toNat ∧
    call.payload.length = c.totalMsgSize.toNat ∧
    ∀ i < call.payload.length, call.payload[i]? =
      ((packetsSince factory s before opening after).flatMap fun dt => dt.data.toList)[i]?

variable {factory}

/-- Seen from the event that completes a session, the packets of the session are the
ones accepted since the last connection frame of its source. -/
theorem completed_packets {es : List BamEvent} {frame : Frame} (heap : Memory)
    {b' : BAMFragments}
    (hdone : completed ((bamRun factory {} es).1.fragments.find? (getSrcAddr frame)) frame =
      some b') :
    b'.Numbered ∧ b'.dtFrames.length = b'.cmFrame.totalPackets.toNat ∧
      (∃ c before opening after,
        OpenedBy (getSrcAddr frame) (es ++ [.handleFrame frame heap]) c before opening after) ∧
      ∀ c before opening after,
        OpenedBy (getSrcAddr frame) (es ++ [.handleFrame frame heap]) c before opening after →
          b'.cmFrame = c ∧
            b'.dtFrames = packetsSince factory (getSrcAddr frame) before opening after := by
  obtain ⟨b, dt, hfind, haccepts, hlast, rfl⟩ := completed_eq_some_iff.mp hdone
  obtain ⟨rfl, hdst, hexpects⟩ := accepts_eq_some_iff.mp haccepts
  have hnumbered := bamRun_numbered factory es hfind
  have hbam : bamFrom (getSrcAddr (Frame.tpdt dt)) (.handleFrame (.tpdt dt) heap) = none := by
    rw [bamFrom, if_pos rfl]
    rfl
  refine ⟨hnumbered.addDtFrame hexpects, ?_, ?_, ?_⟩
  · have hcount := hexpects.2
    rw [hnumbered.getLastSQ_toNat, hlast] at hcount
    simp only [BAMFragments.addDtFrame, List.length_append, List.length_singleton]
    omega
  · obtain ⟨c, before, opening, after, hsplit, hopening, hafter⟩ := exists_openedBy factory hfind
    refine ⟨c, before, opening, after ++ [.handleFrame (.tpdt dt) heap], ?_, hopening, ?_⟩
    · rw [hsplit, List.append_assoc, List.cons_append]
    · intro e he
      rcases List.mem_append.mp he with he | he
      · exact hafter e he
      · rw [List.mem_singleton.mp he]
        exact hbam
  · rintro c before opening after ⟨hsplit, hopening, hafter⟩
    rcases List.eq_nil_or_concat after with rfl | ⟨after', e, rfl⟩
    · -- the completing packet is not a connection frame
      have hsame := List.append_inj_right' hsplit rfl
      rw [List.cons.injEq] at hsame
      rw [← hsame.1, hbam] at hopening
      cases hopening
    · rw [List.concat_eq_append, ← List.cons_append, ← List.append_assoc] at hsplit
      obtain ⟨hes, he⟩ := List.append_inj' hsplit rfl
      have hafter' : ∀ e' ∈ after', bamFrom (getSrcAddr (Frame.tpdt dt)) e' = none :=
        fun e' he' => hafter e' (by simp [he'])
      have hopened : OpenedBy (getSrcAddr (Frame.tpdt dt)) es c before opening after' :=
        ⟨hes, hopening, hafter'⟩
      obtain ⟨hcm, hdts⟩ := session_openedBy factory hopened hfind
      refine ⟨hcm, ?_⟩
      have hstate : (bamRun factory (bamRun factory {} (before ++ [opening])).1 after').1 =
          (bamRun factory {} es).1 := by
        have hes' : es = (before ++ [opening]) ++ after' := by simp [hes]
        rw [hes', bamRun_append factory {} (before ++ [opening])]
      have haccepted : acceptedFrom (getSrcAddr (Frame.tpdt dt)) (some b) e = some dt := by
        rw [← List.cons.inj he |>.1, acceptedFrom, if_pos rfl]
        exact haccepts
      rw [packetsSince, List.concat_eq_append, acceptedAlong_append, hstate, hfind, haccepted,
        BAMFragments.addDtFrame, hdts]
      rfl

/-- A delivered payload was received exactly when its connection frame did not
announce more bytes than its packets hold. -/
theorem received_iff {es : List BamEvent} {frame : Frame} {heap : Memory} {b' : BAMFragments}
    (hdone : completed ((bamRun factory {} es).1.fragments.find? (getSrcAddr frame)) frame =
      some b') :
    Received factory (getSrcAddr frame) (es ++ [.handleFrame frame heap]) (deliveryOf b' heap) ↔
      b'.cmFrame.totalMsgSize.toNat ≤ tpDtPacketSize * b'.cmFrame.totalPackets.toNat := by
  obtain ⟨hnumbered, hcount, hexists, hpackets⟩ := completed_packets heap hdone
  have hreceived : b'.received.length = tpDtPacketSize * b'.cmFrame.totalPackets.toNat := by
    rw [b'.length_received, hcount]
  have hlength : (deliveryOf b' heap).payload.length = b'.cmFrame.totalMsgSize.toNat :=
    Memory.length_slice _ _ _
  constructor
  · rintro ⟨c, before, opening, after, hopened, -, -, hbytes⟩
    obtain ⟨-, hdts⟩ := hpackets c before opening after hopened
    by_contra hmore
    -- the first byte behind the packets is not a received one
    have hbyte := hbytes b'.received.length (by omega)
    rw [← hdts] at hbyte
    have hnone : b'.received[b'.received.length]? = none := by simp
    rw [BAMFragments.received] at hnone
    rw [BAMFragments.received, hnone] at hbyte
    rw [List.getElem?_eq_none_iff] at hbyte
    rw [BAMFragments.received] at hreceived
    omega
  · intro hle
    obtain ⟨c, before, opening, after, hopened⟩ := hexists
    obtain ⟨hcm, hdts⟩ := hpackets c before opening after hopened
    refine ⟨c, before, opening, after, hopened, ?_, ?_, ?_⟩
    · rw [← hdts, hnumbered.sqs, hcount, hcm]
    · rw [hlength, hcm]
    · intro i hi
      have hpayload : (deliveryOf b' heap).payload =
          b'.received.take b'.cmFrame.totalMsgSize.toNat :=
        payload_eq_take heap (by omega)
      rw [hlength] at hi
      rw [hpayload, List.getElem?_take_of_lt hi, ← hdts]
      rfl

/-- In every run, all payloads handed to the factory were received exactly when every
session that is completed announced no more bytes than its packets hold. -/
theorem deliveries_received_iff (factory : J1939Factory) (events : List BamEvent) :
    (∀ es e rest call, events = es ++ e :: rest →
        (bamStep factory (bamRun factory {} es).1 e).2 = some call →
          ∃ s, e.source = some s ∧ Received factory s (es ++ [e]) call) ↔
      ∀ es e rest b, events = es ++ e :: rest →
        completedBy (bamRun factory {} es).1 e = some b →
          b.cmFrame.totalMsgSize.toNat ≤ tpDtPacketSize * b.cmFrame.totalPackets.toNat := by
  constructor
  · intro h es e rest b hsplit hdone
    cases e with
    | dequeueReassembledFrame => cases hdone
    | handleFrame frame heap =>
      have hcall : (bamStep factory (bamRun factory {} es).1 (.handleFrame frame heap)).2 =
          some (deliveryOf b heap) :=
        call_eq_some_iff.mpr ⟨frame, heap, b, rfl, hdone, rfl⟩
      obtain ⟨s, hs, hreceived⟩ := h es _ rest _ hsplit hcall
      cases hs
      exact (received_iff hdone).mp hreceived
  · intro h es e rest call hsplit hcall
    obtain ⟨frame, heap, b, rfl, hdone, rfl⟩ := call_eq_some_iff.mp hcall
    exact ⟨getSrcAddr frame, rfl, (received_iff hdone).mpr (h es _ rest b hsplit hdone)⟩

/-- A connection frame that announces 100 bytes in a single packet. -/
def oversizedConn : TPCMFrame :=
  { TPCMFrame.new with
    srcAddr := 0x10, dstAddr := broadcastAddress, ctrlType := ctrlTpcmBam
    totalMsgSize := 100, totalPackets := 1, dataPgn := 0xFEEC }

/-- The only packet of that transfer. -/
def onlyPacket : TPDTFrame :=
  { TPDTFrame.ofData 1 [1, 2, 3, 4, 5, 6, 7] with srcAddr := 0x10, dstAddr := broadcastAddress }

/-- The packet completes a payload of 100 bytes, 93 of which nobody has sent. -/
theorem oversized_not_received :
    ¬∀ es e rest call,
      [BamEvent.handleFrame (.tpcm oversizedConn) fun _ => 0,
          .handleFrame (.tpdt onlyPacket) fun _ => 0] = es ++ e :: rest →
        (bamStep J1939Factory.new (bamRun J1939Factory.new {} es).1 e).2 = some call →
          ∃ s, e.source = some s ∧ Received J1939Factory.new s (es ++ [e]) call := by
  intro h
  have hdone : completed ((bamRun J1939Factory.new {}
      [.handleFrame (.tpcm oversizedConn) fun _ => 0]).1.fragments.find?
        (getSrcAddr (Frame.tpdt onlyPacket))) (.tpdt onlyPacket) =
      some { cmFrame := oversizedConn, dtFrames := [onlyPacket] } := rfl
  obtain ⟨s, hs, hreceived⟩ := h [.handleFrame (.tpcm oversizedConn) fun _ => 0] _ [] _ rfl
    (call_eq_some_iff.mpr ⟨_, fun _ => 0, _, rfl, hdone, rfl⟩)
  cases hs
  exact absurd ((received_iff hdone).mp hreceived) (by decide)

end Runs

end J1939
