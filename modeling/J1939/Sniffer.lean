import J1939.Acceptance
import J1939.BamSession
import J1939.Can
import J1939.TransportCodec

/-!
# The receive callback of the sniffer

`onRcv` catches nothing. An exception of the factory, or of the reassembler that hands it
a completed transfer, ends the program.
-/

namespace J1939

/-- The command line of the sniffer: the frame that it shows. -/
structure SnifferOptions where
  pgn : UInt32 := 0
  title : String := ""

namespace Reception

/-- The packet that is decoded when the identifier is one of a TP.DT frame. -/
def packet (x : Reception) : TPDTFrame :=
  { TPDTFrame.new with
    toHeader := receivedHeader TPDTFrame.new.toHeader x.id
    sq := x.memory 0
    data := x.memory.vector 1 tpDtPacketSize }

end Reception

section Callback

variable (options : SnifferOptions) (factory : J1939Factory)

/-- The frame that the callback prints, when it is the one asked for. -/
def shown (frame : Frame) : Option Frame :=
  if options.pgn = getPGN frame ∨ options.title = getName frame then some frame else none

/-- `onRcv`: the global reassembler after it, and the frame printed or the exception that
escapes. -/
def onRcv (reassembler : BamReassembler) (x : Reception) :
    BamReassembler × Except J1939Exception (Option Frame) :=
  match (factory.getJ1939Frame x.id x.length).value x.memory with
  | .error e => (reassembler, .error e)
  | .ok none => (reassembler, .ok none)
  | .ok (some j1939Frame) =>
    if BamReassembler.toBeHandled j1939Frame then
      let res := reassembler.handleFrame factory x.heap j1939Frame
      match res.returned with
      | .error e => (res.reassembler, .error e)
      | .ok _ =>
        match res.reassembler.dequeueReassembledFrame with
        | (some full, reassembler') => (reassembler', .ok (shown options full))
        | (none, _) => (res.reassembler, .ok none)
    else (reassembler, .ok (shown options j1939Frame))

/-- The sniffer up to the first exception. -/
def sniff : BamReassembler → List Reception → Except J1939Exception BamReassembler
  | reassembler, [] => .ok reassembler
  | reassembler, x :: xs =>
    match onRcv options factory reassembler x with
    | (_, .error e) => .error e
    | (reassembler', .ok _) => sniff reassembler' xs

end Callback

/-- The prototype found for an identifier accepts a payload, if there is one. -/
def J1939Factory.Decodable (factory : J1939Factory) (id : UInt32) (length : ℕ)
    (mem : Memory) : Prop :=
  ∀ frame, factory.getFrameByPgn (lookupPgn id) = some frame → frame.Accepts length mem

/-- The receptions that the callback survives: the payload decodes, and so does the
message when the payload is the last packet of the session of its source. -/
structure Receivable (factory : J1939Factory) (reassembler : BamReassembler)
    (x : Reception) : Prop where
  payload : factory.Decodable x.id x.length x.memory
  message : lookupPgn x.id = tpDtPgn → ∀ b,
    completed (reassembler.fragments.find? (getSrcAddr x.packet)) (.tpdt x.packet) = some b →
      factory.Decodable (deliveryOf b x.heap).id (deliveryOf b x.heap).length
        (deliveryOf b x.heap).data

/-- The factory throws exactly on the payloads that are not decodable. -/
theorem J1939Factory.WellFormed.throws_iff {factory : J1939Factory} (h : factory.WellFormed)
    (id : UInt32) (length : ℕ) (mem : Memory) :
    (∃ e, (factory.getJ1939Frame id length).value mem = .error e) ↔
      ¬factory.Decodable id length mem := by
  unfold Decodable getFrameByPgn
  rcases h.value_getJ1939Frame id length mem with ⟨hnone, hvalue⟩ | ⟨frame, hfind, -, hvalue⟩
  · rw [hvalue, hnone]
    refine iff_of_false (by rintro ⟨e, ⟨⟩⟩) (not_not.mpr ?_)
    rintro frame ⟨⟩
  · rw [hfind]
    simp only [Option.some.injEq, forall_eq']
    rcases hvalue with ⟨haccepts, retFrame, -, hvalue⟩ | ⟨hnot, e, hvalue, -⟩
    · rw [hvalue]
      exact iff_of_false (by rintro ⟨e, ⟨⟩⟩) (not_not.mpr haccepts)
    · exact iff_of_true ⟨e, hvalue⟩ hnot

section Throwing

variable {factory : J1939Factory} {heap : Memory} {r : BamReassembler}

/-- A call on the reassembler throws what the factory throws on the message it has put
together, and nothing else. -/
def HandleResult.ThrowsAsCalled (factory : J1939Factory) (res : HandleResult) : Prop :=
  ∀ e, res.returned = .error e ↔ ∃ call, res.call = some call ∧
    (factory.getJ1939Frame call.id call.length).value call.data = .error e

theorem throwsAsCalled_quiet (r' : BamReassembler) (n : ℕ) :
    HandleResult.ThrowsAsCalled factory ⟨r', .ok n, none⟩ :=
  fun _ => iff_of_false (by rintro ⟨⟩) (by rintro ⟨call, ⟨⟩, -⟩)

theorem throwsAsCalled_finish (srcAddr : UInt8) (b : BAMFragments) :
    (r.finish factory heap srcAddr b).ThrowsAsCalled factory := by
  intro e
  simp only [BamReassembler.finish]
  split <;> simp_all

theorem throwsAsCalled_handleFrame (frame : Frame) :
    (r.handleFrame factory heap frame).ThrowsAsCalled factory := by
  unfold BamReassembler.handleFrame
  by_cases hdst : getDstAddr frame ≠ broadcastAddress
  · rw [if_pos hdst]
    exact throwsAsCalled_quiet _ _
  rw [if_neg hdst]
  by_cases hcm : getPGN frame = tpCmPgn
  · rw [if_pos hcm, BamReassembler.handleConn]
    by_cases hctrl : frame.asTPCM.ctrlType ≠ ctrlTpcmBam
    · rw [if_pos hctrl]
      exact throwsAsCalled_quiet _ _
    · rw [if_neg hctrl]
      exact throwsAsCalled_quiet _ _
  rw [if_neg hcm]
  by_cases hdt : getPGN frame = tpDtPgn
  · rw [if_pos hdt, BamReassembler.handleData]
    cases r.fragments.find? (getSrcAddr frame) with
    | none => exact throwsAsCalled_quiet _ _
    | some b =>
      by_cases hexpects : BamReassembler.expects b frame.asTPDT.sq
      · simp only [if_pos hexpects]
        by_cases hlast : frame.asTPDT.sq = b.cmFrame.totalPackets
        · rw [if_pos hlast]
          exact throwsAsCalled_finish _ _
        · rw [if_neg hlast]
          exact throwsAsCalled_quiet _ _
      · simp only [if_neg hexpects]
        exact throwsAsCalled_quiet _ _
  · rw [if_neg hdt]
    exact throwsAsCalled_quiet _ _

/-- The sessions are those of the reassembler's own links. -/
theorem handleFrame_call (frame : Frame) :
    (r.handleFrame factory heap frame).call =
      (completed (r.fragments.find? (getSrcAddr frame)) frame).map fun b =>
        deliveryOf b heap := by
  rw [(handleFrame_movesLink factory heap r frame).call, stepLink_call]

/-- A frame that completes a session is a packet for all nodes. -/
theorem toBeHandled_of_completed {session : Option BAMFragments} {frame : Frame}
    {b : BAMFragments} (h : completed session frame = some b) :
    BamReassembler.toBeHandled frame = true ∧ getPGN frame = tpDtPgn := by
  obtain ⟨_, dt, -, haccepts, -⟩ := completed_eq_some_iff.mp h
  obtain ⟨rfl, hdst, -⟩ := accepts_eq_some_iff.mp haccepts
  refine ⟨?_, rfl⟩
  have hdst' : ¬getDstAddr (Frame.tpdt dt) ≠ broadcastAddress := not_not.mpr hdst
  rw [BamReassembler.toBeHandled, if_neg hdst']
  rfl

end Throwing

section Surviving

variable {options : SnifferOptions} {factory : J1939Factory} {reassembler : BamReassembler}
  {x : Reception}

/-- The factory decodes a TP.DT identifier to the packet of the reception. -/
theorem eq_packet_of_value (hfactory : factory.frames.find? tpDtPgn = some (.tpdt TPDTFrame.new))
    (hpgn : lookupPgn x.id = tpDtPgn) {frame : Frame}
    (h : (factory.getJ1939Frame x.id x.length).value x.memory = .ok (some frame)) :
    frame = .tpdt x.packet := by
  have hmatch : lookupPgn x.id = getPGN (Frame.tpdt TPDTFrame.new) := hpgn
  have hrun := @run_decode_of_match _ _ (Frame.tpdt TPDTFrame.new) x.id x.length x.memory hmatch
  have hcall : (decodeData x.length).run (withHeader (Frame.tpdt TPDTFrame.new)
      (receivedHeader (header (Frame.tpdt TPDTFrame.new)) x.id)) x.memory = _ :=
    Frame.value_call _ Frame.tpdt (TPDTFrame.decodeData x.length) x.memory
  rw [TPDTFrame.run_decodeData] at hcall
  rw [J1939Factory.value_getJ1939Frame, hpgn, hfactory] at h
  simp only [hrun, hcall] at h
  split_ifs at h
  cases h
  rfl

/-- The callback throws exactly what the factory throws on the payload, or on the message
that the payload completes. -/
theorem onRcv_throws_iff {e : J1939Exception} :
    (onRcv options factory reassembler x).2 = .error e ↔
      (factory.getJ1939Frame x.id x.length).value x.memory = .error e ∨
        ∃ frame b, (factory.getJ1939Frame x.id x.length).value x.memory = .ok (some frame) ∧
          completed (reassembler.fragments.find? (getSrcAddr frame)) frame = some b ∧
          (factory.getJ1939Frame (deliveryOf b x.heap).id (deliveryOf b x.heap).length).value
            (deliveryOf b x.heap).data = .error e := by
  unfold onRcv
  cases hvalue : (factory.getJ1939Frame x.id x.length).value x.memory with
  | error e' => simp
  | ok ret =>
    cases ret with
    | none => simp
    | some frame =>
      have hthrows := @throwsAsCalled_handleFrame factory x.heap reassembler frame e
      rw [handleFrame_call] at hthrows
      have hcalled : (reassembler.handleFrame factory x.heap frame).returned = .error e ↔
          ∃ b, completed (reassembler.fragments.find? (getSrcAddr frame)) frame = some b ∧
            (factory.getJ1939Frame (deliveryOf b x.heap).id (deliveryOf b x.heap).length).value
              (deliveryOf b x.heap).data = .error e := by
        rw [hthrows]
        simp only [Option.map_eq_some_iff, exists_exists_and_eq_and]
      simp only [reduceCtorEq, Except.ok.injEq, Option.some.injEq, false_or, exists_and_left,
        exists_eq_left', ← hcalled]
      by_cases hhandled : BamReassembler.toBeHandled frame = true
      · rw [if_pos hhandled]
        cases hreturned : (reassembler.handleFrame factory x.heap frame).returned with
        | error e' => simp
        | ok n =>
          simp only [reduceCtorEq, iff_false]
          split <;> rintro ⟨⟩
      · rw [if_neg hhandled]
        refine iff_of_false (by rintro ⟨⟩) fun hreturned => hhandled ?_
        obtain ⟨b, hcompleted, -⟩ := hcalled.mp hreturned
        exact (toBeHandled_of_completed hcompleted).1

/-- The callback returns exactly on what is receivable. -/
theorem onRcv_returns_iff (hfactory : factory.WellFormed)
    (htpdt : factory.frames.find? tpDtPgn = some (.tpdt TPDTFrame.new)) :
    (∃ ret, (onRcv options factory reassembler x).2 = .ok ret) ↔
      Receivable factory reassembler x := by
  have hreturns : (∃ ret, (onRcv options factory reassembler x).2 = .ok ret) ↔
      ¬∃ e, (onRcv options factory reassembler x).2 = .error e := by
    cases (onRcv options factory reassembler x).2 <;> simp
  have hdecodable : ∀ {id length mem}, (∀ e,
      (factory.getJ1939Frame id length).value mem ≠ .error e) ↔
        factory.Decodable id length mem := by
    intro id length mem
    rw [← not_exists, hfactory.throws_iff, not_not]
  rw [hreturns, not_exists]
  simp only [onRcv_throws_iff, not_or]
  constructor
  · intro h
    refine ⟨hdecodable.mp fun e => (h e).1, fun hpgn b hcompleted => ?_⟩
    refine hdecodable.mp fun e he => (h e).2 ⟨.tpdt x.packet, b, ?_, hcompleted, he⟩
    -- the payload is decodable, so the frame is there
    cases hvalue : (factory.getJ1939Frame x.id x.length).value x.memory with
    | error e' => exact absurd hvalue (h e').1
    | ok ret =>
      cases ret with
      | none =>
        rw [J1939Factory.value_getJ1939Frame, hpgn, htpdt] at hvalue
        simp only at hvalue
        generalize (decode x.id x.length).run (Frame.tpdt TPDTFrame.new) x.memory = run at hvalue
        obtain ⟨_ | _, _⟩ := run <;> cases hvalue
      | some frame => rw [eq_packet_of_value htpdt hpgn hvalue]
  · rintro ⟨hpayload, hmessage⟩ e
    refine ⟨hdecodable.mpr hpayload e, ?_⟩
    rintro ⟨frame, b, hvalue, hcompleted, he⟩
    have hpgn : lookupPgn x.id = tpDtPgn :=
      (J1939Factory.getPGN_of_value hvalue).trans (toBeHandled_of_completed hcompleted).2
    obtain rfl := eq_packet_of_value htpdt hpgn hvalue
    exact hdecodable.mpr (hmessage hpgn b hcompleted) e he

end Surviving

/-- Every reception of a run is receivable when its turn comes. -/
def AllReceivable (options : SnifferOptions) (factory : J1939Factory) :
    BamReassembler → List Reception → Prop
  | _, [] => True
  | reassembler, x :: xs =>
    Receivable factory reassembler x ∧
      AllReceivable options factory (onRcv options factory reassembler x).1 xs

/-- The identifier of a TP.CM frame for all nodes finds its prototype. -/
theorem getFrameByPgn_tpcm (frames : List Frame) :
    (J1939Factory.new.registerFrames frames).getFrameByPgn (lookupPgn 0x18ECFF10) =
      some (.tpcm TPCMFrame.new) := by
  have hpgn : lookupPgn 0x18ECFF10 = tpCmPgn := by decide
  rw [hpgn]
  exact (transportRegistered_registerFrames frames).tpcm

end J1939
