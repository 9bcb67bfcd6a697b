import J1939.BamSession

/-!
# Errors and failed decodings

`getLastError` is set by most calls of `handleFrame`, and left alone by one that accepts a
packet in between. A message that the factory does not decode closes its session when the
factory returns nothing, and leaves it open when the factory throws.
-/

namespace J1939

open BamReassembler

section Calls

variable {factory : J1939Factory} {heap : Memory} {r : BamReassembler} {frame : Frame}

/-! ### The three kinds of calls -/

theorem handleFrame_of_opens {c : TPCMFrame} (h : opens frame = some c) :
    (r.handleFrame factory heap frame).returned = .ok c.totalMsgSize.toNat ∧
      (r.handleFrame factory heap frame).reassembler.lastError =
        if r.fragments.find? (getSrcAddr frame) = none then .ok else .incompleteFrame := by
  obtain ⟨rfl, hctrl, hdst⟩ := opens_eq_some_iff.mp h
  have hcall : r.handleFrame factory heap (.tpcm c) = r.handleConn (getSrcAddr (Frame.tpcm c)) c :=
    (if_neg (not_not.mpr hdst)).trans (if_pos rfl)
  rw [hcall, handleConn, if_neg (not_not.mpr hctrl)]
  cases r.fragments.find? (getSrcAddr (Frame.tpcm c)) <;> exact ⟨rfl, rfl⟩

theorem handleFrame_of_accepts {b : BAMFragments} {dt : TPDTFrame}
    (hfind : r.fragments.find? (getSrcAddr frame) = some b) (h : accepts b frame = some dt) :
    r.handleFrame factory heap frame =
      let r' := { r with
        fragments := r.fragments.insert (getSrcAddr frame) (b.addDtFrame dt) }
      if dt.sq = b.cmFrame.totalPackets then
        r'.finish factory heap (getSrcAddr frame) (b.addDtFrame dt)
      else ⟨r', .ok b.cmFrame.totalMsgSize.toNat, none⟩ := by
  obtain ⟨rfl, hdst, hexpects⟩ := accepts_eq_some_iff.mp h
  have hpgn : ¬getPGN (Frame.tpdt dt) = tpCmPgn := by
    change ¬tpDtPgn = tpCmPgn
    decide
  have hcall : r.handleFrame factory heap (.tpdt dt) =
      r.handleData factory heap (getSrcAddr (Frame.tpdt dt)) dt :=
    (if_neg (not_not.mpr hdst)).trans ((if_neg hpgn).trans (if_pos rfl))
  rw [hcall, handleData, hfind]
  exact if_pos hexpects

theorem handleFrame_of_ignored (hopens : opens frame = none)
    (haccepts : ∀ b ∈ r.fragments.find? (getSrcAddr frame), accepts b frame = none) :
    (∃ n, (r.handleFrame factory heap frame).returned = .ok n) ∧
      (r.handleFrame factory heap frame).reassembler.lastError =
        if getDstAddr frame ≠ broadcastAddress then .notBcastAddr else .unexpectedFrame := by
  unfold handleFrame
  by_cases hdst : getDstAddr frame ≠ broadcastAddress
  · rw [if_pos hdst, if_pos hdst]
    exact ⟨⟨_, rfl⟩, rfl⟩
  rw [if_neg hdst, if_neg hdst]
  rw [not_not] at hdst
  by_cases hcm : getPGN frame = tpCmPgn
  · rw [if_pos hcm, handleConn, if_pos (ctrlType_ne_bam hopens hdst)]
    exact ⟨⟨_, rfl⟩, rfl⟩
  rw [if_neg hcm]
  by_cases hdt : getPGN frame = tpDtPgn
  · rw [if_pos hdt, handleData]
    cases hfind : r.fragments.find? (getSrcAddr frame) with
    | none => exact ⟨⟨_, rfl⟩, rfl⟩
    | some b =>
      have hexpects := not_expects_sq (haccepts b hfind) hdst
      simp only [if_neg hexpects]
      exact ⟨⟨_, rfl⟩, rfl⟩
  · rw [if_neg hdt]
    exact ⟨⟨_, rfl⟩, rfl⟩

theorem handleFrame_of_completed {b : BAMFragments}
    (h : completed (r.fragments.find? (getSrcAddr frame)) frame = some b) :
    r.handleFrame factory heap frame =
      ({ r with fragments := r.fragments.insert (getSrcAddr frame) b } : BamReassembler).finish
        factory heap (getSrcAddr frame) b := by
  obtain ⟨b', dt, hfind, haccepts, hlast, rfl⟩ := completed_eq_some_iff.mp h
  rw [handleFrame_of_accepts hfind haccepts]
  exact if_pos hlast

/-! ### Failed decodings -/

/-- A call that closes the session of its source and delivers nothing. -/
structure ClosedCleanly (r : BamReassembler) (srcAddr : UInt8) (res : HandleResult) : Prop where
  session : res.reassembler.fragments.find? srcAddr = none
  queue : res.reassembler.reassembledFrames = r.reassembledFrames
  others : ∀ k, k ≠ srcAddr → res.reassembler.fragments.find? k = r.fragments.find? k
  lastError : res.reassembler.lastError = .decoding

/-- What the factory makes of the message of a complete session. -/
def decodedMessage (factory : J1939Factory) (heap : Memory) (b : BAMFragments) :
    Except J1939Exception (Option Frame) :=
  (factory.getJ1939Frame (deliveryOf b heap).id (deliveryOf b heap).length).value
    (deliveryOf b heap).data

/-- The last step of a session, by what the factory makes of the message. -/
theorem finish_eq (srcAddr : UInt8) (b : BAMFragments) :
    r.finish factory heap srcAddr b =
      match decodedMessage factory heap b with
      | .error e => ⟨r, .error e, some (deliveryOf b heap)⟩
      | .ok none =>
        ⟨{ r with fragments := r.fragments.erase srcAddr, lastError := .decoding }, .ok 0,
          some (deliveryOf b heap)⟩
      | .ok (some decodedFrame) =>
        ⟨{ fragments := r.fragments.erase srcAddr
           lastError := .ok
           reassembledFrames := r.reassembledFrames ++ [decodedFrame] },
          .ok b.cmFrame.totalMsgSize.toNat, some (deliveryOf b heap)⟩ := rfl

/-- The factory returns nothing exactly when no frame is registered under the PGN. -/
theorem value_getJ1939Frame_eq_none_iff {id : UInt32} {length : ℕ} {mem : Memory} :
    (factory.getJ1939Frame id length).value mem = .ok none ↔
      factory.getFrameByPgn (lookupPgn id) = none := by
  rw [J1939Factory.value_getJ1939Frame, J1939Factory.getFrameByPgn]
  cases factory.frames.find? (lookupPgn id) with
  | none => exact iff_of_true rfl rfl
  | some proto =>
    refine iff_of_false ?_ (by rintro ⟨⟩)
    simp only
    split <;> rintro ⟨⟩

/-- A message that the factory does not decode closes its session cleanly exactly when no
frame is registered under its PGN. Otherwise the factory throws, and the session stays. -/
theorem closedCleanly_iff {b : BAMFragments}
    (hcompleted : completed (r.fragments.find? (getSrcAddr frame)) frame = some b)
    (hfails : ∀ decoded, decodedMessage factory heap b ≠ .ok (some decoded)) :
    ClosedCleanly r (getSrcAddr frame) (r.handleFrame factory heap frame) ↔
      factory.getFrameByPgn (lookupPgn (newId b.cmFrame)) = none := by
  have hnone := @value_getJ1939Frame_eq_none_iff factory (deliveryOf b heap).id
    (deliveryOf b heap).length (deliveryOf b heap).data
  change decodedMessage factory heap b = .ok none ↔
    factory.getFrameByPgn (lookupPgn (newId b.cmFrame)) = none at hnone
  rw [handleFrame_of_completed hcompleted, ← hnone, finish_eq]
  cases hvalue : decodedMessage factory heap b with
  | error e =>
    refine iff_of_false (fun h => ?_) (by rintro ⟨⟩)
    have hopen := h.session
    simp only [SortedMap.find?_insert, if_pos] at hopen
    cases hopen
  | ok decoded =>
    cases decoded with
    | some decodedFrame => exact absurd hvalue (hfails decodedFrame)
    | none =>
      refine iff_of_true ⟨?_, rfl, fun k hk => ?_, rfl⟩ rfl
      · simp only [SortedMap.find?_erase, if_pos]
      · simp only [SortedMap.find?_erase, SortedMap.find?_insert, if_neg hk]

/-- The announcement of a message under a PGN. -/
def announcement (dataPgn : UInt32) (totalMsgSize : UInt16) (totalPackets : UInt8) : TPCMFrame :=
  { TPCMFrame.new with
    srcAddr := 0x10
    dstAddr := broadcastAddress
    ctrlType := ctrlTpcmBam
    totalMsgSize := totalMsgSize
    totalPackets := totalPackets
    dataPgn := dataPgn }

/-- The first packet of a message. -/
def firstPacket (srcAddr : UInt8) : TPDTFrame :=
  { TPDTFrame.ofData 1 [1, 2, 3, 4, 5, 6, 7] with
    srcAddr := srcAddr
    dstAddr := broadcastAddress }

/-- The reassembler after an announcement. -/
def announced (dataPgn : UInt32) : BamReassembler :=
  (bamRun J1939Factory.new {} [.handleFrame (.tpcm (announcement dataPgn 7 1)) fun _ => 0]).1

/-- A message under a PGN that is not registered is closed. -/
theorem unregistered_closed :
    ClosedCleanly (announced 0xFF10) (getSrcAddr (Frame.tpdt (firstPacket 0x10)))
      ((announced 0xFF10).handleFrame J1939Factory.new (fun _ => 0)
        (.tpdt (firstPacket 0x10))) := by
  have hcompleted : completed
      ((announced 0xFF10).fragments.find? (getSrcAddr (Frame.tpdt (firstPacket 0x10))))
      (.tpdt (firstPacket 0x10)) = some ⟨announcement 0xFF10 7 1, [firstPacket 0x10]⟩ := by
    decide +kernel
  have hlookup : lookupPgn (newId (announcement 0xFF10 7 1)) = 0xFF10 := by decide
  have hnone : J1939Factory.new.getFrameByPgn 0xFF10 = none := by decide +kernel
  have hvalue : decodedMessage J1939Factory.new (fun _ => 0)
      ⟨announcement 0xFF10 7 1, [firstPacket 0x10]⟩ = .ok none :=
    value_getJ1939Frame_eq_none_iff.mpr (hlookup ▸ hnone)
  refine (closedCleanly_iff hcompleted fun decoded => ?_).mpr (hlookup ▸ hnone)
  rw [hvalue]
  rintro ⟨⟩

/-- A message under the PGN of TP.CM makes the factory throw, and stays open. -/
theorem throwing_not_closed :
    ∃ b, completed
        ((announced tpCmPgn).fragments.find? (getSrcAddr (Frame.tpdt (firstPacket 0x10))))
        (.tpdt (firstPacket 0x10)) = some b ∧
      (∀ decoded, decodedMessage J1939Factory.new (fun _ => 0) b ≠ .ok (some decoded)) ∧
      ¬ClosedCleanly (announced tpCmPgn) (getSrcAddr (Frame.tpdt (firstPacket 0x10)))
        ((announced tpCmPgn).handleFrame J1939Factory.new (fun _ => 0)
          (.tpdt (firstPacket 0x10))) := by
  have hcompleted : completed
      ((announced tpCmPgn).fragments.find? (getSrcAddr (Frame.tpdt (firstPacket 0x10))))
      (.tpdt (firstPacket 0x10)) = some ⟨announcement tpCmPgn 7 1, [firstPacket 0x10]⟩ := by
    decide +kernel
  have hvalue : decodedMessage J1939Factory.new (fun _ => 0)
      ⟨announcement tpCmPgn 7 1, [firstPacket 0x10]⟩ = .error (.tpcmLength 7) := by decide +kernel
  refine ⟨_, hcompleted, fun decoded => ?_, fun h => ?_⟩
  · rw [hvalue]
    rintro ⟨⟩
  · have hopen := h.session
    rw [handleFrame_of_completed hcompleted, finish_eq, hvalue] at hopen
    simp only [SortedMap.find?_insert, if_pos] at hopen
    cases hopen

/-! ### The last error -/

/-- The calls after which the last error should be `ok`: the frame opens a session where
none was open, or is the next packet of a session and, if it is the last one, decoded. -/
def Succeeds (factory : J1939Factory) (heap : Memory) (session : Option BAMFragments)
    (frame : Frame) : Prop :=
  (session = none ∧ ∃ c, opens frame = some c) ∨
    ∃ b dt, session = some b ∧ accepts b frame = some dt ∧
      ∀ full, completed session frame = some full →
        ∃ decoded, decodedMessage factory heap full = .ok (some decoded)

/-- The error of a call that does not succeed. -/
def callError (session : Option BAMFragments) (frame : Frame) : EBamError :=
  if (opens frame).isSome then .incompleteFrame
  else if (completed session frame).isSome then .decoding
  else if getDstAddr frame ≠ broadcastAddress then .notBcastAddr
  else .unexpectedFrame

/-- The last error describes the call that has just returned. -/
structure Describes (factory : J1939Factory) (heap : Memory) (session : Option BAMFragments)
    (frame : Frame) (lastError : EBamError) : Prop where
  ok_iff : lastError = .ok ↔ Succeeds factory heap session frame
  error : ¬Succeeds factory heap session frame → lastError = callError session frame

/-- The frame is no packet in between, or there is no error that it leaves behind. -/
def LeavesNoError (r : BamReassembler) (frame : Frame) : Prop :=
  ∀ b dt, r.fragments.find? (getSrcAddr frame) = some b → accepts b frame = some dt →
    dt.sq ≠ b.cmFrame.totalPackets → r.lastError = .ok

theorem opens_of_accepts {b : BAMFragments} {dt : TPDTFrame} (h : accepts b frame = some dt) :
    opens frame = none := by
  obtain ⟨rfl, -, -⟩ := accepts_eq_some_iff.mp h
  rfl

theorem accepts_of_opens {c : TPCMFrame} (h : opens frame = some c) (b : BAMFragments) :
    accepts b frame = none := by
  obtain ⟨rfl, -, -⟩ := opens_eq_some_iff.mp h
  rfl

theorem completed_of_not_accepts {session : Option BAMFragments}
    (h : ∀ b ∈ session, accepts b frame = none) : completed session frame = none := by
  cases session with
  | none => rfl
  | some b =>
    rw [completed, Option.bind_some, h b rfl]
    rfl

/-- A frame that is accepted nowhere succeeds when it opens the first session. -/
theorem succeeds_of_not_accepts {session : Option BAMFragments}
    (h : ∀ b ∈ session, accepts b frame = none) :
    Succeeds factory heap session frame ↔ session = none ∧ ∃ c, opens frame = some c := by
  refine or_iff_left ?_
  rintro ⟨b, dt, hsession, haccepts, -⟩
  rw [h b hsession] at haccepts
  cases haccepts

/-- An accepted packet succeeds unless it completes a message that is not decoded. -/
theorem succeeds_of_accepts {b : BAMFragments} {dt : TPDTFrame} (h : accepts b frame = some dt) :
    Succeeds factory heap (some b) frame ↔ ∀ full, completed (some b) frame = some full →
      ∃ decoded, decodedMessage factory heap full = .ok (some decoded) := by
  constructor
  · rintro (⟨hnone, -⟩ | ⟨b', dt', hb, -, hfull⟩)
    · cases hnone
    · cases hb
      exact hfull
  · exact fun hfull => Or.inr ⟨b, dt, rfl, h, hfull⟩

theorem describes_of_opens {c : TPCMFrame} (h : opens frame = some c) :
    Describes factory heap (r.fragments.find? (getSrcAddr frame)) frame
      (r.handleFrame factory heap frame).reassembler.lastError := by
  have hsucceeds := @succeeds_of_not_accepts factory heap frame
    (r.fragments.find? (getSrcAddr frame)) fun b _ => accepts_of_opens h b
  rw [(handleFrame_of_opens h).2]
  by_cases hnone : r.fragments.find? (getSrcAddr frame) = none
  · have hyes := hsucceeds.mpr ⟨hnone, c, h⟩
    rw [if_pos hnone]
    exact ⟨iff_of_true rfl hyes, fun hno => absurd hyes hno⟩
  · have hno := fun hyes => hnone (hsucceeds.mp hyes).1
    rw [if_neg hnone]
    refine ⟨iff_of_false (by decide) hno, fun _ => ?_⟩
    rw [callError, h, Option.isSome_some, if_pos rfl]

theorem describes_of_ignored (hopens : opens frame = none)
    (haccepts : ∀ b ∈ r.fragments.find? (getSrcAddr frame), accepts b frame = none) :
    Describes factory heap (r.fragments.find? (getSrcAddr frame)) frame
      (r.handleFrame factory heap frame).reassembler.lastError := by
  have hno : ¬Succeeds factory heap (r.fragments.find? (getSrcAddr frame)) frame := by
    rw [succeeds_of_not_accepts haccepts]
    rintro ⟨-, c, hc⟩
    rw [hopens] at hc
    cases hc
  rw [(handleFrame_of_ignored hopens haccepts).2]
  refine ⟨iff_of_false (by split_ifs <;> decide) hno, fun _ => ?_⟩
  rw [callError, hopens, completed_of_not_accepts haccepts]
  rfl

theorem describes_of_completed {b : BAMFragments}
    (h : completed (r.fragments.find? (getSrcAddr frame)) frame = some b) {n : ℕ}
    (hreturned : (r.handleFrame factory heap frame).returned = .ok n) :
    Describes factory heap (r.fragments.find? (getSrcAddr frame)) frame
      (r.handleFrame factory heap frame).reassembler.lastError := by
  obtain ⟨b', dt, hfind, haccepts, -, -⟩ := completed_eq_some_iff.mp h
  have hsucceeds : Succeeds factory heap (r.fragments.find? (getSrcAddr frame)) frame ↔
      ∃ decoded, decodedMessage factory heap b = .ok (some decoded) := by
    rw [hfind, succeeds_of_accepts haccepts, ← hfind, h]
    simp only [Option.some.injEq, forall_eq']
  rw [handleFrame_of_completed h, finish_eq] at hreturned ⊢
  cases hvalue : decodedMessage factory heap b with
  | error e =>
    rw [hvalue] at hreturned
    cases hreturned
  | ok decoded =>
    rw [hvalue] at hsucceeds
    cases decoded with
    | none =>
      have hno : ¬Succeeds factory heap (r.fragments.find? (getSrcAddr frame)) frame := by
        rw [hsucceeds]
        rintro ⟨_, ⟨⟩⟩
      refine ⟨iff_of_false (by rintro ⟨⟩) hno, fun _ => ?_⟩
      rw [callError, opens_of_accepts haccepts, h]
      rfl
    | some decodedFrame =>
      have hyes := hsucceeds.mpr ⟨decodedFrame, rfl⟩
      exact ⟨iff_of_true rfl hyes, fun hno => absurd hyes hno⟩

/-- A packet in between succeeds, and leaves the last error as it was. -/
theorem describes_of_between {b : BAMFragments} {dt : TPDTFrame}
    (hfind : r.fragments.find? (getSrcAddr frame) = some b) (haccepts : accepts b frame = some dt)
    (hbetween : dt.sq ≠ b.cmFrame.totalPackets) :
    Describes factory heap (r.fragments.find? (getSrcAddr frame)) frame
        (r.handleFrame factory heap frame).reassembler.lastError ↔ r.lastError = .ok := by
  have hcompleted : completed (some b) frame = none := by
    rw [completed, Option.bind_some, haccepts, Option.bind_some, if_neg hbetween]
  have hyes : Succeeds factory heap (some b) frame := by
    rw [succeeds_of_accepts haccepts, hcompleted]
    rintro full ⟨⟩
  rw [handleFrame_of_accepts hfind haccepts, hfind]
  simp only [if_neg hbetween]
  exact ⟨fun h => h.ok_iff.mpr hyes, fun h => ⟨iff_of_true h hyes, fun hno => absurd hyes hno⟩⟩

/-- After a call that returns, the last error describes it exactly when the call leaves no
error behind. -/
theorem describes_iff_leavesNoError {n : ℕ}
    (hreturned : (r.handleFrame factory heap frame).returned = .ok n) :
    Describes factory heap (r.fragments.find? (getSrcAddr frame)) frame
        (r.handleFrame factory heap frame).reassembler.lastError ↔ LeavesNoError r frame := by
  by_cases hbetween : ∃ b dt, r.fragments.find? (getSrcAddr frame) = some b ∧
      accepts b frame = some dt ∧ dt.sq ≠ b.cmFrame.totalPackets
  · obtain ⟨b, dt, hfind, haccepts, hsq⟩ := hbetween
    rw [describes_of_between hfind haccepts hsq]
    refine ⟨fun h _ _ _ _ _ => h, fun h => h b dt hfind haccepts hsq⟩
  · refine iff_of_true ?_ fun b dt hfind haccepts hsq =>
      absurd ⟨b, dt, hfind, haccepts, hsq⟩ hbetween
    rcases stepLink_cases factory heap (r.fragments.find? (getSrcAddr frame)) frame with
      ⟨c, hopens, -⟩ | ⟨b, dt, -, hfind, haccepts, -⟩ | ⟨hopens, haccepts, -⟩
    · exact describes_of_opens hopens
    · have hlast : dt.sq = b.cmFrame.totalPackets :=
        not_not.mp fun hsq => hbetween ⟨b, dt, hfind, haccepts, hsq⟩
      exact describes_of_completed (completed_eq_some_iff.mpr ⟨b, dt, hfind, haccepts, hlast, rfl⟩)
        hreturned
    · exact describes_of_ignored hopens haccepts

end Calls

/-- A property of every call of `handleFrame` in a run, and of the state before it. -/
def EveryCall (factory : J1939Factory) (P : BamReassembler → Frame → Memory → Prop) :
    BamReassembler → List BamEvent → Prop
  | _, [] => True
  | r, e :: es =>
    (∀ frame heap, e = .handleFrame frame heap → P r frame heap) ∧
      EveryCall factory P (bamStep factory r e).1 es

theorem everyCall_congr {factory : J1939Factory} {P Q : BamReassembler → Frame → Memory → Prop}
    (h : ∀ r frame heap, P r frame heap ↔ Q r frame heap) (r : BamReassembler)
    (events : List BamEvent) : EveryCall factory P r events ↔ EveryCall factory Q r events := by
  induction events generalizing r with
  | nil => exact Iff.rfl
  | cons e es ih =>
    simp only [EveryCall, h, ih]

/-- In a run, the last error describes every call that returns exactly when no packet is
accepted in the middle of a message while an error stands. -/
theorem lastError_describes_iff (factory : J1939Factory) (r : BamReassembler)
    (events : List BamEvent) :
    EveryCall factory (fun r frame heap => ∀ n,
        (r.handleFrame factory heap frame).returned = .ok n →
          Describes factory heap (r.fragments.find? (getSrcAddr frame)) frame
            (r.handleFrame factory heap frame).reassembler.lastError) r events ↔
      EveryCall factory (fun r frame _ => LeavesNoError r frame) r events := by
  refine everyCall_congr (fun r frame heap => ?_) r events
  cases hreturned : (r.handleFrame factory heap frame).returned with
  | ok n =>
    simp only [Except.ok.injEq, forall_eq']
    exact describes_iff_leavesNoError hreturned
  | error e =>
    refine iff_of_true (by rintro n ⟨⟩) fun b dt hfind haccepts hsq => ?_
    -- a packet in between does not throw
    rw [handleFrame_of_accepts hfind haccepts] at hreturned
    simp only [if_neg hsq] at hreturned
    cases hreturned

/-- The error of a packet without a session outlives the packet that is accepted after it. -/
theorem lastError_not_describes :
    ¬EveryCall J1939Factory.new (fun r frame heap => ∀ n,
        (r.handleFrame J1939Factory.new heap frame).returned = .ok n →
          Describes J1939Factory.new heap (r.fragments.find? (getSrcAddr frame)) frame
            (r.handleFrame J1939Factory.new heap frame).reassembler.lastError) {}
      [.handleFrame (.tpcm (announcement 0xFEEC 9 2)) fun _ => 0,
        .handleFrame (.tpdt (firstPacket 0x20)) fun _ => 0,
        .handleFrame (.tpdt (firstPacket 0x10)) fun _ => 0] := by
  rintro ⟨-, -, hthird, -⟩
  have hdescribes := hthird _ _ rfl 9 (by decide +kernel)
  have haccepts : accepts { cmFrame := announcement 0xFEEC 9 2 } (.tpdt (firstPacket 0x10)) =
      some (firstPacket 0x10) := by decide
  have hok := (describes_of_between (b := { cmFrame := announcement 0xFEEC 9 2 })
    (by decide +kernel) haccepts (by decide)).mp hdescribes
  have herror : (bamRun J1939Factory.new {}
      [.handleFrame (.tpcm (announcement 0xFEEC 9 2)) fun _ => 0,
        .handleFrame (.tpdt (firstPacket 0x20)) fun _ => 0]).1.lastError = .unexpectedFrame := by
    decide +kernel
  exact absurd (hok.symm.trans herror) (by decide)

end J1939
