import J1939.Bam
import J1939.Lib.Keyed

/-!
# One session per source address

`BamReassembler` is a set of independent links, one for each source address. A link
is the open session of its source, or none; a frame moves the link of its source and
leaves the others alone.
-/

namespace J1939

open BamReassembler

/-- The effect of a frame on the link of its source: the session after it, the frame
put in the queue and the call of the factory. -/
structure LinkResult where
  session : Option BAMFragments
  delivered : Option Frame := none
  call : Option FactoryCall := none

/-- A link whose packets have all been received. -/
def finishLink (factory : J1939Factory) (heap : Memory) (b : BAMFragments) : LinkResult :=
  let full := reassemble b heap
  let call : FactoryCall := ⟨newId b.cmFrame, full.1, full.2⟩
  match (factory.getJ1939Frame call.id call.length).value call.data with
  | .error _ => ⟨some b, none, some call⟩
  | .ok decodedFrame => ⟨none, decodedFrame, some call⟩

/-- A link that receives a packet. -/
def dataLink (factory : J1939Factory) (heap : Memory) (session : Option BAMFragments)
    (data : TPDTFrame) : LinkResult :=
  match session with
  | none => ⟨none, none, none⟩
  | some b =>
    if expects b data.sq then
      if data.sq = b.cmFrame.totalPackets then finishLink factory heap (b.addDtFrame data)
      else ⟨some (b.addDtFrame data), none, none⟩
    else ⟨some b, none, none⟩

/-- A link that receives a connection frame. -/
def connLink (session : Option BAMFragments) (conn : TPCMFrame) : LinkResult :=
  if conn.ctrlType = ctrlTpcmBam then ⟨some { cmFrame := conn }, none, none⟩
  else ⟨session, none, none⟩

/-- A link that receives a frame. -/
def stepLink (factory : J1939Factory) (heap : Memory) (session : Option BAMFragments)
    (frame : Frame) : LinkResult :=
  if getDstAddr frame ≠ broadcastAddress then ⟨session, none, none⟩
  else if getPGN frame = tpCmPgn then connLink session frame.asTPCM
  else if getPGN frame = tpDtPgn then dataLink factory heap session frame.asTPDT
  else ⟨session, none, none⟩

/-- A call on the reassembler moved one link as `moved` says. -/
structure MovesLink (r : BamReassembler) (srcAddr : UInt8) (res : HandleResult)
    (moved : LinkResult) : Prop where
  call : res.call = moved.call
  queue : res.reassembler.reassembledFrames = r.reassembledFrames ++ moved.delivered.toList
  session : ∀ k, res.reassembler.fragments.find? k =
    if k = srcAddr then moved.session else r.fragments.find? k

variable {factory : J1939Factory} {heap : Memory} {r : BamReassembler} {srcAddr : UInt8}

/-- Setting the error code moves nothing. -/
theorem movesLink_setError (status : EBamError) (returned : Except J1939Exception ℕ) :
    MovesLink r srcAddr ⟨r.setError status, returned, none⟩
      ⟨r.fragments.find? srcAddr, none, none⟩ where
  call := rfl
  queue := (List.append_nil _).symm
  session k := by
    by_cases hk : k = srcAddr
    · rw [if_pos hk, hk]
      rfl
    · rw [if_neg hk]
      rfl

theorem handleConn_movesLink (conn : TPCMFrame) :
    MovesLink r srcAddr (r.handleConn srcAddr conn)
      (connLink (r.fragments.find? srcAddr) conn) := by
  unfold handleConn connLink
  by_cases hctrl : conn.ctrlType = ctrlTpcmBam
  · rw [if_neg (not_not.mpr hctrl), if_pos hctrl]
    cases hfind : r.fragments.find? srcAddr with
    | none =>
      refine ⟨rfl, (List.append_nil _).symm, fun k => ?_⟩
      simp only [setError, SortedMap.find?_insert]
    | some b =>
      refine ⟨rfl, (List.append_nil _).symm, fun k => ?_⟩
      simp only [setError, SortedMap.find?_insert, SortedMap.find?_erase]
      by_cases hk : k = srcAddr
      · rw [if_pos hk, if_pos hk]
      · rw [if_neg hk, if_neg hk, if_neg hk]
  · rw [if_pos hctrl, if_neg hctrl]
    exact movesLink_setError _ _

theorem finish_movesLink {b : BAMFragments} {r' : BamReassembler}
    (hqueue : r'.reassembledFrames = r.reassembledFrames)
    (hfind : ∀ k, r'.fragments.find? k = if k = srcAddr then some b else r.fragments.find? k) :
    MovesLink r srcAddr (finish factory heap r' srcAddr b) (finishLink factory heap b) := by
  simp only [finish, finishLink]
  generalize (factory.getJ1939Frame (newId b.cmFrame) (reassemble b heap).2).value
    (reassemble b heap).1 = decoded
  have herase : ∀ k, (r'.fragments.erase srcAddr).find? k =
      if k = srcAddr then none else r.fragments.find? k := by
    intro k
    rw [SortedMap.find?_erase, hfind]
    by_cases hk : k = srcAddr
    · rw [if_pos hk, if_pos hk]
    · rw [if_neg hk, if_neg hk, if_neg hk]
  rcases decoded with e | (_ | decodedFrame)
  · exact ⟨rfl, by simp [hqueue], hfind⟩
  · exact ⟨rfl, by simp [hqueue], herase⟩
  · exact ⟨rfl, by simp [hqueue], herase⟩

theorem handleData_movesLink (data : TPDTFrame) :
    MovesLink r srcAddr (r.handleData factory heap srcAddr data)
      (dataLink factory heap (r.fragments.find? srcAddr) data) := by
  have hsame : ∀ status returned, MovesLink r srcAddr ⟨r.setError status, returned, none⟩
      ⟨r.fragments.find? srcAddr, none, none⟩ := fun _ _ => movesLink_setError _ _
  unfold handleData dataLink
  cases hfind : r.fragments.find? srcAddr with
  | none =>
    rw [hfind] at hsame
    exact hsame _ _
  | some b =>
    rw [hfind] at hsame
    simp only
    by_cases hexpects : expects b data.sq
    · rw [if_pos hexpects, if_pos hexpects]
      by_cases hlast : data.sq = b.cmFrame.totalPackets
      · rw [if_pos hlast, if_pos hlast]
        exact finish_movesLink rfl fun k => SortedMap.find?_insert _ _ _ _
      · rw [if_neg hlast, if_neg hlast]
        exact ⟨rfl, (List.append_nil _).symm, fun k => SortedMap.find?_insert _ _ _ _⟩
    · rw [if_neg hexpects, if_neg hexpects]
      exact hsame _ _

/-- The reassembler refines its links: a frame moves the link of its source only. -/
theorem handleFrame_movesLink (factory : J1939Factory) (heap : Memory) (r : BamReassembler)
    (frame : Frame) :
    MovesLink r (getSrcAddr frame) (r.handleFrame factory heap frame)
      (stepLink factory heap (r.fragments.find? (getSrcAddr frame)) frame) := by
  unfold handleFrame stepLink
  by_cases hdst : getDstAddr frame ≠ broadcastAddress
  · rw [if_pos hdst, if_pos hdst]
    exact movesLink_setError _ _
  rw [if_neg hdst, if_neg hdst]
  by_cases hcm : getPGN frame = tpCmPgn
  · rw [if_pos hcm, if_pos hcm]
    exact handleConn_movesLink _
  rw [if_neg hcm, if_neg hcm]
  by_cases hdt : getPGN frame = tpDtPgn
  · rw [if_pos hdt, if_pos hdt]
    exact handleData_movesLink _
  · rw [if_neg hdt, if_neg hdt]
    exact movesLink_setError _ _

/-! ### The moves of a link -/

/-- The connection frame that opens a session. -/
def opens : Frame → Option TPCMFrame
  | .tpcm c =>
    if c.ctrlType = ctrlTpcmBam ∧ c.dstAddr = broadcastAddress then some c else none
  | _ => none

/-- The packet that a session accepts. -/
def accepts (b : BAMFragments) : Frame → Option TPDTFrame
  | .tpdt dt => if dt.dstAddr = broadcastAddress ∧ expects b dt.sq then some dt else none
  | _ => none

/-- A session that has accepted a packet. -/
def extendLink (factory : J1939Factory) (heap : Memory) (b : BAMFragments) (dt : TPDTFrame) :
    LinkResult :=
  if dt.sq = b.cmFrame.totalPackets then finishLink factory heap (b.addDtFrame dt)
  else ⟨some (b.addDtFrame dt), none, none⟩

theorem not_expects_zero (b : BAMFragments) : ¬expects b 0 := by
  rintro ⟨-, h⟩
  have hzero : (0 : UInt8).toNat = 0 := rfl
  omega

theorem opens_eq_some_iff {frame : Frame} {c : TPCMFrame} :
    opens frame = some c ↔
      frame = .tpcm c ∧ c.ctrlType = ctrlTpcmBam ∧ c.dstAddr = broadcastAddress := by
  cases frame with
  | tpcm c' =>
    rw [opens, Option.ite_none_right_eq_some, Option.some.injEq, Frame.tpcm.injEq]
    constructor
    · rintro ⟨h, rfl⟩
      exact ⟨rfl, h⟩
    · rintro ⟨rfl, h⟩
      exact ⟨h, rfl⟩
  | _ => simp [opens]

theorem accepts_eq_some_iff {b : BAMFragments} {frame : Frame} {dt : TPDTFrame} :
    accepts b frame = some dt ↔
      frame = .tpdt dt ∧ dt.dstAddr = broadcastAddress ∧ expects b dt.sq := by
  cases frame with
  | tpdt dt' =>
    rw [accepts, Option.ite_none_right_eq_some, Option.some.injEq, Frame.tpdt.injEq]
    constructor
    · rintro ⟨h, rfl⟩
      exact ⟨rfl, h⟩
    · rintro ⟨rfl, h⟩
      exact ⟨h, rfl⟩
  | _ => simp [accepts]

theorem stepLink_of_opens {session : Option BAMFragments} {frame : Frame} {c : TPCMFrame}
    (h : opens frame = some c) :
    stepLink factory heap session frame = ⟨some { cmFrame := c }, none, none⟩ := by
  obtain ⟨rfl, hctrl, hdst⟩ := opens_eq_some_iff.mp h
  exact (if_neg (not_not.mpr hdst)).trans ((if_pos rfl).trans (if_pos hctrl))

theorem stepLink_of_accepts {b : BAMFragments} {frame : Frame} {dt : TPDTFrame}
    (h : accepts b frame = some dt) :
    stepLink factory heap (some b) frame = extendLink factory heap b dt := by
  obtain ⟨rfl, hdst, hexpects⟩ := accepts_eq_some_iff.mp h
  have hpgn : ¬getPGN (Frame.tpdt dt) = tpCmPgn := by
    change ¬tpDtPgn = tpCmPgn
    decide
  exact (if_neg (not_not.mpr hdst)).trans ((if_neg hpgn).trans ((if_pos rfl).trans
    (if_pos hexpects)))

/-- A broadcast frame that opens no session is no announcement. -/
theorem ctrlType_ne_bam {frame : Frame} (hopens : opens frame = none)
    (hdst : getDstAddr frame = broadcastAddress) : frame.asTPCM.ctrlType ≠ ctrlTpcmBam := by
  intro hctrl
  obtain ⟨c, rfl⟩ := Frame.eq_tpcm_of_bam hctrl
  have hsome : opens (.tpcm c) = some c := opens_eq_some_iff.mpr ⟨rfl, hctrl, hdst⟩
  rw [hsome] at hopens
  cases hopens

/-- A broadcast frame that a session does not accept is not the packet that it expects. -/
theorem not_expects_sq {b : BAMFragments} {frame : Frame} (haccepts : accepts b frame = none)
    (hdst : getDstAddr frame = broadcastAddress) : ¬expects b frame.asTPDT.sq := by
  intro hexpects
  obtain ⟨dt, rfl⟩ := Frame.eq_tpdt_of_sq fun hzero => not_expects_zero b (hzero ▸ hexpects)
  have hsome : accepts b (.tpdt dt) = some dt := accepts_eq_some_iff.mpr ⟨rfl, hdst, hexpects⟩
  rw [hsome] at haccepts
  cases haccepts

/-- Any other frame leaves its link alone. -/
theorem stepLink_of_ignored {session : Option BAMFragments} {frame : Frame}
    (hopens : opens frame = none) (haccepts : ∀ b ∈ session, accepts b frame = none) :
    stepLink factory heap session frame = ⟨session, none, none⟩ := by
  unfold stepLink
  by_cases hdst : getDstAddr frame ≠ broadcastAddress
  · rw [if_pos hdst]
  rw [if_neg hdst]
  rw [not_not] at hdst
  by_cases hcm : getPGN frame = tpCmPgn
  · rw [if_pos hcm, connLink, if_neg]
    exact ctrlType_ne_bam hopens hdst
  rw [if_neg hcm]
  by_cases hdt : getPGN frame = tpDtPgn
  · rw [if_pos hdt]
    cases session with
    | none => rfl
    | some b =>
      rw [dataLink, if_neg]
      exact not_expects_sq (haccepts b rfl) hdst
  · rw [if_neg hdt]

/-- The three moves of a link: a connection frame opens a session, whatever was there;
the next packet extends it, and closes it when it is the last; nothing else counts. -/
theorem stepLink_cases (factory : J1939Factory) (heap : Memory) (session : Option BAMFragments)
    (frame : Frame) :
    (∃ c, opens frame = some c ∧
        stepLink factory heap session frame = ⟨some { cmFrame := c }, none, none⟩) ∨
      (∃ b dt, opens frame = none ∧ session = some b ∧ accepts b frame = some dt ∧
        stepLink factory heap session frame = extendLink factory heap b dt) ∨
      (opens frame = none ∧ (∀ b ∈ session, accepts b frame = none) ∧
        stepLink factory heap session frame = ⟨session, none, none⟩) := by
  cases hopens : opens frame with
  | some c => exact Or.inl ⟨c, rfl, stepLink_of_opens hopens⟩
  | none =>
    cases session with
    | none =>
      have hnone : ∀ b ∈ (none : Option BAMFragments), accepts b frame = none :=
        fun b hb => by cases hb
      exact Or.inr (Or.inr ⟨rfl, hnone, stepLink_of_ignored hopens hnone⟩)
    | some b =>
      cases haccepts : accepts b frame with
      | some dt => exact Or.inr (Or.inl ⟨b, dt, rfl, rfl, haccepts, stepLink_of_accepts haccepts⟩)
      | none =>
        have hnone : ∀ b' ∈ some b, accepts b' frame = none := by
          rintro b' ⟨⟩
          exact haccepts
        exact Or.inr (Or.inr ⟨rfl, hnone, stepLink_of_ignored hopens hnone⟩)

/-- The call of the factory for a complete session. -/
def deliveryOf (b : BAMFragments) (heap : Memory) : FactoryCall :=
  ⟨newId b.cmFrame, (reassemble b heap).1, (reassemble b heap).2⟩

/-- A complete session calls the factory once; it is erased unless that call throws. -/
theorem finishLink_eq (b : BAMFragments) :
    finishLink factory heap b =
      match (factory.getJ1939Frame (deliveryOf b heap).id (deliveryOf b heap).length).value
        (deliveryOf b heap).data with
      | .error _ => ⟨some b, none, some (deliveryOf b heap)⟩
      | .ok decodedFrame => ⟨none, decodedFrame, some (deliveryOf b heap)⟩ := rfl

theorem finishLink_call (b : BAMFragments) :
    (finishLink factory heap b).call = some (deliveryOf b heap) := by
  rw [finishLink_eq]
  split <;> rfl

theorem finishLink_session {b b' : BAMFragments}
    (h : (finishLink factory heap b).session = some b') : b' = b := by
  rw [finishLink_eq] at h
  split at h
  · exact (Option.some.inj h).symm
  · cases h

theorem extendLink_session {b b' : BAMFragments} {dt : TPDTFrame}
    (h : (extendLink factory heap b dt).session = some b') : b' = b.addDtFrame dt := by
  unfold extendLink at h
  split_ifs at h
  · exact finishLink_session h
  · exact (Option.some.inj h).symm

/-- The session that a frame completes, with its last packet. -/
def completed (session : Option BAMFragments) (frame : Frame) : Option BAMFragments :=
  session.bind fun b => (accepts b frame).bind fun dt =>
    if dt.sq = b.cmFrame.totalPackets then some (b.addDtFrame dt) else none

theorem completed_eq_some_iff {session : Option BAMFragments} {frame : Frame}
    {b' : BAMFragments} :
    completed session frame = some b' ↔
      ∃ b dt, session = some b ∧ accepts b frame = some dt ∧
        dt.sq = b.cmFrame.totalPackets ∧ b' = b.addDtFrame dt := by
  simp only [completed, Option.bind_eq_some_iff, Option.ite_none_right_eq_some,
    Option.some.injEq, eq_comm (a := b')]
  constructor
  · rintro ⟨b, hb, dt, hdt, hlast, h⟩
    exact ⟨b, dt, hb, hdt, hlast, h⟩
  · rintro ⟨b, dt, hb, hdt, hlast, h⟩
    exact ⟨b, hb, dt, hdt, hlast, h⟩

/-- The factory is called for the session that a frame completes, and only then. -/
theorem stepLink_call (factory : J1939Factory) (heap : Memory) (session : Option BAMFragments)
    (frame : Frame) :
    (stepLink factory heap session frame).call =
      (completed session frame).map fun b => deliveryOf b heap := by
  rcases stepLink_cases factory heap session frame with
    ⟨c, hopens, hstep⟩ | ⟨b, dt, -, rfl, haccepts, hstep⟩ | ⟨-, haccepts, hstep⟩
  · obtain ⟨rfl, -, -⟩ := opens_eq_some_iff.mp hopens
    rw [hstep]
    cases session <;> rfl
  · rw [hstep, extendLink, completed, Option.bind_some, haccepts, Option.bind_some]
    split_ifs
    · exact finishLink_call _
    · rfl
  · rw [hstep]
    cases session with
    | none => rfl
    | some b => rw [completed, Option.bind_some, haccepts b rfl]; rfl

/-! ### Runs -/

/-- A call on a reassembler. What the heap holds when a payload is allocated belongs
to the call. -/
inductive BamEvent
  | handleFrame (frame : Frame) (heap : Memory)
  | dequeueReassembledFrame

namespace BamEvent

/-- The handled frame. -/
def frame : BamEvent → Option Frame
  | handleFrame frame _ => some frame
  | dequeueReassembledFrame => none

/-- The source address of the handled frame. -/
def source : BamEvent → Option UInt8
  | handleFrame frame _ => some (getSrcAddr frame)
  | dequeueReassembledFrame => none

end BamEvent

/-- One call on the reassembler, with the call of the factory that it makes. An
exception is caught by the caller. -/
def bamStep (factory : J1939Factory) (r : BamReassembler) :
    BamEvent → BamReassembler × Option FactoryCall
  | .handleFrame frame heap =>
    ((r.handleFrame factory heap frame).reassembler, (r.handleFrame factory heap frame).call)
  | .dequeueReassembledFrame => (r.dequeueReassembledFrame.2, none)

/-- A sequence of calls on the reassembler. -/
def bamRun (factory : J1939Factory) :
    BamReassembler → List BamEvent → BamReassembler × List (BamEvent × Option FactoryCall) :=
  runMachine (bamStep factory)

/-- The step of one link as a machine. -/
def linkStep (factory : J1939Factory) (session : Option BAMFragments) :
    BamEvent → Option BAMFragments × Option FactoryCall
  | .handleFrame frame heap =>
    ((stepLink factory heap session frame).session, (stepLink factory heap session frame).call)
  | .dequeueReassembledFrame => (session, none)

/-- The reassembler is made of one link for each source address. -/
def bamLinks (factory : J1939Factory) :
    Keyed BamReassembler BamEvent (Option FactoryCall) UInt8 (Option BAMFragments) where
  step := bamStep factory
  key := BamEvent.source
  view k r := r.fragments.find? k
  part _ := linkStep factory
  inv _ := True
  inv_step _ _ _ := trivial
  view_of_key r e k _ hkey := by
    cases e with
    | handleFrame frame heap =>
      obtain rfl : getSrcAddr frame = k := Option.some.inj hkey
      have hmove := handleFrame_movesLink factory heap r frame
      exact Prod.ext ((hmove.session _).trans (if_pos rfl)) hmove.call
    | dequeueReassembledFrame => cases hkey
  view_of_ne r e k _ hkey := by
    cases e with
    | handleFrame frame heap =>
      have hmove := handleFrame_movesLink factory heap r frame
      exact (hmove.session k).trans (if_neg fun h => hkey (congrArg some h.symm))
    | dequeueReassembledFrame => rfl

end J1939
