import J1939.DM1
import J1939.Messages
import J1939.Transport

/-!
# The factory of frames

`J1939Factory` holds one prototype per PGN. A received identifier and payload are
decoded into a copy of the prototype found under the PGN of the identifier.
-/

namespace J1939

/-- A `J1939Frame*`: the frame classes of the library. -/
inductive Frame
  | tpcm (f : TPCMFrame)
  | tpdt (f : TPDTFrame)
  | fms1 (f : FMS1Frame)
  | dm1 (f : DM1)
  | addressClaim (f : AddressClaimFrame)
  | request (f : RequestFrame)
  | generic (f : GenericFrame)
  deriving DecidableEq

namespace Frame

/-- Call a method of the object behind the pointer. -/
def call {F : Type} (f : F) (wrap : F → Frame) (m : Method F J1939Exception Unit) :
    Reads (Except J1939Exception Unit × Frame) :=
  Method.onPart (fun _ => f) (fun _ => wrap) m (wrap f)

theorem value_call {F : Type} (f : F) (wrap : F → Frame) (m : Method F J1939Exception Unit)
    (mem : Memory) : (call f wrap m).value mem = ((m.run f mem).1, wrap (m.run f mem).2) :=
  Method.run_onPart _ _ m (wrap f) mem

theorem accessed_call {F : Type} (f : F) (wrap : F → Frame)
    (m : Method F J1939Exception Unit) (mem : Memory) :
    (call f wrap m).accessed mem = m.accessed f mem :=
  Method.accessed_onPart _ _ m (wrap f) mem

protected def header : Frame → Header
  | tpcm f => J1939.header f
  | tpdt f => J1939.header f
  | fms1 f => J1939.header f
  | dm1 f => J1939.header f
  | addressClaim f => J1939.header f
  | request f => J1939.header f
  | generic f => J1939.header f

protected def withHeader : Frame → Header → Frame
  | tpcm f, h => tpcm (J1939.withHeader f h)
  | tpdt f, h => tpdt (J1939.withHeader f h)
  | fms1 f, h => fms1 (J1939.withHeader f h)
  | dm1 f, h => dm1 (J1939.withHeader f h)
  | addressClaim f, h => addressClaim (J1939.withHeader f h)
  | request f, h => request (J1939.withHeader f h)
  | generic f, h => generic (J1939.withHeader f h)

protected def getPGN : Frame → UInt32
  | tpcm f => J1939.getPGN f
  | tpdt f => J1939.getPGN f
  | fms1 f => J1939.getPGN f
  | dm1 f => J1939.getPGN f
  | addressClaim f => J1939.getPGN f
  | request f => J1939.getPGN f
  | generic f => J1939.getPGN f

/-- The virtual call of `decodeData`. -/
protected def decodeData (length : ℕ) : Method Frame J1939Exception Unit
  | tpcm f => call f tpcm (J1939.decodeData length)
  | tpdt f => call f tpdt (J1939.decodeData length)
  | fms1 f => call f fms1 (J1939.decodeData length)
  | dm1 f => call f dm1 (J1939.decodeData length)
  | addressClaim f => call f addressClaim (J1939.decodeData length)
  | request f => call f request (J1939.decodeData length)
  | generic f => call f generic (J1939.decodeData length)

/-- The virtual call of `encodeData`. -/
protected def encodeData : Frame → List UInt8 → Except J1939Exception (List UInt8)
  | tpcm f => J1939.encodeData f
  | tpdt f => J1939.encodeData f
  | fms1 f => J1939.encodeData f
  | dm1 f => J1939.encodeData f
  | addressClaim f => J1939.encodeData f
  | request f => J1939.encodeData f
  | generic f => J1939.encodeData f

/-- The virtual call of `getDataLength`. -/
protected def getDataLength : Frame → ℕ
  | tpcm f => J1939.getDataLength f
  | tpdt f => J1939.getDataLength f
  | fms1 f => J1939.getDataLength f
  | dm1 f => J1939.getDataLength f
  | addressClaim f => J1939.getDataLength f
  | request f => J1939.getDataLength f
  | generic f => J1939.getDataLength f

instance : IsJ1939Frame Frame where
  header := Frame.header
  withHeader := Frame.withHeader
  getPGN := Frame.getPGN
  decodeData := Frame.decodeData
  encodeData := Frame.encodeData
  getDataLength := Frame.getDataLength
  header_withHeader f h := by cases f <;> exact IsJ1939Frame.header_withHeader _ h
  withHeader_header f := by cases f <;> rfl
  withHeader_withHeader f _ _ := by cases f <;> rfl
  getPGN_withHeader f h := by cases f <;> exact IsJ1939Frame.getPGN_withHeader _ h
  decodeData_header f length mem := by
    cases f <;> rw [Method.run, Frame.decodeData, value_call] <;>
      exact IsJ1939Frame.decodeData_header _ length mem
  decodeData_getPGN f length mem := by
    cases f <;> rw [Method.run, Frame.decodeData, value_call] <;>
      exact IsJ1939Frame.decodeData_getPGN _ length mem
  encodeData_length f buffer out h := by
    cases f <;> exact IsJ1939Frame.encodeData_length _ _ _ h

end Frame

/-- `J1939Factory`: the prototypes by PGN. -/
structure J1939Factory where
  frames : SortedMap UInt32 Frame := ∅

namespace J1939Factory

/-- `getJ1939Frame` by PGN: a copy of the prototype. -/
def getFrameByPgn (factory : J1939Factory) (pgn : UInt32) : Option Frame :=
  factory.frames.find? pgn

/-- `getJ1939Frame` by name. -/
def getFrameByName (factory : J1939Factory) (name : String) : Option Frame :=
  factory.frames.values.find? fun frame => getName frame = name

/-- `registerFrame`: a PGN that is taken keeps its prototype. -/
def registerFrame (factory : J1939Factory) (frame : Frame) : J1939Factory × Bool :=
  match factory.frames.find? (getPGN frame) with
  | none => (⟨factory.frames.insert (getPGN frame) frame⟩, true)
  | some _ => (factory, false)

/-- `unRegisterFrame`. -/
def unRegisterFrame (factory : J1939Factory) (pgn : UInt32) : J1939Factory :=
  ⟨factory.frames.erase pgn⟩

/-- `unregisterAllFrames`. -/
def unregisterAllFrames (_factory : J1939Factory) : J1939Factory := ⟨∅⟩

/-- `getAllRegisteredPGNs`. -/
def getAllRegisteredPGNs (factory : J1939Factory) : List UInt32 :=
  factory.frames.entries.map Prod.fst

/-- The frames that `registerPredefinedFrames` registers, in order. -/
def predefinedFrames : List Frame :=
  [.tpcm TPCMFrame.new, .tpdt TPDTFrame.new, .fms1 FMS1Frame.new, .dm1 DM1.new,
    .addressClaim AddressClaimFrame.new, .request RequestFrame.new]

/-- Register frames one after the other. -/
def registerFrames (factory : J1939Factory) (frames : List Frame) : J1939Factory :=
  frames.foldl (fun factory frame => (factory.registerFrame frame).1) factory

/-- The constructor of `J1939Factory`. -/
def new : J1939Factory := registerFrames ⟨∅⟩ predefinedFrames

/-- `getJ1939Frame` from an identifier and a payload: a null pointer when the PGN is
unknown. -/
def getJ1939Frame (factory : J1939Factory) (id : UInt32) (length : ℕ) :
    Reads (Except J1939Exception (Option Frame)) :=
  match factory.frames.find? (lookupPgn id) with
  | none => .done (.ok none)
  | some frame => (decode id length frame).bind fun
    | (.ok (), retFrame) => .done (.ok (some retFrame))
    | (.error e, _) => .done (.error e)

/-- Frames that a program can have registered: each under its own PGN. -/
def KeysMatch (factory : J1939Factory) : Prop :=
  ∀ pgn frame, factory.frames.find? pgn = some frame → getPGN frame = pgn

theorem registerFrame_keysMatch {factory : J1939Factory} (h : factory.KeysMatch)
    (frame : Frame) : (factory.registerFrame frame).1.KeysMatch := by
  intro pgn f hf
  unfold registerFrame at hf
  split at hf
  · rw [SortedMap.find?_insert] at hf
    split_ifs at hf with hpgn
    · cases hf
      exact hpgn.symm
    · exact h pgn f hf
  · exact h pgn f hf

theorem registerFrames_keysMatch {factory : J1939Factory} (h : factory.KeysMatch)
    (frames : List Frame) : (factory.registerFrames frames).KeysMatch := by
  induction frames generalizing factory with
  | nil => exact h
  | cons frame frames ih => exact ih (registerFrame_keysMatch h frame)

theorem unRegisterFrame_keysMatch {factory : J1939Factory} (h : factory.KeysMatch)
    (pgn : UInt32) : (factory.unRegisterFrame pgn).KeysMatch := by
  intro pgn' f hf
  rw [unRegisterFrame, SortedMap.find?_erase] at hf
  split_ifs at hf
  exact h pgn' f hf

theorem new_keysMatch : new.KeysMatch :=
  registerFrames_keysMatch (fun _ _ h => by cases h) predefinedFrames

theorem find?_registerFrame {factory : J1939Factory} {pgn : UInt32} {frame : Frame}
    (h : factory.frames.find? pgn = some frame) (f : Frame) :
    (factory.registerFrame f).1.frames.find? pgn = some frame := by
  unfold registerFrame
  split
  · next hnone =>
    rw [SortedMap.find?_insert, if_neg]
    · exact h
    · rintro rfl
      rw [hnone] at h
      cases h
  · exact h

/-- A registered frame stays registered: later frames do not replace it. -/
theorem find?_registerFrames {factory : J1939Factory} {pgn : UInt32} {frame : Frame}
    (h : factory.frames.find? pgn = some frame) (frames : List Frame) :
    (factory.registerFrames frames).frames.find? pgn = some frame := by
  induction frames generalizing factory with
  | nil => exact h
  | cons f frames ih => exact ih (find?_registerFrame h f)

/-- Decoding a received frame is decoding into a copy of its prototype. -/
theorem value_getJ1939Frame (factory : J1939Factory) (id : UInt32) (length : ℕ) (mem : Memory) :
    (factory.getJ1939Frame id length).value mem =
      match factory.frames.find? (lookupPgn id) with
      | none => .ok none
      | some frame =>
        match (decode id length).run frame mem with
        | (.ok (), retFrame) => .ok (some retFrame)
        | (.error e, _) => .error e := by
  unfold getJ1939Frame
  split
  · rfl
  · rw [Reads.value_bind, Method.run]
    split <;> simp_all [Reads.value]

/-- A frame that the factory returns has been decoded into a copy of a prototype. -/
theorem exists_run_of_value {factory : J1939Factory} {id : UInt32} {length : ℕ} {mem : Memory}
    {retFrame : Frame} (h : (factory.getJ1939Frame id length).value mem = .ok (some retFrame)) :
    ∃ frame, factory.frames.find? (lookupPgn id) = some frame ∧
      (decode id length).run frame mem = (.ok (), retFrame) := by
  rw [value_getJ1939Frame] at h
  cases hfind : factory.frames.find? (lookupPgn id) with
  | none =>
    rw [hfind] at h
    cases h
  | some frame =>
    rw [hfind] at h
    rcases hrun : (decode id length).run frame mem with ⟨_ | ⟨⟩, f'⟩
    · simp only [hrun] at h
      cases h
    · simp only [hrun] at h
      cases h
      exact ⟨frame, rfl, hrun⟩

theorem accessed_getJ1939Frame (factory : J1939Factory) (id : UInt32) (length : ℕ)
    (mem : Memory) :
    (factory.getJ1939Frame id length).accessed mem =
      match factory.frames.find? (lookupPgn id) with
      | none => []
      | some frame => (decode id length).accessed frame mem := by
  unfold getJ1939Frame
  split
  · rfl
  · rw [Reads.accessed_bind, Method.accessed]
    split <;> simp [Reads.accessed]

end J1939Factory

end J1939
