import J1939.ChangeDetection
import J1939.DataBase
import J1939.Lib.Last
import J1939.SPNHistory
import J1939.SenderCommands
import J1939.TRC

/-!
# The receiver of the web backend

`onRcv` keeps a table of what has been received, by identifier, for the web page. It leaves the
table alone when the data of an identifier are those of the last time.
-/

namespace J1939

/-! ### Frames for the page -/

/-- The descriptions of a status. Their keys are taken for indices, so that gaps are null. -/
def descriptionsToJson (descriptions : SortedMap UInt8 String) : List (String × Json) :=
  match descriptions.last? with
  | none => []
  | some (last, _) =>
    [("descriptions", .array ((List.range (last.toNat + 1)).map fun i =>
      (descriptions.find? (UInt8.ofNat i)).elim .null .string))]

/-- An SPN in `frameToJson`. The characters of a string are its bytes. -/
def spnToJson (number : UInt32) (spn : SPN) : Json :=
  .object ([("number", .int number.toNat), ("name", .string spn.spec.name),
    ("type", .int spn.getType.toNat)] ++
      match spn with
      | .numeric n => [("value", .real n.getFormattedValue), ("units", .string n.numSpec.units)]
      | .status s => ("value", .int s.value.toNat) :: descriptionsToJson s.statSpec.valueToDesc
      | .string s =>
        [("value", .string (String.ofList (s.value.map fun b => Char.ofNat b.toNat)))])

def dtcToJson (dtc : DTC) : Json :=
  .object [("spn", .int dtc.spn.toNat), ("fmi", .int dtc.fmi.toNat), ("oc", .int dtc.oc.toNat)]

/-- The cast to `DM1` of a frame with its PGN. -/
def Frame.asDM1 : Frame → DM1
  | .dm1 f => f
  | _ => DM1.new

/-- A member that is an array, which is there when it has elements. -/
def arrayMember (name : String) (elements : List Json) : List (String × Json) :=
  if elements = [] then [] else [(name, .array elements)]

/-- `frameToJson`, with the members in the order of their assignments. -/
def frameToJson (frame : Frame) : Json :=
  .object ([("pgn", .int (getPGN frame).toNat), ("name", .string (getName frame)),
    ("priority", .int (getPriority frame).toNat), ("source", .int (getSrcAddr frame).toNat)] ++
    (if getPDUFormatGroup (getPGN frame) = .pduFormat1 then
      [("dest", .int (getDstAddr frame).toNat)] else []) ++
    (frame.asGeneric.elim [] fun f =>
      arrayMember "spns" (f.spns.entries.map fun (number, spn) => spnToJson number spn)) ++
    if getPGN frame = dm1Pgn then arrayMember "dtcs" (frame.asDM1.dtcs.map dtcToJson) else [])

/-- `CanFrame::hexDump`. -/
def CanFrame.hexDump (frame : CanFrame) : List Char := frame.data.flatMap printOctet

/-! ### The receiver -/

/-- The globals of the receiving thread. A map that creates what it is asked for is a function. -/
structure Receiver where
  rcvFramesCache : SortedMap UInt32 CanFrame := ∅
  rcvFramesCount : SortedMap UInt32 UInt32 := ∅
  reassembler : BamReassembler := {}
  historyMap : UInt64 → SPNHistory := fun _ => {}

/-- A call of `onRcv`, with what else it depends on: the option of the page, the clock, the
addresses of the specifications and the bytes in memory behind the cached data. -/
structure ReceivedFrame extends Reception where
  showRaw : Bool
  now : UInt32 → TimeStamp
  specAddress : UInt32 → ℕ
  behindCached : Memory

/-- An assignment to a member of `rxFrames["rx"]`, under `rxLock`. -/
inductive RxWrite
  | count (id count : UInt32)
  | raw (id : UInt32) (dump : List Char)
  | frame (id : UInt32) (json : Json)

namespace Receiver

/-- The count under an identifier goes up. -/
def countFrame (r : Receiver) (id : UInt32) : Receiver × UInt32 :=
  let count := (r.rcvFramesCount.find? id).getD 0 + 1
  ({ r with rcvFramesCount := r.rcvFramesCount.insert id count }, count)

/-- The raw data are those in the cache. -/
def Unchanged (r : Receiver) (frame : CanFrame) : Prop :=
  (r.rcvFramesCache.find? frame.id).map CanFrame.data = some frame.data

instance (r : Receiver) (frame : CanFrame) : Decidable (r.Unchanged frame) :=
  inferInstanceAs (Decidable (_ = _))

def cache (r : Receiver) (frame : CanFrame) : Receiver :=
  { r with rcvFramesCache := r.rcvFramesCache.insert frame.id frame }

/-- `saveToHistory`. -/
def saveToHistory (x : ReceivedFrame) (id : UInt32) (r : Receiver) (spn : SPN) : Receiver :=
  let number := spn.getSpnNumber
  let key := id.toUInt64 ||| (number.toUInt64 <<< 32)
  let history := (r.historyMap key).addSample ⟨x.now number, x.specAddress number, spn⟩
  { r with historyMap := fun key' => if key' = key then history else r.historyMap key' }

/-- The SPNs that have changed go to the history, each to its own one. -/
def saveChanges (r : Receiver) (x : ReceivedFrame) (j1939Frame : Frame) : Receiver :=
  match j1939Frame.asGeneric with
  | none => r
  | some genFrame =>
    let cached := ((r.rcvFramesCache.find? x.id).map CanFrame.data).getD []
    let numbers := genFrame.compare x.memory (Memory.ofList cached x.behindCached) x.length
      cached.length
    (numbers.filterMap genFrame.spns.find?).foldl (saveToHistory x (getIdentifier j1939Frame)) r

variable (factory : J1939Factory)

/-- What `onRcv` does with data that have changed. -/
def process (r : Receiver) (x : ReceivedFrame) :
    Except J1939Exception (Receiver × List RxWrite) :=
  match (factory.getJ1939Frame x.id x.length).value x.memory with
  | .error e => .error e
  | .ok none => .ok (if x.showRaw then (r.cache x.frame, [.raw x.id x.frame.hexDump]) else (r, []))
  | .ok (some j1939Frame) =>
    if BamReassembler.toBeHandled j1939Frame then
      let res := r.reassembler.handleFrame factory x.heap j1939Frame
      match res.returned with
      | .error e => .error e
      | .ok _ =>
        match res.reassembler.dequeueReassembledFrame with
        | (some full, reassembler) =>
          let id := getIdentifier full
          let (r, count) := { r with reassembler := reassembler }.countFrame id
          .ok (r, [.count id count, .frame id (frameToJson full)])
        | (none, _) => .ok ({ r with reassembler := res.reassembler }, [])
    else
      .ok ((r.saveChanges x j1939Frame).cache x.frame,
        [.frame (getIdentifier j1939Frame) (frameToJson j1939Frame)])

/-- `onRcv`, with its assignments in order. -/
def onRcv (r : Receiver) (x : ReceivedFrame) : Except J1939Exception (Receiver × List RxWrite) :=
  let (r, count) := r.countFrame x.id
  if r.Unchanged x.frame then .ok (r, [.count x.id count])
  else do
    let (r, writes) ← r.process factory x
    return (r, .count x.id count :: writes)

/-- The calls of the receiving thread, up to an exception that ends the program. -/
def receiveAll : Receiver → List ReceivedFrame →
    Except J1939Exception (Receiver × List (List RxWrite))
  | r, [] => .ok (r, [])
  | r, x :: xs => do
    let (r, writes) ← r.onRcv factory x
    let (r, rest) ← receiveAll r xs
    return (r, writes :: rest)

end Receiver

/-! ### What a call does -/

section Calls

variable {factory : J1939Factory} {r r' : Receiver} {x y : ReceivedFrame} {writes : List RxWrite}

/-- The decoding reads the payload and nothing behind it. -/
def ReceivedFrame.ReadsPayload (factory : J1939Factory) (x : ReceivedFrame) : Prop :=
  ∀ i ∈ (factory.getJ1939Frame x.id x.length).accessed x.memory, i < x.length

/-- The frame that a CAN frame stands for, if it is no part of a longer message. -/
def ReceivedFrame.displayed (factory : J1939Factory) (x : ReceivedFrame) : Option Frame :=
  match (factory.getJ1939Frame x.id x.length).value x.memory with
  | .ok (some frame) => if BamReassembler.toBeHandled frame then none else some frame
  | _ => none

theorem ReceivedFrame.value_of_displayed {f : Frame} (h : x.displayed factory = some f) :
    (factory.getJ1939Frame x.id x.length).value x.memory = .ok (some f) := by
  unfold displayed at h
  split at h
  · next hvalue =>
    split_ifs at h
    cases h
    exact hvalue
  · cases h

/-- The same frame with the same data is displayed in the same way. -/
theorem ReceivedFrame.displayed_congr (hreads : x.ReadsPayload factory) (hframe : y.frame = x.frame) :
    y.displayed factory = x.displayed factory := by
  have hmem : ∀ i ∈ (factory.getJ1939Frame x.id x.length).accessed x.memory,
      x.memory i = y.memory i := by
    intro i hi
    have hlt := hreads i hi
    rw [Reception.memory, Reception.memory, hframe, Memory.ofList_of_lt hlt,
      Memory.ofList_of_lt hlt]
  have hvalue := Reads.value_congr hmem
  have hid : y.id = x.id := congrArg CanFrame.id hframe
  have hlength : y.length = x.length := congrArg (fun frame => frame.data.length) hframe
  rw [displayed, displayed, hvalue, hid, hlength]

/-- The identifier of a displayed frame is given by that of the CAN frame. -/
theorem ReceivedFrame.getIdentifier_congr {f g : Frame} (hx : x.displayed factory = some f)
    (hy : y.displayed factory = some g) (hid : x.id = y.id) : getIdentifier f = getIdentifier g := by
  obtain ⟨frame, hfind, hrun⟩ := J1939Factory.exists_run_of_value (value_of_displayed hx)
  obtain ⟨frame', hfind', hrun'⟩ := J1939Factory.exists_run_of_value (value_of_displayed hy)
  obtain ⟨-, hpgn, hheader⟩ := header_decode hrun
  obtain ⟨-, hpgn', hheader'⟩ := header_decode hrun'
  rw [← hid, hfind] at hfind'
  obtain rfl := Option.some.inj hfind'
  rw [getIdentifier, getIdentifier, base, base, hpgn, hpgn', hheader, hheader', hid]

theorem saveChanges_fields (r : Receiver) (x : ReceivedFrame) (f : Frame) :
    (r.saveChanges x f).rcvFramesCache = r.rcvFramesCache ∧
      (r.saveChanges x f).rcvFramesCount = r.rcvFramesCount := by
  have hfold : ∀ (id : UInt32) (spns : List SPN) (r : Receiver),
      (spns.foldl (Receiver.saveToHistory x id) r).rcvFramesCache = r.rcvFramesCache ∧
        (spns.foldl (Receiver.saveToHistory x id) r).rcvFramesCount = r.rcvFramesCount := by
    intro id spns
    induction spns with
    | nil => exact fun r => ⟨rfl, rfl⟩
    | cons spn spns ih => exact fun r => ih (Receiver.saveToHistory x id r spn)
  unfold Receiver.saveChanges
  split
  · exact ⟨rfl, rfl⟩
  · exact hfold _ _ r

/-- What a call does to the cache and to the counts, and what it assigns. -/
inductive OnRcv (factory : J1939Factory) (r : Receiver) (x : ReceivedFrame) :
    SortedMap UInt32 CanFrame → SortedMap UInt32 UInt32 → List RxWrite → Prop
  | unchanged (h : r.Unchanged x.frame) :
    OnRcv factory r x r.rcvFramesCache (r.countFrame x.id).1.rcvFramesCount
      [.count x.id (r.countFrame x.id).2]
  | hidden (h : ¬r.Unchanged x.frame) (hdisplayed : x.displayed factory = none) :
    OnRcv factory r x r.rcvFramesCache (r.countFrame x.id).1.rcvFramesCount
      [.count x.id (r.countFrame x.id).2]
  | raw (h : ¬r.Unchanged x.frame)
      (hunknown : factory.frames.find? (lookupPgn x.id) = none) (hshow : x.showRaw = true) :
    OnRcv factory r x (r.rcvFramesCache.insert x.id x.frame)
      (r.countFrame x.id).1.rcvFramesCount
      [.count x.id (r.countFrame x.id).2, .raw x.id x.frame.hexDump]
  | reassembled (h : ¬r.Unchanged x.frame) (hdisplayed : x.displayed factory = none)
      (full : Frame) :
    OnRcv factory r x r.rcvFramesCache
      ((r.countFrame x.id).1.countFrame (getIdentifier full)).1.rcvFramesCount
      [.count x.id (r.countFrame x.id).2,
        .count (getIdentifier full) ((r.countFrame x.id).1.countFrame (getIdentifier full)).2,
        .frame (getIdentifier full) (frameToJson full)]
  | displayed (h : ¬r.Unchanged x.frame) (f : Frame) (hdisplayed : x.displayed factory = some f) :
    OnRcv factory r x (r.rcvFramesCache.insert x.id x.frame)
      (r.countFrame x.id).1.rcvFramesCount
      [.count x.id (r.countFrame x.id).2, .frame (getIdentifier f) (frameToJson f)]

theorem unknown_of_value (h : (factory.getJ1939Frame x.id x.length).value x.memory = .ok none) :
    factory.frames.find? (lookupPgn x.id) = none := by
  rw [J1939Factory.value_getJ1939Frame] at h
  split at h
  · assumption
  · split at h <;> cases h

theorem onRcv_of_ok (h : r.onRcv factory x = .ok (r', writes)) :
    OnRcv factory r x r'.rcvFramesCache r'.rcvFramesCount writes := by
  unfold Receiver.onRcv at h
  by_cases hunchanged : r.Unchanged x.frame
  · have hsame : (r.countFrame x.id).1.Unchanged x.frame := hunchanged
    simp only [if_pos hsame] at h
    cases h
    exact .unchanged hunchanged
  · have hchanged : ¬(r.countFrame x.id).1.Unchanged x.frame := hunchanged
    simp only [if_neg hchanged] at h
    cases hprocess : (r.countFrame x.id).1.process factory x with
    | error e =>
      rw [hprocess] at h
      cases h
    | ok result =>
      rw [hprocess] at h
      cases h
      unfold Receiver.process at hprocess
      cases hvalue : (factory.getJ1939Frame x.id x.length).value x.memory with
      | error e =>
        simp only [hvalue] at hprocess
        cases hprocess
      | ok decoded =>
        cases decoded with
        | none =>
          simp only [hvalue] at hprocess
          cases hprocess
          split_ifs with hshow
          · exact .raw hunchanged (unknown_of_value hvalue) hshow
          · exact .hidden hunchanged (by rw [ReceivedFrame.displayed, hvalue])
        | some f =>
          simp only [hvalue] at hprocess
          by_cases hhandled : BamReassembler.toBeHandled f = true
          · have hnone : x.displayed factory = none := by
              rw [ReceivedFrame.displayed, hvalue]
              exact if_pos hhandled
            rw [if_pos hhandled] at hprocess
            split at hprocess
            · cases hprocess
            · split at hprocess
              · next full reassembler hfull =>
                cases hprocess
                exact .reassembled hunchanged hnone full
              · cases hprocess
                exact .hidden hunchanged hnone
          · rw [if_neg hhandled] at hprocess
            cases hprocess
            have hsome : x.displayed factory = some f := by
              rw [ReceivedFrame.displayed, hvalue]
              exact if_neg hhandled
            have hfields := saveChanges_fields (r.countFrame x.id).1 x f
            rw [Receiver.cache, hfields.1, hfields.2]
            exact .displayed hunchanged f hsome

end Calls

end J1939
