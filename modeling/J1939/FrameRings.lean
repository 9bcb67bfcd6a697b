import J1939.Lib.KeyedList
import J1939.Lib.Keyed
import J1939.Schedule

/-!
# Frame rings with call-backs

A ring may carry a call-back that is asked for the data of a frame each time the frame is sent.
The rings of a `CommonCanSender` are searched by hand for a list of identifiers. Over any calls
and passes of `run` they stand for a map from lists of identifiers to what was scheduled last.
-/

namespace J1939

/-- `CanFrame::setData`: data that is too long is refused. -/
def CanFrame.setData (frame : CanFrame) (data : List UInt8) : CanFrame × Bool :=
  if data.length > maxCanDataSize then (frame, false) else ({ frame with data := data }, true)

@[simp] theorem CanFrame.setData_id (frame : CanFrame) (data : List UInt8) :
    (frame.setData data).1.id = frame.id := by
  unfold CanFrame.setData
  split <;> rfl

/-- `CommonCanSender::CanFrameRing`. An `OnSendCallback` may be empty. -/
structure CallbackRing (κ : Type) extends CanFrameRing where
  callback : Option κ
  deriving DecidableEq, Repr

/-- A frame given to `_sendFrame`: the identifiers of its ring, and `getCurrentPeriod` before
and after the ring is shifted. -/
structure Transmission where
  ids : List UInt32
  frame : Option CanFrame
  period : ℕ
  nextPeriod : ℕ
  deriving DecidableEq, Repr

namespace CallbackRing

variable {κ : Type}

/-- The identifiers of the frames of a ring. -/
def ids (ring : CallbackRing κ) : List UInt32 := ring.frames.map CanFrame.id

/-- The call-back of `run`, which sets the data of the current frame. -/
def askCallback (answer : List UInt8) (ring : CallbackRing κ) : CallbackRing κ :=
  if ring.callback.isSome then
    { ring with
      frames := ring.frames.modify ring.currentPos fun toSend => (toSend.setData answer).1 }
  else ring

/-- The body of the loop of `run` over the rings, with what the call-back answers. -/
def tick (now : Timespec) (answer : List UInt8) (ring : CallbackRing κ) :
    CallbackRing κ × Option Transmission :=
  if ring.isDue now then
    let asked := ring.askCallback answer
    let shifted := asked.toCanFrameRing.shift
    let current := addMillis ring.txTimestamp shifted.getCurrentPeriod
    let elapsed := absMillis (getElapsedMillis current now)
    let txTimestamp := if elapsed.toNat < shifted.getCurrentPeriod then current else now
    (⟨{ shifted with txTimestamp := txTimestamp }, ring.callback⟩,
      some ⟨asked.ids, asked.getCurrentFrame, asked.getCurrentPeriod, shifted.getCurrentPeriod⟩)
  else (ring, none)

end CallbackRing

/-- One pass of `run`: the clock, and what the call-back of each ring answers, by its index. -/
structure Pass where
  now : Timespec
  answer : ℕ → List UInt8

/-- `CommonCanSender`. -/
structure CallbackSender (κ : Type) where
  frameRings : List (CallbackRing κ) := []

namespace CallbackSender

variable {κ : Type}

/-- The inner loop of the three searches, over the frames of a ring and its index: whether
`found` outlives it. The ring has as many frames as there are identifiers. -/
def idsMatch (ids : List UInt32) : List CanFrame → ℕ → Bool
  | [], _ => true
  | frame :: frames, index =>
    if ids[index]? ≠ some frame.id then false else idsMatch ids frames (index + 1)

/-- The outer loop of the searches of `sendFrames` and `unSendFrames`: where `found` points to,
`none` for the end of the vector. -/
def findRing (ids : List UInt32) : List (CallbackRing κ) → ℕ → Option ℕ
  | [], _ => none
  | ring :: rings, index =>
    if ring.frames.length ≠ ids.length then findRing ids rings (index + 1)
    else
      let found := if idsMatch ids ring.frames 0 then some index else none
      if found ≠ none then found else findRing ids rings (index + 1)

/-- `CommonCanSender::isSent`. -/
def isSentIn (ids : List UInt32) : List (CallbackRing κ) → Bool
  | [] => false
  | ring :: rings =>
    if ring.frames.length ≠ ids.length then isSentIn ids rings
    else if idsMatch ids ring.frames 0 then true
    else isSentIn ids rings

def isSent (sender : CallbackSender κ) (ids : List UInt32) : Bool := isSentIn ids sender.frameRings

/-- `CommonCanSender::isSent` of one identifier. -/
def isSentId (sender : CallbackSender κ) (id : UInt32) : Bool := sender.isSent [id]

/-- The loop of `run` over the rings. -/
def passRings (now : Timespec) : (ℕ → List UInt8) → List (CallbackRing κ) →
    List (CallbackRing κ) × List Transmission
  | _, [] => ([], [])
  | answer, ring :: rings =>
    let sent := ring.tick now (answer 0)
    let rest := passRings now (fun index => answer (index + 1)) rings
    (sent.1 :: rest.1, sent.2.toList ++ rest.2)

def pass (sender : CallbackSender κ) (p : Pass) : CallbackSender κ × List Transmission :=
  (⟨(passRings p.now p.answer sender.frameRings).1⟩,
    (passRings p.now p.answer sender.frameRings).2)

/-- The passes that `run` makes one after the other. -/
def passes (sender : CallbackSender κ) : List Pass → CallbackSender κ × List Transmission
  | [] => (sender, [])
  | p :: ps =>
    let rest := passes (sender.pass p).1 ps
    (rest.1, (sender.pass p).2 ++ rest.2)

/-- `erase` of what a search has found. -/
def eraseFound (sender : CallbackSender κ) (found : Option ℕ) : List (CallbackRing κ) :=
  match found with
  | none => sender.frameRings
  | some index => sender.frameRings.eraseIdx index

/-- `CommonCanSender::sendFrames`, with the passes of `run` between its search, for which it
does not lock the mutex, and its change of the rings. -/
def sendFrames (sender : CallbackSender κ) (frames : List CanFrame) (period : UInt32)
    (callback : Option κ) (between : List Pass) : CallbackSender κ × List Transmission × Bool :=
  if frames = [] then (sender, [], false)
  else
    let ring : CallbackRing κ := ⟨{ frames := frames, period := period }, callback⟩
    let found := findRing ring.ids sender.frameRings 0
    let passed := sender.passes between
    (⟨passed.1.eraseFound found ++ [ring]⟩, passed.2, true)

/-- `CommonCanSender::sendFrame`. -/
def sendFrame (sender : CallbackSender κ) (frame : CanFrame) (period : UInt32)
    (callback : Option κ) (between : List Pass) : CallbackSender κ × List Transmission × Bool :=
  let sent := sender.sendFrames [frame] period callback between
  (sent.1, sent.2.1, true)

/-- `CommonCanSender::unSendFrames`. -/
def unSendFrames (sender : CallbackSender κ) (ids : List UInt32) (between : List Pass) :
    CallbackSender κ × List Transmission :=
  let found := findRing ids sender.frameRings 0
  let passed := sender.passes between
  (⟨passed.1.eraseFound found⟩, passed.2)

/-- `CommonCanSender::unSendFrame`. -/
def unSendFrame (sender : CallbackSender κ) (id : UInt32) (between : List Pass) :
    CallbackSender κ × List Transmission :=
  sender.unSendFrames [id] between

end CallbackSender

section Searches

variable {κ : Type}

/-- The inner loop compares the identifiers from the index on. -/
theorem CallbackSender.idsMatch_iff {ids : List UInt32} {frames : List CanFrame} {index : ℕ}
    (h : frames.length + index = ids.length) :
    idsMatch ids frames index = true ↔ frames.map CanFrame.id = ids.drop index := by
  induction frames generalizing index with
  | nil =>
    have hdrop : ids.drop index = [] := List.drop_eq_nil_of_le (by simpa using h.ge)
    simp [idsMatch, hdrop]
  | cons frame frames ih =>
    rw [List.length_cons] at h
    have hindex : index < ids.length := by omega
    rw [idsMatch, List.getElem?_eq_getElem hindex, List.drop_eq_getElem_cons hindex, List.map_cons,
      List.cons.injEq]
    by_cases hid : ids[index] = frame.id
    · rw [if_neg (by simpa using hid), ih (by omega)]
      exact ⟨fun hrest => ⟨hid.symm, hrest⟩, fun hrest => hrest.2⟩
    · rw [if_pos (by simpa using hid)]
      constructor
      · intro hfalse
        cases hfalse
      · rintro ⟨hhead, -⟩
        exact absurd hhead.symm hid

/-- The two loops together test whether a ring has the identifiers. -/
theorem CallbackSender.idsMatch_ring_iff {ids : List UInt32} {ring : CallbackRing κ}
    (h : ring.frames.length = ids.length) :
    idsMatch ids ring.frames 0 = true ↔ ring.ids = ids := by
  rw [idsMatch_iff (by omega), List.drop_zero, CallbackRing.ids]

theorem CallbackRing.length_ne {ids : List UInt32} {ring : CallbackRing κ}
    (h : ring.frames.length ≠ ids.length) : ring.ids ≠ ids := by
  rintro rfl
  exact h (by rw [CallbackRing.ids, List.length_map])

/-- The search finds the first ring with the identifiers. -/
theorem CallbackSender.findRing_eq (ids : List UInt32) (rings : List (CallbackRing κ))
    (index : ℕ) :
    findRing ids rings index =
      (rings.findIdx? fun ring => ring.ids = ids).map fun found => found + index := by
  induction rings generalizing index with
  | nil => rfl
  | cons ring rings ih =>
    have hskip : (Option.map (fun found => found + (index + 1))
          (rings.findIdx? fun ring => ring.ids = ids)) =
        Option.map (fun found => found + index)
          ((rings.findIdx? fun ring => ring.ids = ids).map fun found => found + 1) := by
      rw [Option.map_map]
      congr 1
      funext found
      simp only [Function.comp_apply]
      omega
    rw [findRing, List.findIdx?_cons]
    by_cases hlength : ring.frames.length = ids.length
    · by_cases hids : ring.ids = ids
      · simp [hlength, (idsMatch_ring_iff hlength).mpr hids, hids]
      · have hmatch : ¬idsMatch ids ring.frames 0 = true :=
          fun hmatch => hids ((idsMatch_ring_iff hlength).mp hmatch)
        simp [hlength, hmatch, hids, ih, hskip]
    · simp [hlength, CallbackRing.length_ne hlength, ih, hskip]

theorem CallbackSender.isSent_iff (sender : CallbackSender κ) (ids : List UInt32) :
    sender.isSent ids = true ↔ ∃ ring ∈ sender.frameRings, ring.ids = ids := by
  unfold isSent
  induction sender.frameRings with
  | nil => simp [isSentIn]
  | cons ring rings ih =>
    rw [isSentIn, List.exists_mem_cons_iff]
    by_cases hlength : ring.frames.length = ids.length
    · rw [if_neg (by simpa using hlength)]
      by_cases hids : ring.ids = ids
      · simp [(idsMatch_ring_iff hlength).mpr hids, hids]
      · rw [if_neg (fun hmatch => hids ((idsMatch_ring_iff hlength).mp hmatch)), ih]
        simp [hids]
    · rw [if_pos (by simpa using hlength), ih]
      simp [CallbackRing.length_ne hlength]

end Searches

section Passes

variable {κ : Type}

/-- What a ring is looked up by, and what was asked for when it was scheduled. -/
def CallbackRing.scheduled (ring : CallbackRing κ) : UInt32 × Option κ :=
  (ring.period, ring.callback)

/-- A call-back changes only data. -/
theorem CallbackRing.askCallback_eq (answer : List UInt8) (ring : CallbackRing κ) :
    (ring.askCallback answer).ids = ring.ids ∧
      (ring.askCallback answer).scheduled = ring.scheduled ∧
      (ring.askCallback answer).currentPos = ring.currentPos := by
  unfold askCallback
  split
  · refine ⟨?_, rfl, rfl⟩
    apply List.ext_getElem?
    intro k
    simp only [ids, List.getElem?_map, List.getElem?_modify]
    split
    · cases ring.frames[k]? <;> simp
    · cases ring.frames[k]? <;> rfl
  · exact ⟨rfl, rfl, rfl⟩

/-- A pass keeps the identifiers of a ring, its period and its call-back. -/
theorem CallbackRing.tick_entry (now : Timespec) (answer : List UInt8) (ring : CallbackRing κ) :
    (ring.tick now answer).1.ids = ring.ids ∧
      (ring.tick now answer).1.scheduled = ring.scheduled := by
  unfold tick
  split
  · obtain ⟨hids, hscheduled, -⟩ := ring.askCallback_eq answer
    constructor
    · rw [← hids]
      simp only [ids, CanFrameRing.frames_shift]
    · have hperiod : (ring.askCallback answer).period = ring.period :=
        congrArg Prod.fst hscheduled
      simp only [scheduled, CanFrameRing.period_shift, hperiod]
  · exact ⟨rfl, rfl⟩

namespace CallbackSender

theorem entries_passRings (now : Timespec) (answer : ℕ → List UInt8)
    (rings : List (CallbackRing κ)) :
    (passRings now answer rings).1.map (fun ring => (ring.ids, ring.scheduled)) =
      rings.map fun ring => (ring.ids, ring.scheduled) := by
  induction rings generalizing answer with
  | nil => rfl
  | cons ring rings ih =>
    obtain ⟨hids, hscheduled⟩ := ring.tick_entry now (answer 0)
    rw [passRings, List.map_cons, List.map_cons, ih, hids, hscheduled]

theorem entries_passes (sender : CallbackSender κ) (ps : List Pass) :
    (sender.passes ps).1.frameRings.map (fun ring => (ring.ids, ring.scheduled)) =
      sender.frameRings.map fun ring => (ring.ids, ring.scheduled) := by
  induction ps generalizing sender with
  | nil => rfl
  | cons p ps ih => exact (ih _).trans (entries_passRings ..)

/-- What a search has found before some passes is the first ring with the identifiers
behind them. -/
theorem eraseFound_passes (sender : CallbackSender κ) (ids : List UInt32) (between : List Pass) :
    (sender.passes between).1.eraseFound (findRing ids sender.frameRings 0) =
      (sender.passes between).1.frameRings.eraseP fun ring => ring.ids = ids := by
  have hids : (sender.passes between).1.frameRings.map CallbackRing.ids =
      sender.frameRings.map CallbackRing.ids := by
    have hfst := congrArg (List.map Prod.fst) (sender.entries_passes between)
    rw [List.map_map, List.map_map] at hfst
    exact hfst
  have hfound : (sender.frameRings.findIdx? fun ring => ring.ids = ids) =
      (sender.passes between).1.frameRings.findIdx? fun ring => ring.ids = ids := by
    have hmap := congrArg (List.findIdx? fun found => decide (found = ids)) hids
    rw [List.findIdx?_map, List.findIdx?_map] at hmap
    exact hmap.symm
  have hzero : (fun found : ℕ => found + 0) = id := rfl
  rw [findRing_eq, hfound, hzero, Option.map_id, id, List.eraseP_eq_eraseIdx]
  rfl

end CallbackSender

end Passes

section WithoutCallbacks

variable {κ : Type}

namespace CallbackSender

/-- The rings without their call-backs. -/
def toCommon (sender : CallbackSender κ) : CommonCanSender :=
  ⟨sender.frameRings.map CallbackRing.toCanFrameRing⟩

theorem map_eraseP_ids (rings : List (CallbackRing κ)) (ids : List UInt32) :
    (rings.eraseP fun ring => ring.ids = ids).map CallbackRing.toCanFrameRing =
      (rings.map CallbackRing.toCanFrameRing).eraseP
        fun ring => ring.frames.map CanFrame.id = ids := by
  rw [List.eraseP_map]
  rfl

/-- With no pass in between, the hand-written search replaces the ring that
`CommonCanSender.sendFrames` replaces. -/
theorem toCommon_sendFrames (sender : CallbackSender κ) (frames : List CanFrame)
    (period : UInt32) (callback : Option κ) :
    (sender.sendFrames frames period callback []).1.toCommon =
      sender.toCommon.sendFrames frames period := by
  by_cases hframes : frames = []
  · simp [sendFrames, CommonCanSender.sendFrames, hframes]
  · rw [sendFrames, if_neg hframes, CommonCanSender.sendFrames, if_neg hframes]
    simp only [eraseFound_passes, toCommon, List.map_append, map_eraseP_ids]
    rfl

theorem toCommon_unSendFrames (sender : CallbackSender κ) (ids : List UInt32) :
    (sender.unSendFrames ids []).1.toCommon = sender.toCommon.unSendFrames ids := by
  rw [unSendFrames, eraseFound_passes, CommonCanSender.unSendFrames, toCommon, map_eraseP_ids]
  rfl

theorem isSent_toCommon (sender : CallbackSender κ) (ids : List UInt32) :
    sender.toCommon.isSent ids = sender.isSent ids := by
  rw [Bool.eq_iff_iff, isSent_iff, CommonCanSender.isSent, List.any_eq_true]
  simp [toCommon, CallbackRing.ids]

/-- A ring without a call-back is sent as it is. -/
theorem tick_of_callback_none (now : Timespec) (answer : List UInt8) {ring : CallbackRing κ}
    (h : ring.callback = none) :
    (ring.tick now answer).1.toCanFrameRing = (ring.toCanFrameRing.tick now).1 ∧
      ((ring.tick now answer).2.bind Transmission.frame) = (ring.toCanFrameRing.tick now).2 := by
  have hasked : ring.askCallback answer = ring := by simp [CallbackRing.askCallback, h]
  unfold CallbackRing.tick CanFrameRing.tick
  rw [hasked]
  by_cases hdue : ring.isDue now
  · simp only [hdue, if_true]
    split
    · exact ⟨rfl, rfl⟩
    · exact ⟨rfl, rfl⟩
  · simp only [hdue, if_false]
    exact ⟨trivial, rfl⟩

/-- Rings without call-backs go through a pass as those of `CommonCanSender` do. -/
theorem passRings_of_callback_none (now : Timespec) (answer : ℕ → List UInt8)
    {rings : List (CallbackRing κ)} (h : ∀ ring ∈ rings, ring.callback = none) :
    (passRings now answer rings).1.map CallbackRing.toCanFrameRing =
        (CommonCanSender.passRings now (rings.map CallbackRing.toCanFrameRing)).1 ∧
      (passRings now answer rings).2.filterMap Transmission.frame =
        (CommonCanSender.passRings now (rings.map CallbackRing.toCanFrameRing)).2 := by
  induction rings generalizing answer with
  | nil => exact ⟨rfl, rfl⟩
  | cons ring rings ih =>
    obtain ⟨hring, hrings⟩ := List.forall_mem_cons.mp h
    obtain ⟨hsent, hframe⟩ := tick_of_callback_none now (answer 0) hring
    obtain ⟨hrest, hframes⟩ := ih (fun index => answer (index + 1)) hrings
    simp only [passRings, List.map_cons, CommonCanSender.passRings]
    constructor
    · rw [hsent, hrest]
    · rw [List.filterMap_append, hframes, ← hframe]
      congr 1
      cases (ring.tick now (answer 0)).2 with
      | none => rfl
      | some sent =>
        rw [Option.toList_some, List.filterMap_cons, List.filterMap_nil, Option.bind_some]
        cases sent.frame <;> rfl

end CallbackSender

end WithoutCallbacks

/-- A call on a sender with the passes between its search and its change of the rings, or a
pass of `run` between two calls. -/
inductive RingCall (κ : Type)
  | sendFrame (frame : CanFrame) (period : UInt32) (callback : Option κ) (between : List Pass)
  | sendFrames (frames : List CanFrame) (period : UInt32) (callback : Option κ)
    (between : List Pass)
  | unSendFrame (id : UInt32) (between : List Pass)
  | unSendFrames (ids : List UInt32) (between : List Pass)
  | pass (p : Pass)

namespace RingCall

variable {κ : Type}

/-- The identifiers that a call is about. -/
def ids? : RingCall κ → Option (List UInt32)
  | sendFrame frame _ _ _ => some [frame.id]
  | sendFrames frames _ _ _ => some (frames.map CanFrame.id)
  | unSendFrame id _ => some [id]
  | unSendFrames ids _ => some ids
  | pass _ => none

/-- The period and the call-back that a call asks for. -/
def asksFor : RingCall κ → Option (UInt32 × Option κ)
  | sendFrame _ period callback _ => some (period, callback)
  | sendFrames _ period callback _ => some (period, callback)
  | _ => none

end RingCall

/-- What a call does besides changing the rings: the frames sent, and what it returns. -/
structure CallOutcome where
  transmissions : List Transmission
  returned : Option Bool

namespace CallbackSender

variable {κ : Type}

def perform (sender : CallbackSender κ) : RingCall κ → CallbackSender κ × CallOutcome
  | .sendFrame frame period callback between =>
    let sent := sender.sendFrame frame period callback between
    (sent.1, ⟨sent.2.1, some sent.2.2⟩)
  | .sendFrames frames period callback between =>
    let sent := sender.sendFrames frames period callback between
    (sent.1, ⟨sent.2.1, some sent.2.2⟩)
  | .unSendFrame id between =>
    let unsent := sender.unSendFrame id between
    (unsent.1, ⟨unsent.2, none⟩)
  | .unSendFrames ids between =>
    let unsent := sender.unSendFrames ids between
    (unsent.1, ⟨unsent.2, none⟩)
  | .pass p => ((sender.pass p).1, ⟨(sender.pass p).2, none⟩)

/-- The last call about the identifiers, with its outcome. -/
def lastAbout (ids : List UInt32) (log : List (RingCall κ × CallOutcome)) :
    Option (RingCall κ × CallOutcome) :=
  log.reverse.find? fun entry => entry.1.ids? = some ids

/-- What a call leaves scheduled under its identifiers. -/
def leaves (entry : RingCall κ × CallOutcome) : Option (UInt32 × Option κ) :=
  if entry.2.returned = some true then entry.1.asksFor else none

/-- The map that the rings stand for: what the last call about the identifiers has left. -/
def scheduleOf (log : List (RingCall κ × CallOutcome)) (ids : List UInt32) :
    Option (UInt32 × Option κ) :=
  (lastAbout ids log).bind leaves

/-- The map behind a call. -/
def scheduleAfter (m : List UInt32 → Option (UInt32 × Option κ))
    (entry : RingCall κ × CallOutcome) : List UInt32 → Option (UInt32 × Option κ) :=
  match entry.1.ids? with
  | none => m
  | some ids => Function.update m ids (leaves entry)

theorem scheduleOf_concat (log : List (RingCall κ × CallOutcome))
    (entry : RingCall κ × CallOutcome) :
    scheduleOf (log ++ [entry]) = scheduleAfter (scheduleOf log) entry := by
  funext ids
  have hlast : lastAbout ids (log ++ [entry]) =
      if entry.1.ids? = some ids then some entry else lastAbout ids log := by
    rw [lastAbout, List.reverse_append, List.reverse_singleton, List.singleton_append,
      List.find?_cons]
    by_cases h : entry.1.ids? = some ids <;> simp [h, lastAbout]
  rw [scheduleOf, hlast, scheduleAfter]
  cases hids : entry.1.ids? with
  | none => rfl
  | some ids' =>
    by_cases h : ids' = ids
    · subst h
      simp
    · have hne : ids ≠ ids' := fun heq => h heq.symm
      simp [h, hne, scheduleOf]

/-- The rings stand for a map, and none is without frames. -/
structure Schedules (sender : CallbackSender κ) (m : List UInt32 → Option (UInt32 × Option κ)) :
    Prop where
  represents : sender.frameRings.Represents CallbackRing.ids CallbackRing.scheduled m
  nil : m [] = none

theorem Schedules.passes {sender : CallbackSender κ}
    {m : List UInt32 → Option (UInt32 × Option κ)} (h : Schedules sender m) (ps : List Pass) :
    Schedules (sender.passes ps).1 m :=
  ⟨h.represents.of_map_eq (sender.entries_passes ps), h.nil⟩

theorem Schedules.sendFrames {sender : CallbackSender κ}
    {m : List UInt32 → Option (UInt32 × Option κ)} (h : Schedules sender m)
    {frames : List CanFrame} (hframes : frames ≠ []) (period : UInt32) (callback : Option κ)
    (between : List Pass) :
    Schedules (sender.sendFrames frames period callback between).1
      (Function.update m (frames.map CanFrame.id) (some (period, callback))) := by
  let ring : CallbackRing κ := ⟨{ frames := frames, period := period }, callback⟩
  have hrings : (sender.sendFrames frames period callback between).1.frameRings =
      ((sender.passes between).1.frameRings.eraseP fun other => other.ids = ring.ids) ++ [ring] := by
    rw [CallbackSender.sendFrames, if_neg hframes, ← eraseFound_passes]
  refine ⟨?_, ?_⟩
  · rw [hrings]
    exact (h.passes between).represents.replace ring
  · rw [Function.update_of_ne (by simpa using hframes.symm), h.nil]

theorem Schedules.unSendFrames {sender : CallbackSender κ}
    {m : List UInt32 → Option (UInt32 × Option κ)} (h : Schedules sender m) (ids : List UInt32)
    (between : List Pass) :
    Schedules (sender.unSendFrames ids between).1 (Function.update m ids none) := by
  refine ⟨?_, ?_⟩
  · rw [CallbackSender.unSendFrames, eraseFound_passes]
    exact (h.passes between).represents.erase ids
  · rw [Function.update_apply]
    split
    · rfl
    · exact h.nil

/-- After a call the rings stand for the map with the call's entry. -/
theorem Schedules.perform {sender : CallbackSender κ}
    {m : List UInt32 → Option (UInt32 × Option κ)} (h : Schedules sender m)
    (call : RingCall κ) :
    Schedules (sender.perform call).1 (scheduleAfter m (call, (sender.perform call).2)) := by
  cases call with
  | sendFrame frame period callback between =>
    exact h.sendFrames (List.cons_ne_nil frame []) period callback between
  | sendFrames frames period callback between =>
    by_cases hframes : frames = []
    · subst hframes
      have hsame : Function.update m [] none = m := by
        rw [← h.nil]
        exact Function.update_eq_self ..
      change Schedules sender (Function.update m [] none)
      rwa [hsame]
    · have hleaves : leaves (RingCall.sendFrames frames period callback between,
          (sender.perform (.sendFrames frames period callback between)).2) =
          some (period, callback) := by
        simp [leaves, CallbackSender.perform, CallbackSender.sendFrames, hframes,
          RingCall.asksFor]
      rw [scheduleAfter, hleaves]
      exact h.sendFrames hframes period callback between
  | unSendFrame id between => exact h.unSendFrames [id] between
  | unSendFrames ids between => exact h.unSendFrames ids between
  | pass p => exact ⟨h.represents.of_map_eq (entries_passRings ..), h.nil⟩

/-- Only a send returns anything. -/
theorem asksFor_of_returned (sender : CallbackSender κ) (calls : List (RingCall κ)) :
    ∀ entry ∈ (runMachine perform sender calls).2, entry.2.returned = some true →
      entry.1.asksFor ≠ none := by
  induction calls generalizing sender with
  | nil =>
    intro entry hentry
    cases hentry
  | cons call calls ih =>
    rw [runMachine_cons]
    intro entry hentry hreturned
    rcases List.mem_cons.mp hentry with rfl | hentry
    · cases call <;> simp [perform, RingCall.asksFor] at hreturned ⊢
    · exact ih _ entry hentry hreturned

/-- After any calls and passes the rings stand for the map of the last calls. -/
theorem schedules_run (calls : List (RingCall κ)) :
    Schedules (runMachine perform {} calls).1
      (scheduleOf (runMachine perform ({} : CallbackSender κ) calls).2) := by
  induction calls using List.reverseRecOn with
  | nil => exact ⟨List.represents_nil, rfl⟩
  | append_singleton calls call ih =>
    rw [runMachine_append, runMachine_cons, runMachine_nil, scheduleOf_concat]
    exact ih.perform call

end CallbackSender

end J1939
