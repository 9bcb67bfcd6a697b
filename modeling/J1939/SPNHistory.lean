import J1939.Lib.Loop
import J1939.Lib.Runs
import J1939.Lib.Timeline
import J1939.SPNValues
import J1939.TimeStamps

/-!
# The history of an SPN

`SPNHistory` stores the values of one SPN with their times, unless the value is the last one
stored. A window into the history asks for the values at equal steps of time. It finds its start
by a binary search and goes forward from there.
-/

namespace J1939

/-- `mValue` of a sample, a union. -/
inductive SampleValue
  | numeric (value : ℚ)
  | status (value : UInt8)
  deriving DecidableEq

/-- `SPNHistory::Sample`. -/
structure Sample where
  timeStamp : TimeStamp
  value : SampleValue
  deriving DecidableEq

/-- `Sample::getNumeric`, on a union that holds a number. -/
def Sample.getNumeric (sample : Sample) : Option ℚ :=
  match sample.value with
  | .numeric value => some value
  | .status _ => none

/-- `Sample::getStatus`, on a union that holds a status. -/
def Sample.getStatus (sample : Sample) : Option UInt8 :=
  match sample.value with
  | .numeric _ => none
  | .status value => some value

@[simp] def maxNumberOfSamples : ℕ := 50000

/-- `SPNHistory`. The general specification is a pointer, and the capacity is what the
constructor reserves. -/
structure SPNHistory where
  generalSpec : Option ℕ := none
  numericSpec : Option SPNNumericSpec := none
  statusSpec : Option SPNStatusSpec := none
  samples : List Sample := []
  capacity : ℕ := maxNumberOfSamples

/-- A call of `addSample`, with the address of the SPN's specification. -/
structure SampleCall where
  timeStamp : TimeStamp
  specAddress : ℕ
  spn : SPN

namespace SPNHistory

/-- `addSample` on the first SPN: the specifications are taken over. -/
def adoptSpec (history : SPNHistory) (specAddress : ℕ) (spn : SPN) : SPNHistory :=
  match spn with
  | .numeric n =>
    { history with generalSpec := some specAddress, numericSpec := some n.numSpec }
  | .status s => { history with generalSpec := some specAddress, statusSpec := some s.statSpec }
  | .string _ => { history with generalSpec := some specAddress }

/-- The sample that `addSample` builds, `none` when it returns before that. -/
def newSample (history : SPNHistory) (timeStamp : TimeStamp) : SPN → Option Sample
  | .numeric n =>
    if history.samples.getLast?.bind Sample.getNumeric = some n.getFormattedValue then none
    else some ⟨timeStamp, .numeric n.getFormattedValue⟩
  | .status s =>
    if history.samples.getLast?.bind Sample.getStatus = some s.value then none
    else some ⟨timeStamp, .status s.value⟩
  | .string _ => none

/-- `SPNHistory::addSample`. -/
def addSample (history : SPNHistory) (call : SampleCall) : SPNHistory :=
  if history.samples.length = history.capacity then history
  else
    let history :=
      if history.generalSpec = none then history.adoptSpec call.specAddress call.spn else history
    if history.generalSpec ≠ some call.specAddress then history
    else
      match history.newSample call.timeStamp call.spn with
      | none => history
      | some sample => { history with samples := history.samples ++ [sample] }

/-- The variables of `getWindow` in its loop. -/
structure WindowState where
  current : TimeStamp
  pos : ℕ
  window : List Sample

/-- The inner loop of `getWindow`, over the samples behind the position. -/
def advance (current : TimeStamp) : List Sample → ℕ → ℕ
  | [], pos => pos
  | next :: rest, pos =>
    if current.ge next.timeStamp then advance current rest (pos + 1) else pos

/-- The body of the loop of `getWindow`. -/
def windowBody (samples : List Sample) (timeStamp : TimeStamp) (period : UInt32)
    (s : WindowState) : WindowState ⊕ List Sample :=
  if s.current.le timeStamp then
    let mySample := samples[s.pos]?.map fun sample => { sample with timeStamp := s.current }
    let current := s.current.addMillis period
    .inl ⟨current, advance current (samples.drop (s.pos + 1)) s.pos, s.window ++ mySample.toList⟩
  else .inr s.window

/-- The position at which the loop of `getWindow` starts. -/
def startPos (samples : List Sample) (current : TimeStamp) : ℕ :=
  let pos := samples.upperBound fun sample => current.lt sample.timeStamp
  if pos ≠ 0 then pos - 1 else pos

/-- What stops `getWindow` besides its end. -/
inductive WindowFault
  | divisionByZero

/-- `SPNHistory::getWindow`, with a number of rounds that its loop may make. -/
def getWindow (history : SPNHistory) (timeStamp : TimeStamp) (milliseconds samples : UInt32)
    (rounds : ℕ) : Option (Except WindowFault (List Sample)) :=
  if history.samples.length < 2 then some (.ok [])
  else if samples = 0 then some (.error .divisionByZero)
  else
    let period := milliseconds / samples
    let current := timeStamp.subMillis milliseconds
    (Loop.run (windowBody history.samples timeStamp period) rounds
      ⟨current, startPos history.samples current, []⟩).map .ok

end SPNHistory

/-! ### What is stored -/

/-- The value of an SPN that `addSample` looks at. -/
def SPN.sampleValue : SPN → Option SampleValue
  | .numeric n => some (.numeric n.getFormattedValue)
  | .status s => some (.status s.value)
  | .string _ => none

/-- The value that a call passes. -/
def SampleCall.value (call : SampleCall) : Option SampleValue := call.spn.sampleValue

/-- The calls are about one SPN, which is numeric or a status. -/
structure AboutOneSpn (calls : List SampleCall) : Prop where
  address : ∃ address, ∀ call ∈ calls, call.specAddress = address
  type : (∀ call ∈ calls, ∃ n, call.spn = .numeric n) ∨ ∀ call ∈ calls, ∃ s, call.spn = .status s

/-- The history behind the calls. -/
def recorded (calls : List SampleCall) : SPNHistory := calls.foldl SPNHistory.addSample {}

/-- No call finds the history full. -/
def WithinCapacity (calls : List SampleCall) : Prop :=
  Runs.AllSteps SPNHistory.addSample (fun history _ => history.samples.length < history.capacity)
    {} calls

/-- The time and the value that a call passes. -/
def SampleCall.entry (call : SampleCall) : TimeStamp × Option SampleValue :=
  (call.timeStamp, call.value)

/-- The time and the value that are stored. -/
def Sample.entry (sample : Sample) : TimeStamp × Option SampleValue :=
  (sample.timeStamp, some sample.value)

theorem AboutOneSpn.value_ne_none {calls : List SampleCall} (h : AboutOneSpn calls) :
    ∀ call ∈ calls, call.value ≠ none := by
  intro call hcall
  rcases h.type with hnumeric | hstatus
  · obtain ⟨n, hn⟩ := hnumeric call hcall
    simp [SampleCall.value, hn, SPN.sampleValue]
  · obtain ⟨s, hs⟩ := hstatus call hcall
    simp [SampleCall.value, hs, SPN.sampleValue]

namespace SPNHistory

theorem bind_getNumeric_iff {last : Option Sample} {v : ℚ} :
    last.bind Sample.getNumeric = some v ↔ last.map Sample.value = some (.numeric v) := by
  cases last with
  | none => simp
  | some sample => cases h : sample.value <;> simp [Sample.getNumeric, h]

theorem bind_getStatus_iff {last : Option Sample} {v : UInt8} :
    last.bind Sample.getStatus = some v ↔ last.map Sample.value = some (.status v) := by
  cases last with
  | none => simp
  | some sample => cases h : sample.value <;> simp [Sample.getStatus, h]

/-- A sample is built unless the value is the one stored last. -/
theorem newSample_eq (history : SPNHistory) (call : SampleCall) {v : SampleValue}
    (hvalue : call.value = some v) :
    history.newSample call.timeStamp call.spn =
      if history.samples.getLast?.map Sample.value = some v then none
      else some ⟨call.timeStamp, v⟩ := by
  unfold SampleCall.value at hvalue
  cases hspn : call.spn with
  | numeric n =>
    rw [hspn] at hvalue
    obtain rfl := Option.some.inj hvalue
    simp only [newSample, bind_getNumeric_iff]
  | status s =>
    rw [hspn] at hvalue
    obtain rfl := Option.some.inj hvalue
    simp only [newSample, bind_getStatus_iff]
  | string s =>
    rw [hspn] at hvalue
    cases hvalue

theorem adoptSpec_eq (history : SPNHistory) (specAddress : ℕ) (spn : SPN) :
    (history.adoptSpec specAddress spn).generalSpec = some specAddress ∧
      (history.adoptSpec specAddress spn).samples = history.samples := by
  cases spn <;> exact ⟨rfl, rfl⟩

/-- With room left, a call about the SPN of the history stores a value that has changed. -/
theorem addSample_eq {history : SPNHistory} {call : SampleCall} {v : SampleValue}
    (hroom : history.samples.length < history.capacity)
    (hspec : history.generalSpec = none ∨ history.generalSpec = some call.specAddress)
    (hvalue : call.value = some v) :
    (history.addSample call).generalSpec = some call.specAddress ∧
      (history.addSample call).samples =
        if history.samples.getLast?.map Sample.value = some v then history.samples
        else history.samples ++ [⟨call.timeStamp, v⟩] := by
  obtain ⟨hadopted, hkept⟩ := history.adoptSpec_eq call.specAddress call.spn
  set history' := if history.generalSpec = none then
    history.adoptSpec call.specAddress call.spn else history with hdef
  have hspec' : history'.generalSpec = some call.specAddress := by
    rw [hdef]
    split
    · exact hadopted
    · next hsome => exact hspec.resolve_left hsome
  have hsamples : history'.samples = history.samples := by
    rw [hdef]
    split
    · exact hkept
    · rfl
  rw [addSample, if_neg hroom.ne, ← hdef, if_neg (not_not.mpr hspec'),
    newSample_eq history' call hvalue, hsamples]
  by_cases hsame : history.samples.getLast?.map Sample.value = some v
  · rw [if_pos hsame, if_pos hsame]
    exact ⟨hspec', hsamples⟩
  · rw [if_neg hsame, if_neg hsame]
    exact ⟨hspec', rfl⟩

/-- The stored samples are the calls that change the value. -/
theorem entries_foldl {history : SPNHistory} {calls kept : List SampleCall} {address : ℕ}
    (hroom : Runs.AllSteps addSample
      (fun history _ => history.samples.length < history.capacity) history calls)
    (haddress : ∀ call ∈ calls, call.specAddress = address)
    (hvalue : ∀ call ∈ calls, call.value ≠ none)
    (hspec : history.generalSpec = none ∨ history.generalSpec = some address)
    (hentries : history.samples.map Sample.entry = kept.map SampleCall.entry) :
    (calls.foldl addSample history).samples.map Sample.entry =
      (calls.foldl (Timeline.recordChange SampleCall.value) kept).map SampleCall.entry := by
  induction calls generalizing history kept with
  | nil => exact hentries
  | cons call calls ih =>
    obtain ⟨hfirst, hlater⟩ := hroom
    obtain ⟨haddress, haddresses⟩ := List.forall_mem_cons.mp haddress
    obtain ⟨hcall, hvalues⟩ := List.forall_mem_cons.mp hvalue
    obtain ⟨v, hv⟩ := Option.ne_none_iff_exists'.mp hcall
    subst haddress
    obtain ⟨hspec', hsamples⟩ := addSample_eq hfirst hspec hv
    have hlast : history.samples.getLast?.map Sample.value = some v ↔
        kept.getLast?.map SampleCall.value = some call.value := by
      have hsnd : history.samples.getLast?.map (fun sample => some sample.value) =
          kept.getLast?.map SampleCall.value := by
        have hlasts := congrArg (fun entries => entries.getLast?.map Prod.snd) hentries
        simp only [List.getLast?_map, Option.map_map] at hlasts
        exact hlasts
      rw [← hsnd, hv]
      cases history.samples.getLast? <;> simp
    refine ih hlater haddresses hvalues (Or.inr hspec') ?_
    rw [hsamples, Timeline.recordChange]
    by_cases hsame : history.samples.getLast?.map Sample.value = some v
    · rw [if_pos hsame, if_pos (hlast.mp hsame), hentries]
    · rw [if_neg hsame, if_neg (hlast.not.mp hsame), List.map_append, List.map_append, hentries]
      simp [Sample.entry, SampleCall.entry, hv]

/-! ### The position in a window -/

/-- The position is that of the last sample not after the time, or of the first one. -/
def PosAt (samples : List Sample) (c : TimeStamp) (pos : ℕ) : Prop :=
  ∃ n, samples.SplitsAt (Timeline.isAfter Sample.timeStamp c) n ∧ pos = n - 1

/-- The sample that a window has for a time. -/
def sampleAt (samples : List Sample) (c : TimeStamp) : Option Sample :=
  (Timeline.shown Sample.timeStamp samples c).map fun sample => { sample with timeStamp := c }

theorem PosAt.sampleAt_eq {samples : List Sample} {c : TimeStamp} {pos : ℕ}
    (h : PosAt samples c pos) :
    sampleAt samples c = samples[pos]?.map fun sample => { sample with timeStamp := c } := by
  obtain ⟨n, hsplits, rfl⟩ := h
  rw [sampleAt, Timeline.shown_eq_getElem? hsplits]

theorem lt_eq_isAfter (c : TimeStamp) :
    (fun sample : Sample => c.lt sample.timeStamp) = Timeline.isAfter Sample.timeStamp c := by
  funext sample
  rw [Bool.eq_iff_iff, TimeStamp.lt_iff_lt, Timeline.isAfter, decide_eq_true_eq]

variable {samples : List Sample}

/-- The search and the step back find the position of the start. -/
theorem posAt_startPos (hsorted : samples.Pairwise fun a b => a.timeStamp ≤ b.timeStamp)
    (c : TimeStamp) : PosAt samples c (startPos samples c) := by
  refine ⟨_, List.splitsAt_upperBound (Timeline.mono_isAfter hsorted c), ?_⟩
  rw [startPos, lt_eq_isAfter]
  split <;> omega

/-- The inner loop passes the samples that are not after the time. -/
theorem advance_eq (c : TimeStamp) (rest : List Sample) (pos : ℕ) :
    advance c rest pos =
      pos + (rest.takeWhile fun sample => !Timeline.isAfter Sample.timeStamp c sample).length := by
  induction rest generalizing pos with
  | nil => rfl
  | cons next rest ih =>
    have hge : c.ge next.timeStamp = !Timeline.isAfter Sample.timeStamp c next := by
      rw [Bool.eq_iff_iff, TimeStamp.ge_iff, TimeStamp.le_iff_le, Timeline.isAfter,
        Bool.not_eq_true', decide_eq_false_iff_not, not_lt]
    rw [advance, List.takeWhile_cons, hge]
    split
    · rw [ih, List.length_cons]
      omega
    · rfl

/-- The inner loop moves the position to a later time. -/
theorem PosAt.advance {c c' : TimeStamp} {pos : ℕ} (h : PosAt samples c pos) (hle : c ≤ c')
    (hsorted : samples.Pairwise fun a b => a.timeStamp ≤ b.timeStamp) :
    PosAt samples c' (advance c' (samples.drop (pos + 1)) pos) := by
  obtain ⟨n, hsplits, rfl⟩ := h
  have hlater := List.splitsAt_upperBound (Timeline.mono_isAfter hsorted c')
  refine ⟨_, hlater, ?_⟩
  have hmono := hsplits.le_of_imp hlater fun sample hafter => by
    rw [Timeline.isAfter, decide_eq_true_eq] at hafter ⊢
    exact lt_of_le_of_lt hle hafter
  rw [advance_eq, hlater.length_takeWhile]
  omega

/-! ### The rounds of a window -/

/-- A time after some steps. -/
def timeAfter (period : UInt32) (c : TimeStamp) (steps : ℕ) : TimeStamp :=
  (fun c => c.addMillis period)^[steps] c

theorem timeAfter_succ' (period : UInt32) (c : TimeStamp) (steps : ℕ) :
    timeAfter period c (steps + 1) = (timeAfter period c steps).addMillis period :=
  Function.iterate_succ_apply' ..

/-- While the times go up to the end of the window, each round adds the sample for its time. -/
theorem ends_windowBody (hsorted : samples.Pairwise fun a b => a.timeStamp ≤ b.timeStamp)
    {t : TimeStamp} {period : UInt32} {count : ℕ} {c : TimeStamp} {pos : ℕ}
    (hpos : PosAt samples c pos) (window : List Sample)
    (hmono : ∀ i < count, timeAfter period c i ≤ timeAfter period c (i + 1))
    (hle : ∀ i < count, timeAfter period c i ≤ t) (hend : t < timeAfter period c count) :
    Loop.Ends (windowBody samples t period) ⟨c, pos, window⟩
      (window ++ (List.range count).flatMap fun i =>
        (sampleAt samples (timeAfter period c i)).toList) := by
  induction count generalizing c pos window with
  | zero =>
    have hover : ¬c.le t = true := by
      rw [TimeStamp.le_iff_le, not_le]
      exact hend
    rw [List.range_zero, List.flatMap_nil, List.append_nil]
    exact Loop.Ends.of_inr (if_neg hover)
  | succ count ih =>
    have hround : c.le t = true := TimeStamp.le_iff_le.mpr (hle 0 (Nat.succ_pos count))
    have hnext : c ≤ c.addMillis period := hmono 0 (Nat.succ_pos count)
    refine Loop.Ends.of_inl (if_pos hround) ?_
    have hrest := ih (hpos.advance hnext hsorted)
      (window ++ (samples[pos]?.map fun sample => { sample with timeStamp := c }).toList)
      (fun i hi => hmono (i + 1) (Nat.succ_lt_succ hi)) (fun i hi => hle (i + 1) (Nat.succ_lt_succ hi))
      hend
    rw [← hpos.sampleAt_eq, List.append_assoc] at hrest
    rw [← hpos.sampleAt_eq, List.range_succ_eq_map, List.flatMap_cons, List.flatMap_map]
    exact hrest

section Steps

variable {t c : TimeStamp} {period : UInt32}

/-- The times of a window up to its end are exact, and go up. -/
theorem timeAfter_spec (hperiod : 0 < period.toNat) (hfits : t.Fits (.ofMillis period))
    (hmicro : t.microSec.toNat + 999000 < 2 ^ 32) (hbelow : t.Below c) (count : ℕ)
    (hle : ∀ i < count, timeAfter period c i ≤ t) :
    (timeAfter period c count).micros = c.micros + count * (period.toNat * 1000) ∧
      t.Below (timeAfter period c count) ∧
      ∀ i < count, timeAfter period c i ≤ timeAfter period c (i + 1) := by
  induction count with
  | zero => exact ⟨by simp [timeAfter], hbelow, fun i hi => absurd hi (Nat.not_lt_zero i)⟩
  | succ count ih =>
    obtain ⟨hmicros, hbelow', hmono⟩ := ih fun i hi => hle i (Nat.lt_succ_of_lt hi)
    obtain ⟨hstep, hbelow'', hlt⟩ :=
      TimeStamp.addMillis_step hperiod hfits hmicro (hle count (Nat.lt_succ_self count)) hbelow'
    rw [timeAfter_succ']
    refine ⟨?_, hbelow'', fun i hi => ?_⟩
    · rw [hstep, hmicros]
      ring
    · rcases Nat.lt_succ_iff_lt_or_eq.mp hi with hi | rfl
      · exact hmono i hi
      · rw [timeAfter_succ']
        exact hlt.le

/-- The times of a window pass its end. -/
theorem exists_end (hperiod : 0 < period.toNat) (hfits : t.Fits (.ofMillis period))
    (hmicro : t.microSec.toNat + 999000 < 2 ^ 32) (hbelow : t.Below c) :
    ∃ count, (∀ i < count, timeAfter period c i ≤ t) ∧ t < timeAfter period c count := by
  have hpasses : ∃ count, t < timeAfter period c count := by
    by_contra hnever
    have hall : ∀ count, timeAfter period c count ≤ t :=
      fun count => not_lt.mp fun hlt => hnever ⟨count, hlt⟩
    obtain ⟨hmicros, hbelow', -⟩ := timeAfter_spec hperiod hfits hmicro hbelow (t.micros + 1)
      fun i _ => hall i
    have hbound := TimeStamp.micros_le_of_le (hall (t.micros + 1)) hbelow'
    have hmany : t.micros + 1 ≤ (t.micros + 1) * (period.toNat * 1000) :=
      Nat.le_mul_of_pos_right _ (by omega)
    omega
  refine ⟨Nat.find hpasses, fun i hi => ?_, Nat.find_spec hpasses⟩
  exact not_lt.mp (Nat.find_min hpasses hi)

end Steps

/-! ### The window shows the values that were current -/

/-- What is shown of the samples is what the calls have passed. -/
theorem value_sampleAt {calls : List SampleCall} (hspn : AboutOneSpn calls)
    (hsorted : calls.Pairwise fun a b => a.timeStamp ≤ b.timeStamp)
    (hcapacity : WithinCapacity calls) :
    ((recorded calls).samples.Pairwise fun a b => a.timeStamp ≤ b.timeStamp) ∧
      ∀ c, (sampleAt (recorded calls).samples c).map (fun sample => some sample.value) =
        (Timeline.shown SampleCall.timeStamp calls c).map SampleCall.value := by
  obtain ⟨address, haddress⟩ := hspn.address
  set kept := calls.foldl (Timeline.recordChange SampleCall.value) [] with hkept
  have hkeeps : Timeline.Keeps SampleCall.timeStamp SampleCall.value calls kept :=
    Timeline.keeps_foldl hsorted
  have hentries : (recorded calls).samples.map Sample.entry = kept.map SampleCall.entry :=
    entries_foldl hcapacity haddress hspn.value_ne_none (Or.inl rfl) rfl
  constructor
  · have hsortedKept : (kept.map SampleCall.entry).Pairwise fun a b => a.1 ≤ b.1 :=
      List.pairwise_map.mpr (hsorted.sublist hkeeps.sublist)
    rw [← hentries, List.pairwise_map] at hsortedKept
    exact hsortedKept
  · intro c
    have hshown : (Timeline.shown Sample.timeStamp (recorded calls).samples c).map Sample.entry =
        (Timeline.shown SampleCall.timeStamp kept c).map SampleCall.entry := by
      have hstored := Timeline.map_shown Prod.fst Sample.entry (recorded calls).samples c
      have hpassed := Timeline.map_shown Prod.fst SampleCall.entry kept c
      rw [← hentries] at hpassed
      exact hstored.trans hpassed.symm
    have hsnd := congrArg (Option.map Prod.snd) hshown
    rw [Option.map_map, Option.map_map] at hsnd
    rw [sampleAt, Option.map_map, ← hkeeps.shown c]
    exact hsnd

end SPNHistory

/-- The times of a window. -/
def windowTime (timeStamp : TimeStamp) (milliseconds samples : UInt32) (j : ℕ) : TimeStamp :=
  SPNHistory.timeAfter (milliseconds / samples) (timeStamp.subMillis milliseconds) j

/-- The parking brake switch in a position. -/
def parkingBrake (position : UInt8) : SPN :=
  .status
    { spec := ⟨70, "Parking Brake Switch", 0, by decide⟩
      statSpec := ⟨2, 2, ∅, Nat.two_pos, Nat.le_of_ble_eq_true rfl⟩
      value := position }

/-- The brake is set after two seconds, and reported once more. -/
def parkingBrakeCalls : List SampleCall :=
  [⟨⟨1, 0⟩, 0, parkingBrake 0⟩, ⟨⟨2, 0⟩, 0, parkingBrake 1⟩, ⟨⟨2, 500000⟩, 0, parkingBrake 1⟩]

end J1939
