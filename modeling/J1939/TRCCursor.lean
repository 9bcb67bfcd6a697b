import J1939.TRCPlayback

/-!
# Random access to a recording

A reader that has loaded a recording behaves as a cursor over the recorded frames, in whatever
order it is asked for the next frame and for positions.
-/

namespace J1939

open Loop (Leads)

variable {fmt : TimeFormat}

/-! ### The reader -/

namespace TRCReader

/-- `TRCReader::getCurrentPos`. -/
def getCurrentPos (r : TRCReader) : ℕ := r.currentPos

/-- The loop of `seekPosition`. -/
def seekLoop (fmt : TimeFormat) (pos : ℕ) : ℕ → TRCReader → Except NoResult (TRCReader × Bool)
  | 0, _ => .error .outOfFuel
  | fuel + 1, r =>
    if r.fileStream.eofbit then .ok (r, false)
    else
      match r.readNextLine fmt fuel with
      | .error e => .error e
      | .ok (r, flags) =>
        if flags.error then .ok (r, false)
        else if r.currentPos = pos then .ok (r, true)
        else seekLoop fmt pos fuel r

/-- `TRCReader::seekPosition`. A reader without a file has no frames. -/
def seekPosition (fmt : TimeFormat) (fuel : ℕ) (r : TRCReader) (pos : ℕ) :
    Except NoResult (TRCReader × Bool) :=
  if pos ≥ r.totalFrames then .ok (r, false)
  else if r.currentPos = pos then .ok (r, true)
  else
    seekLoop fmt pos fuel { r with fileStream := r.fileStream.clear.seekg 0, currentPos := 0 }

end TRCReader

/-- A call on a reader with a file. -/
inductive ReaderCall
  | readNextCanFrame
  | seekPosition (pos : ℕ)
  deriving DecidableEq, Repr

/-- What can be seen of a reader after a call: what it returned, `getLastCanFrame` without the
time, and `getCurrentPos`. -/
structure Seen where
  returned : Option Bool
  lastCanFrame : CanFrame
  currentPos : ℕ
  deriving DecidableEq, Repr

namespace TRCReader

def see (r : TRCReader) (returned : Option Bool) : Seen :=
  ⟨returned, r.getLastCanFrame.2, r.getCurrentPos⟩

def perform (fmt : TimeFormat) (fuel : ℕ) (r : TRCReader) :
    ReaderCall → Except NoResult (TRCReader × Seen)
  | .readNextCanFrame => do
    let r ← r.readNextCanFrame fmt fuel
    return (r, r.see none)
  | .seekPosition pos => do
    let (r, found) ← r.seekPosition fmt fuel pos
    return (r, r.see (some found))

/-- Calls one after the other. -/
def performAll (fmt : TimeFormat) (fuel : ℕ) :
    TRCReader → List ReaderCall → Except NoResult (TRCReader × List Seen)
  | r, [] => .ok (r, [])
  | r, call :: calls => do
    let (r, seen) ← r.perform fmt fuel call
    let (r, rest) ← performAll fmt fuel r calls
    return (r, seen :: rest)

end TRCReader

/-! ### The cursor -/

/-- A cursor over a list: the entry that is read next, the position that was read last, and the
entry that is shown, if any. -/
structure Cursor where
  next : ℕ := 0
  current : ℕ := 0
  shown : Option ℕ := none
  deriving DecidableEq, Repr

namespace Cursor

/-- Behind the last entry nothing is shown. -/
def read (size : ℕ) (c : Cursor) : Cursor :=
  if c.next < size then ⟨c.next + 1, c.next, some c.next⟩ else { c with shown := none }

/-- The position that was read last is not read again. -/
def seek (size pos : ℕ) (c : Cursor) : Cursor × Bool :=
  if size ≤ pos then (c, false)
  else if c.current = pos then (c, true)
  else (⟨pos + 1, pos, some pos⟩, true)

def see (frames : List CanFrame) (c : Cursor) (returned : Option Bool) : Seen :=
  ⟨returned, (c.shown.bind fun i => frames[i]?).getD ⟨0, []⟩, c.current⟩

def perform (frames : List CanFrame) (c : Cursor) : ReaderCall → Cursor × Seen
  | .readNextCanFrame =>
    let c := c.read frames.length
    (c, c.see frames none)
  | .seekPosition pos =>
    let (c, found) := c.seek frames.length pos
    (c, c.see frames (some found))

def performAll (frames : List CanFrame) : Cursor → List ReaderCall → Cursor × List Seen
  | c, [] => (c, [])
  | c, call :: calls =>
    let (c, seen) := c.perform frames call
    let (c, rest) := performAll frames c calls
    (c, seen :: rest)

end Cursor

/-! ### Fuel -/

namespace TRCReader

theorem readNextCanFrame_mono {m n : ℕ} {r r' : TRCReader}
    (h : r.readNextCanFrame fmt m = .ok r') (hle : m ≤ n) :
    r.readNextCanFrame fmt n = .ok r' := by
  unfold readNextCanFrame at h ⊢
  split_ifs at h ⊢
  · exact h
  · cases hread : r.readNextLine fmt m with
    | error e =>
      rw [hread] at h
      cases h
    | ok x =>
      rw [hread] at h
      rw [readNextLine_mono hread (by simp) hle]
      exact h

theorem seekLoop_mono {pos m n : ℕ} {r : TRCReader} {x : TRCReader × Bool}
    (h : seekLoop fmt pos m r = .ok x) (hle : m ≤ n) : seekLoop fmt pos n r = .ok x := by
  induction m generalizing n r with
  | zero => cases h
  | succ m ih =>
    obtain ⟨n, rfl⟩ := Nat.exists_eq_add_of_le' (Nat.one_le_of_lt hle)
    rw [seekLoop] at h ⊢
    split_ifs at h ⊢ with heof
    · exact h
    · cases hread : r.readNextLine fmt m with
      | error e =>
        rw [hread] at h
        cases h
      | ok y =>
        rw [hread] at h
        rw [readNextLine_mono hread (by simp) (by omega)]
        simp only at h ⊢
        split_ifs at h ⊢
        · exact h
        · exact h
        · exact ih h (by omega)

theorem perform_mono {m n : ℕ} {r : TRCReader} {call : ReaderCall} {x : TRCReader × Seen}
    (h : r.perform fmt m call = .ok x) (hle : m ≤ n) : r.perform fmt n call = .ok x := by
  cases call with
  | readNextCanFrame =>
    rw [perform] at h ⊢
    cases hread : r.readNextCanFrame fmt m with
    | error e =>
      rw [hread] at h
      cases h
    | ok r' =>
      rw [hread] at h
      rw [readNextCanFrame_mono hread hle]
      exact h
  | seekPosition pos =>
    rw [perform] at h ⊢
    cases hseek : r.seekPosition fmt m pos with
    | error e =>
      rw [hseek] at h
      cases h
    | ok y =>
      have hmore : r.seekPosition fmt n pos = .ok y := by
        unfold seekPosition at hseek ⊢
        split_ifs at hseek ⊢
        · exact hseek
        · exact hseek
        · exact seekLoop_mono hseek hle
      rw [hseek] at h
      rw [hmore]
      exact h

theorem performAll_mono {m n : ℕ} {r : TRCReader} {calls : List ReaderCall}
    {x : TRCReader × List Seen} (h : r.performAll fmt m calls = .ok x) (hle : m ≤ n) :
    r.performAll fmt n calls = .ok x := by
  induction calls generalizing r x with
  | nil => exact h
  | cons call calls ih =>
    rw [performAll] at h ⊢
    cases hcall : r.perform fmt m call with
    | error e =>
      rw [hcall] at h
      cases h
    | ok y =>
      rw [hcall] at h
      rw [perform_mono hcall hle]
      change (do let z ← performAll fmt m y.1 calls; _) = _ at h
      change (do let z ← performAll fmt n y.1 calls; _) = _
      cases hrest : performAll fmt m y.1 calls with
      | error e =>
        rw [hrest] at h
        cases h
      | ok z =>
        rw [hrest] at h
        rw [ih hrest]
        exact h

end TRCReader

/-! ### Where the reader is -/

theorem totalFrames_readNextLine {fuel : ℕ} {r r' : TRCReader} {flags : LineFlags}
    (h : r.readNextLine fmt fuel = .ok (r', flags)) : r'.totalFrames = r.totalFrames := by
  unfold TRCReader.readNextLine at h
  simp only at h
  split at h
  · cases h
  · cases h
  · rw [Except.ok.injEq, TRCReader.endLine] at h
    simp only at h
    split_ifs at h <;> cases h <;> rfl

/-- After an empty line no frame is shown. -/
theorem getLastCanFrame_of_empty {fuel : ℕ} {r r' : TRCReader} {flags : LineFlags}
    (h : r.readNextLine fmt fuel = .ok (r', flags)) (hempty : flags.empty = true) :
    r'.getLastCanFrame = (0, ⟨0, []⟩) := by
  unfold TRCReader.readNextLine at h
  simp only at h
  split at h
  · cases h
  · cases h
  · rw [Except.ok.injEq, TRCReader.endLine] at h
    simp only at h
    split_ifs at h <;> cases h
    · rfl
    · rfl
    · rfl
    · cases hempty

variable {frames : List (CanFrame × TimeStamp)}

/-- The stream is in front of a line, or of comments in front of it. -/
def AtLine (fmt : TimeFormat) (frames : List (CanFrame × TimeStamp)) (s : IStream) (k : ℕ) : Prop :=
  s.eofbit = false ∧ ∃ t : IStream, Leads (lineBody fmt) { stream := s } { stream := t } ∧
    t.good = true ∧ t.content = s.content ∧
    t.rest = printLines fmt (UInt32.ofNat k) (frames.drop k) ∧ t.pos ≤ 2 ^ 31 + 2 ∧
    Playable t.pos (UInt32.ofNat k) (frames.drop k)

/-- The reader has loaded a recording and stands where the cursor does. -/
structure AtCursor (fmt : TimeFormat) (frames : List (CanFrame × TimeStamp)) (r : TRCReader)
    (c : Cursor) : Prop where
  content : r.fileStream.content = trcFileHeader ++ printLines fmt 0 frames
  totalFrames : r.totalFrames = frames.length
  seen : ∀ returned, r.see returned = c.see (frames.map Prod.fst) returned
  next_le : c.next ≤ frames.length
  stream : AtLine fmt frames r.fileStream c.next ∨
    c.next = frames.length ∧ r.fileStream.eofbit = true ∧ c.shown = none

/-- A recording of which every line can be read. -/
structure Recorded (fmt : TimeFormat) (frames : List (CanFrame × TimeStamp)) : Prop where
  documented : fmt.Documented
  length : ∀ entry ∈ frames, entry.1.data.length ≤ 8
  playable : Playable 20 0 frames

section AtLine

variable (h : Recorded fmt frames) {r : TRCReader} {k : ℕ}

include h

theorem length_lt : frames.length < 2 ^ 32 := by
  have hsize := ((playable_iff (by decide)).mp h.playable).2
  have hcount := length_le_linesLength 0 frames
  omega

/-- Reading a line shows its frame and leads to the next line. -/
theorem readNextLine_atLine (hk : k < frames.length) (hline : AtLine fmt frames r.fileStream k) :
    ∃ fuel r', r.readNextLine fmt fuel = .ok (r', ⟨false, false⟩) ∧
      AtLine fmt frames r'.fileStream (k + 1) ∧
      r'.fileStream.content = r.fileStream.content ∧ r'.totalFrames = r.totalFrames ∧
      r'.currentPos = k ∧ some r'.getLastCanFrame.2 = (frames.map Prod.fst)[k]? := by
  obtain ⟨-, t, hleads, hgood, hcontent, hrest, hpos, hplayable⟩ := hline
  have hdrop := List.drop_eq_getElem_cons hk
  rw [hdrop] at hrest hplayable
  have hlength := h.length frames[k] (List.getElem_mem hk)
  have hkey : UInt32.ofNat k + 1 = UInt32.ofNat (k + 1) := by rw [UInt32.ofNat_add]; rfl
  rcases readNextLine_line h.documented hlength hleads hgood hrest hpos with
    ⟨-, fuel, r', hread, hstream, hcurrent, hlast⟩ | ⟨hnot, -⟩
  · obtain ⟨hgood', hrest', hpos', hcontent'⟩ := behind_line h.documented hlength hgood hrest hstream
    refine ⟨fuel, r', hread, ⟨(flags_of_good hgood').1, _, .refl _, hgood', rfl, ?_, ?_, ?_⟩,
      hcontent'.trans hcontent, totalFrames_readNextLine hread, ?_, ?_⟩
    · rw [hrest', hkey]
    · rw [hpos']
      exact hplayable.1.2
    · rw [hpos', ← hkey]
      exact hplayable.2
    · rw [hcurrent, UInt32.add_sub_cancel, UInt32.toNat_ofNat_of_lt' (lt_trans hk (length_lt h))]
    · rw [hlast, List.getElem?_map, List.getElem?_eq_getElem hk]
      rfl
  · exact absurd hplayable.1 hnot

/-- The seek goes to the beginning of the file. -/
theorem atLine_reset (hcontent : r.fileStream.content = trcFileHeader ++ printLines fmt 0 frames) :
    AtLine fmt frames r.reset.fileStream 0 := by
  have hgood : r.reset.fileStream.good = true := rfl
  have hpos : r.reset.fileStream.pos = 0 := rfl
  have hrest : r.reset.fileStream.rest = trcFileHeader ++ printLines fmt 0 frames := hcontent
  refine ⟨rfl, _, leads_header hgood hrest, hgood, rfl, ?_, ?_, ?_⟩
  · exact rest_header hrest
  · rw [IStream.pos_advance, hpos]
    decide
  · rw [IStream.pos_advance, hpos]
    exact h.playable

/-- The loop of `seekPosition` reads the lines up to the position, by induction on their number. -/
theorem seekLoop_atLine {pos : ℕ} (hpos : pos < frames.length) (hk : k ≤ pos)
    (hline : AtLine fmt frames r.fileStream k) :
    ∃ fuel r', TRCReader.seekLoop fmt pos fuel r = .ok (r', true) ∧
      AtLine fmt frames r'.fileStream (pos + 1) ∧
      r'.fileStream.content = r.fileStream.content ∧ r'.totalFrames = r.totalFrames ∧
      r'.currentPos = pos ∧ some r'.getLastCanFrame.2 = (frames.map Prod.fst)[pos]? := by
  obtain ⟨left, hleft⟩ := Nat.exists_eq_add_of_le hk
  induction left generalizing r k with
  | zero =>
    obtain rfl : pos = k := hleft
    obtain ⟨fuel, r', hread, hline', hcontent, htotal, hcurrent, hlast⟩ :=
      readNextLine_atLine h hpos hline
    refine ⟨fuel + 1, r', ?_, hline', hcontent, htotal, hcurrent, hlast⟩
    rw [TRCReader.seekLoop, hline.1, hread]
    simp [hcurrent]
  | succ left ih =>
    obtain ⟨fuel, r', hread, hline', hcontent, htotal, hcurrent, -⟩ :=
      readNextLine_atLine h (by omega) hline
    obtain ⟨fuel', r'', hseek, hline'', hcontent', htotal', hcurrent', hlast⟩ :=
      ih (by omega) hline' (by omega)
    refine ⟨max fuel fuel' + 1, r'', ?_, hline'', hcontent'.trans hcontent,
      htotal'.trans htotal, hcurrent', hlast⟩
    have hnot : r'.currentPos ≠ pos := by omega
    rw [TRCReader.seekLoop, hline.1, readNextLine_mono hread (by simp) (le_max_left fuel fuel')]
    simp only [Bool.false_eq_true, if_false, if_neg hnot]
    exact TRCReader.seekLoop_mono hseek (le_max_right fuel fuel')

/-- Checking goes through the lines behind the stream; in the end no frame is shown. -/
theorem checkIntegrity_atLine (hk : k ≤ frames.length) (hline : AtLine fmt frames r.fileStream k)
    (hcurrent : k = frames.length → r.currentPos + 1 = frames.length) :
    ∃ fuel r', r.checkIntegrity fmt fuel = .ok (r', true) ∧
      r'.fileStream.content = r.fileStream.content ∧ r'.totalFrames = frames.length ∧
      r'.getLastCanFrame = (0, ⟨0, []⟩) := by
  obtain ⟨left, hleft⟩ := Nat.exists_eq_add_of_le hk
  induction left generalizing r k with
  | zero =>
    obtain ⟨heof, t, hleads, hgood, hcontent, hrest, -, -⟩ := hline
    rw [← hleft.trans (Nat.add_zero k), List.drop_length, printLines] at hrest
    obtain ⟨fuel, r', hread, hstream, hcurrent'⟩ := readNextLine_end hleads hgood hrest
    have heof' : r'.fileStream.eofbit = true := by rw [hstream]
    have hend : r'.checkIntegrity fmt 1 =
        .ok ({ r' with totalFrames := r'.currentPos + 1 }, true) := if_pos heof'
    obtain ⟨fuel', hcheck⟩ := checkIntegrity_step heof hread rfl hend (by simp)
    have hlast : r'.getLastCanFrame = (0, ⟨0, []⟩) := getLastCanFrame_of_empty hread rfl
    refine ⟨fuel', _, hcheck, ?_, ?_, hlast⟩
    · simp only [hstream]
      exact hcontent
    · simp only [hcurrent']
      exact hcurrent (by omega)
  | succ left ih =>
    obtain ⟨fuel, r', hread, hline', hcontent, -, hcurrent', -⟩ :=
      readNextLine_atLine h (by omega) hline
    obtain ⟨fuel', r'', hcheck, hcontent', htotal, hlast⟩ :=
      ih (by omega) hline' (by omega) (by omega)
    obtain ⟨fuel'', hcheck'⟩ := checkIntegrity_step hline.1 hread rfl hcheck (by simp)
    exact ⟨fuel'', r'', hcheck', hcontent'.trans hcontent, htotal, hlast⟩

end AtLine

section Simulation

variable (h : Recorded fmt frames) {r : TRCReader} {c : Cursor}

include h

/-- The next frame is that of the cursor. -/
theorem readNextCanFrame_atCursor (hat : AtCursor fmt frames r c) :
    ∃ fuel r', r.readNextCanFrame fmt fuel = .ok r' ∧
      AtCursor fmt frames r' (c.read frames.length) := by
  rcases hat.stream with hline | ⟨hend, heof, hshown⟩
  · by_cases hnext : c.next < frames.length
    · obtain ⟨fuel, r', hread, hline', hcontent, htotal, hcurrent, hlast⟩ :=
        readNextLine_atLine h hnext hline
      refine ⟨fuel, r', readNextCanFrame_of_line hline.1 hread, ?_⟩
      rw [Cursor.read, if_pos hnext]
      refine ⟨hcontent.trans hat.content, htotal.trans hat.totalFrames, fun returned => ?_, hnext,
        .inl hline'⟩
      rw [TRCReader.see, TRCReader.getCurrentPos, hcurrent, Cursor.see, Option.bind_some, ← hlast]
      rfl
    · have hall : c.next = frames.length := le_antisymm hat.next_le (not_lt.mp hnext)
      obtain ⟨heof, t, hleads, hgood, hcontent, hrest, -, -⟩ := hline
      rw [hall, List.drop_length, printLines] at hrest
      obtain ⟨fuel, r', hread, hstream, hcurrent⟩ := readNextLine_end hleads hgood hrest
      refine ⟨fuel, r', readNextCanFrame_of_line heof hread, ?_⟩
      rw [Cursor.read, if_neg hnext]
      refine ⟨?_, (totalFrames_readNextLine hread).trans hat.totalFrames, fun returned => ?_,
        hat.next_le, .inr ⟨hall, ?_, rfl⟩⟩
      · rw [hstream]
        exact hcontent.trans hat.content
      · have hsame := congrArg Seen.currentPos (hat.seen returned)
        rw [TRCReader.see, TRCReader.getCurrentPos, hcurrent, getLastCanFrame_of_empty hread rfl]
        exact congrArg (Seen.mk returned ⟨0, []⟩) hsame
      · rw [hstream]
  · refine ⟨0, r, by rw [TRCReader.readNextCanFrame, if_pos heof], ?_⟩
    rw [Cursor.read, if_neg (by omega)]
    have hsame : { c with shown := none } = c := by rw [← hshown]
    rwa [hsame]

/-- Seeking a position is that of the cursor. -/
theorem seekPosition_atCursor (hat : AtCursor fmt frames r c) (pos : ℕ) :
    ∃ fuel r', r.seekPosition fmt fuel pos = .ok (r', (c.seek frames.length pos).2) ∧
      AtCursor fmt frames r' (c.seek frames.length pos).1 := by
  have hcurrent : r.currentPos = c.current := congrArg Seen.currentPos (hat.seen none)
  have hsize_iff : pos ≥ r.totalFrames ↔ frames.length ≤ pos := by rw [hat.totalFrames]
  by_cases hsize : frames.length ≤ pos
  · refine ⟨0, r, ?_⟩
    rw [TRCReader.seekPosition, if_pos (hsize_iff.mpr hsize), Cursor.seek, if_pos hsize]
    exact ⟨rfl, hat⟩
  by_cases hsame : c.current = pos
  · refine ⟨0, r, ?_⟩
    rw [TRCReader.seekPosition, if_neg (mt hsize_iff.mp hsize), if_pos (hcurrent.trans hsame),
      Cursor.seek, if_neg hsize, if_pos hsame]
    exact ⟨rfl, hat⟩
  · have hpos : pos < frames.length := not_le.mp hsize
    have hmove : r.currentPos ≠ pos := fun heq => hsame (hcurrent.symm.trans heq)
    obtain ⟨fuel, r', hseek, hline, hcontent, htotal, hcurrent', hlast⟩ :=
      seekLoop_atLine h hpos (Nat.zero_le pos) (atLine_reset h hat.content)
    refine ⟨fuel, r', ?_⟩
    rw [TRCReader.seekPosition, if_neg (mt hsize_iff.mp hsize), if_neg hmove, Cursor.seek,
      if_neg hsize, if_neg hsame]
    refine ⟨hseek, ⟨?_, htotal.trans hat.totalFrames, fun returned => ?_, hpos, .inl hline⟩⟩
    · exact hcontent.trans hat.content
    · rw [TRCReader.see, TRCReader.getCurrentPos, hcurrent', Cursor.see, Option.bind_some, ← hlast]
      rfl

theorem perform_atCursor (hat : AtCursor fmt frames r c) (call : ReaderCall) :
    ∃ fuel r', r.perform fmt fuel call = .ok (r', (c.perform (frames.map Prod.fst) call).2) ∧
      AtCursor fmt frames r' (c.perform (frames.map Prod.fst) call).1 := by
  cases call with
  | readNextCanFrame =>
    obtain ⟨fuel, r', hread, hat'⟩ := readNextCanFrame_atCursor h hat
    refine ⟨fuel, r', ?_, ?_⟩
    · rw [TRCReader.perform, hread, Cursor.perform, List.length_map, ← hat'.seen none]
      rfl
    · rw [Cursor.perform, List.length_map]
      exact hat'
  | seekPosition pos =>
    obtain ⟨fuel, r', hseek, hat'⟩ := seekPosition_atCursor h hat pos
    refine ⟨fuel, r', ?_, ?_⟩
    · rw [TRCReader.perform, hseek, Cursor.perform, List.length_map]
      exact congrArg Except.ok (Prod.ext rfl (hat'.seen _))
    · rw [Cursor.perform, List.length_map]
      exact hat'

/-- Whatever is asked, the reader agrees with the cursor. -/
theorem performAll_atCursor (hat : AtCursor fmt frames r c) (calls : List ReaderCall) :
    ∃ fuel r', r.performAll fmt fuel calls =
        .ok (r', (c.performAll (frames.map Prod.fst) calls).2) ∧
      AtCursor fmt frames r' (c.performAll (frames.map Prod.fst) calls).1 := by
  induction calls generalizing r c with
  | nil => exact ⟨0, r, rfl, hat⟩
  | cons call calls ih =>
    obtain ⟨fuel, r', hcall, hat'⟩ := perform_atCursor h hat call
    obtain ⟨fuel', r'', hcalls, hat''⟩ := ih hat'
    refine ⟨max fuel fuel', r'', ?_, hat''⟩
    rw [TRCReader.performAll, TRCReader.perform_mono hcall (le_max_left fuel fuel')]
    change (do let z ← TRCReader.performAll fmt (max fuel fuel') r' calls; _) = _
    rw [TRCReader.performAll_mono hcalls (le_max_right fuel fuel')]
    rfl

end Simulation

/-- A loaded recording is in front of its first frame. -/
theorem loadFile_atCursor (h : Recorded fmt frames) (hne : frames ≠ []) (r : TRCReader) :
    ∃ fuel r', r.loadFile fmt fuel (some (trcFileHeader ++ printLines fmt 0 frames)) =
        .ok (r', true) ∧ AtCursor fmt frames r' {} := by
  have hline : AtLine fmt frames
      (r.opened (trcFileHeader ++ printLines fmt 0 frames)).fileStream 0 := by
    refine ⟨rfl, _, leads_header rfl rfl, rfl, rfl, rest_header rfl, ?_, h.playable⟩
    change 20 ≤ 2 ^ 31 + 2
    decide
  obtain ⟨fuel, r', hcheck, hcontent, htotal, hlast⟩ :=
    checkIntegrity_atLine h (Nat.zero_le _) hline
      (fun hnil => absurd (List.length_eq_zero_iff.mp hnil.symm) hne)
  refine ⟨fuel, r'.reset, loadFile_eq_ok_iff.mpr ⟨r', hcheck, rfl⟩, hcontent, htotal,
    fun returned => ?_, Nat.zero_le _, .inl (atLine_reset h hcontent)⟩
  exact congrArg (fun shown : UInt64 × CanFrame => Seen.mk returned shown.2 0) hlast

end J1939
