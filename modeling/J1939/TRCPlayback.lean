import J1939.TRCLines

/-!
# Playing a recording back

The reader takes the last position of a file for the number of its frames, and expects a byte
of data on every line. What is recorded is played back when there is a frame, no frame is
without data, and the file ends where an `int` does.
-/

namespace J1939

open Loop (Ends Leads)

variable {fmt : TimeFormat}

/-! ### What is written -/

/-- The lines of frames that are written one after the other. -/
def printLines (fmt : TimeFormat) : UInt32 → List (CanFrame × TimeStamp) → List Char
  | _, [] => []
  | counter, (frame, t) :: frames =>
    printLine fmt (counter + 1) frame t ++ printLines fmt (counter + 1) frames

theorem writeAll_eq (written : List Char) (counter : UInt32)
    (frames : List (CanFrame × TimeStamp)) :
    ∃ counter', TRCWriter.writeAll fmt ⟨some written, counter⟩ frames =
      .ok ⟨some (written ++ printLines fmt counter frames), counter'⟩ := by
  induction frames generalizing written counter with
  | nil => exact ⟨counter, by rw [printLines, List.append_nil]; rfl⟩
  | cons entry frames ih =>
    obtain ⟨frame, t⟩ := entry
    obtain ⟨counter', hwritten⟩ := ih (written ++ printLine fmt (counter + 1) frame t) (counter + 1)
    refine ⟨counter', ?_⟩
    rw [printLines, ← List.append_assoc]
    exact hwritten

theorem recording_eq (w : TRCWriter) (frames : List (CanFrame × TimeStamp)) :
    recording fmt w frames = .ok (some (trcFileHeader ++ printLines fmt 0 frames)) := by
  obtain ⟨counter, hwritten⟩ := @writeAll_eq fmt trcFileHeader 0 frames
  have hopen : w.openFile = ⟨some trcFileHeader, 0⟩ := rfl
  rw [recording, hopen, hwritten]
  rfl

/-! ### Fuel -/

theorem readNextLine_mono {m n : ℕ} {r : TRCReader} {x : Except NoResult (TRCReader × LineFlags)}
    (h : r.readNextLine fmt m = x) (hx : x ≠ .error .outOfFuel) (hle : m ≤ n) :
    r.readNextLine fmt n = x := by
  unfold TRCReader.readNextLine at h ⊢
  cases hrun : Loop.run (lineBody fmt) m { stream := r.fileStream } with
  | none =>
    simp only [hrun] at h
    exact absurd h.symm hx
  | some e =>
    simp only [hrun] at h
    simp only [Loop.run_mono hrun hle]
    exact h

theorem checkIntegrity_mono {m n : ℕ} {r : TRCReader} {x : Except NoResult (TRCReader × Bool)}
    (h : r.checkIntegrity fmt m = x) (hx : x ≠ .error .outOfFuel) (hle : m ≤ n) :
    r.checkIntegrity fmt n = x := by
  induction m generalizing n r with
  | zero => exact absurd h.symm hx
  | succ m ih =>
    obtain ⟨n, rfl⟩ := Nat.exists_eq_add_of_le' (Nat.one_le_of_lt hle)
    rw [TRCReader.checkIntegrity] at h ⊢
    split_ifs at h ⊢ with heof
    · exact h
    · cases hread : r.readNextLine fmt m with
      | error e =>
        rw [hread] at h
        have hne : (Except.error e : Except NoResult (TRCReader × LineFlags)) ≠
            .error .outOfFuel := by
          rintro ⟨⟩
          exact hx h.symm
        rw [readNextLine_mono hread hne (by omega)]
        exact h
      | ok y =>
        rw [hread] at h
        rw [readNextLine_mono hread (by simp) (by omega)]
        simp only at h ⊢
        split_ifs at h ⊢ with herror
        · exact h
        · exact ih h (by omega)

/-- One line of a file that is checked. -/
theorem checkIntegrity_step {m n : ℕ} {r r' : TRCReader} {flags : LineFlags}
    {x : Except NoResult (TRCReader × Bool)} (heof : r.fileStream.eofbit = false)
    (hread : r.readNextLine fmt m = .ok (r', flags)) (herror : flags.error = false)
    (hcheck : r'.checkIntegrity fmt n = x) (hx : x ≠ .error .outOfFuel) :
    ∃ fuel, r.checkIntegrity fmt fuel = x := by
  refine ⟨max m n + 1, ?_⟩
  rw [TRCReader.checkIntegrity, heof, readNextLine_mono hread (by simp) (le_max_left m n)]
  simp only [herror, Bool.false_eq_true, if_false]
  exact checkIntegrity_mono hcheck hx (le_max_right m n)

/-! ### Reading a line -/

theorem readNextLine_of_ends {r : TRCReader} {l : LineState}
    (h : Ends (lineBody fmt) { stream := r.fileStream } (.left l)) :
    ∃ fuel, r.readNextLine fmt fuel =
      .ok (TRCReader.endLine { r with lastReadFrameTimePair := (0, ⟨0, []⟩) } l) := by
  obtain ⟨fuel, hrun⟩ := h
  refine ⟨fuel, ?_⟩
  unfold TRCReader.readNextLine
  simp only [hrun]

/-- The reader does not take the line for a frame. -/
def RejectsLine (x : Except NoResult (TRCReader × LineFlags)) : Prop :=
  x = .error .undefined ∨ ∃ r flags, x = .ok (r, flags) ∧ flags.error = true

theorem readNextLine_of_wrong {r : TRCReader} {e : LineEnd}
    (h : Ends (lineBody fmt) { stream := r.fileStream } e) (hwrong : e.Wrong) :
    ∃ fuel, RejectsLine (r.readNextLine fmt fuel) := by
  cases e with
  | undefined =>
    obtain ⟨fuel, hrun⟩ := h
    refine ⟨fuel, .inl ?_⟩
    unfold TRCReader.readNextLine
    simp only [hrun]
  | left l =>
    obtain ⟨fuel, hread⟩ := readNextLine_of_ends h
    refine ⟨fuel, .inr ?_⟩
    have hstate : l.state ≠ parseStateGetEnd ∧ l.state ≠ parseStateGetPosition := hwrong
    rw [hread, TRCReader.endLine]
    simp only
    rw [if_pos hstate]
    exact ⟨_, _, rfl, rfl⟩

/-- A line gives its frame when it has a byte of data and does not end too far away. -/
theorem readNextLine_line (hfmt : fmt.Documented) {frame : CanFrame} {t : TimeStamp}
    {counter : UInt32} {cs : List Char} (hlength : frame.data.length ≤ 8) {r : TRCReader}
    {s : IStream}
    (hleads : Leads (lineBody fmt) { stream := r.fileStream } { stream := s })
    (hgood : s.good = true) (hrest : s.rest = printLine fmt counter frame t ++ cs)
    (hpos : s.pos ≤ 2 ^ 31 + 2) :
    ((frame.data ≠ [] ∧ s.pos + lineLength counter frame.data.length ≤ 2 ^ 31 + 2) ∧
      ∃ fuel r', r.readNextLine fmt fuel = .ok (r', ⟨false, false⟩) ∧
        r'.fileStream = (s.setBase .hex).advance (lineLength counter frame.data.length) ∧
        r'.currentPos = (counter - 1).toNat ∧ r'.getLastCanFrame.2 = frame) ∨
      (¬(frame.data ≠ [] ∧ s.pos + lineLength counter frame.data.length ≤ 2 ^ 31 + 2) ∧
        ∃ fuel, RejectsLine (r.readNextLine fmt fuel)) := by
  rcases @line_step fmt frame t counter cs hfmt (by omega) { stream := s } hgood hrest hpos rfl rfl
    with ⟨hfits, l, hends, hstream, hstate, hposition, hid, hlen, hdata⟩ | ⟨hnot, e, hends, hwrong⟩
  · refine .inl ⟨hfits, ?_⟩
    obtain ⟨fuel, hread⟩ := readNextLine_of_ends (hleads _ hends)
    have hdata' : setData l.data = frame.data := by
      rw [hdata]
      exact if_neg (not_lt.mpr hlength)
    refine ⟨fuel, { r with
      fileStream := l.stream
      currentPos := (counter - 1).toNat
      lastReadFrameTimePair := (l.time, frame) }, ?_, hstream, rfl, rfl⟩
    rw [hread, TRCReader.endLine]
    simp only
    rw [if_neg (by rw [hstate]; decide), if_neg (by rw [hstate]; decide),
      if_neg (by rw [hlen, hdata]; exact fun h => h rfl), hposition, hid, hdata']
  · obtain ⟨fuel, hrejects⟩ := readNextLine_of_wrong (hleads _ hends) hwrong
    exact .inr ⟨hnot, fuel, hrejects⟩

/-- The stream behind a line that has been read. -/
theorem behind_line (hfmt : fmt.Documented) {frame : CanFrame} {t : TimeStamp} {counter : UInt32}
    {cs : List Char} (hlength : frame.data.length ≤ 8) {s s' : IStream} (hgood : s.good = true)
    (hrest : s.rest = printLine fmt counter frame t ++ cs)
    (hstream : s' = (s.setBase .hex).advance (lineLength counter frame.data.length)) :
    s'.good = true ∧ s'.rest = cs ∧ s'.pos = s.pos + lineLength counter frame.data.length ∧
      s'.content = s.content := by
  subst hstream
  refine ⟨hgood, ?_, rfl, rfl⟩
  rw [IStream.rest_advance, IStream.rest_setBase, hrest]
  exact List.drop_left' (length_printLine hfmt (le_trans hlength (by decide)))

/-- Behind the last line there is no frame and no error. -/
theorem readNextLine_end {r : TRCReader} {s : IStream}
    (hleads : Leads (lineBody fmt) { stream := r.fileStream } { stream := s })
    (hgood : s.good = true) (hrest : s.rest = []) :
    ∃ fuel r', r.readNextLine fmt fuel = .ok (r', ⟨false, true⟩) ∧
      r'.fileStream = { s with eofbit := true, failbit := true } ∧
        r'.currentPos = r.currentPos := by
  have hbody : lineBody fmt { stream := s } =
      .inr (.left { stream := { s with eofbit := true, failbit := true } }) := by
    rw [lineBody, IStream.get_nil hgood hrest]
  obtain ⟨fuel, hread⟩ := readNextLine_of_ends (hleads _ (.of_inr hbody))
  exact ⟨fuel, _, hread, rfl, rfl⟩

theorem leads_comment {l : LineState} (hgood : l.stream.good = true) {line cs : List Char}
    (hrest : l.stream.rest = ';' :: line ++ '\n' :: cs) (hline : ∀ c ∈ line, c ≠ '\n') :
    Leads (lineBody fmt) l { l with stream := l.stream.advance (line.length + 2) } := by
  have hgood' : (l.stream.advance 1).good = true := hgood
  have hnext : (l.stream.advance 1).rest = line ++ '\n' :: cs := by
    rw [IStream.rest_advance, hrest]
    rfl
  refine .of_inl ?_
  rw [lineBody, IStream.get_cons hgood hrest]
  simp only
  rw [if_neg (by decide), if_pos trivial, IStream.ignoreUntil_append hgood' hnext hline,
    IStream.advance_advance, Nat.add_comm 1]

/-- The header is two comments. -/
theorem leads_header {s : IStream} (hgood : s.good = true) {cs : List Char}
    (hrest : s.rest = trcFileHeader ++ cs) :
    Leads (lineBody fmt) { stream := s } { stream := s.advance 20 } := by
  have hfirst : s.rest = ';' :: "$FILEVERSION=1.1".toList ++ '\n' :: (';' :: [] ++ '\n' :: cs) :=
    hrest
  have hleads := @leads_comment fmt { stream := s } hgood _ _ hfirst (by simp)
  have hsecond : (s.advance 18).rest = ';' :: [] ++ '\n' :: cs := by
    rw [IStream.rest_advance, hrest]
    rfl
  have hleads' := @leads_comment fmt { stream := s.advance 18 } hgood _ _ hsecond (by simp)
  rw [IStream.advance_advance] at hleads'
  exact hleads.trans hleads'

/-! ### Reading all lines -/

/-- The lines of the frames, from a position of the file on, can be read. -/
def Playable : ℕ → UInt32 → List (CanFrame × TimeStamp) → Prop
  | _, _, [] => True
  | pos, counter, (frame, _) :: frames =>
    (frame.data ≠ [] ∧ pos + lineLength (counter + 1) frame.data.length ≤ 2 ^ 31 + 2) ∧
      Playable (pos + lineLength (counter + 1) frame.data.length) (counter + 1) frames

/-- The file is not accepted. -/
def RejectsFile (x : Except NoResult (TRCReader × Bool)) : Prop :=
  x = .error .undefined ∨ ∃ r, x = .ok (r, false)

theorem checkIntegrity_rejects {m : ℕ} {r : TRCReader} (heof : r.fileStream.eofbit = false)
    (h : RejectsLine (r.readNextLine fmt m)) :
    RejectsFile (r.checkIntegrity fmt (m + 1)) := by
  rw [TRCReader.checkIntegrity, heof]
  rcases h with h | ⟨r', flags, h, herror⟩
  · rw [h]
    exact .inl rfl
  · rw [h]
    simp only [herror]
    exact .inr ⟨r', rfl⟩

theorem RejectsFile.ne_outOfFuel {x : Except NoResult (TRCReader × Bool)} (h : RejectsFile x) :
    x ≠ .error .outOfFuel := by
  rcases h with rfl | ⟨r, rfl⟩ <;> simp

section Lines

variable (hfmt : fmt.Documented)

include hfmt

/-- Checking goes through the lines, and counts up to the position of the last one. -/
theorem checkIntegrity_lines {frames : List (CanFrame × TimeStamp)}
    (hlength : ∀ entry ∈ frames, entry.1.data.length ≤ 8) {counter : UInt32} {r : TRCReader}
    {s : IStream} (heof : r.fileStream.eofbit = false)
    (hleads : Leads (lineBody fmt) { stream := r.fileStream } { stream := s })
    (hgood : s.good = true) (hrest : s.rest = printLines fmt counter frames)
    (hpos : s.pos ≤ 2 ^ 31 + 2) (hcurrent : frames = [] → r.currentPos = (counter - 1).toNat) :
    (Playable s.pos counter frames ∧
      ∃ fuel r', r.checkIntegrity fmt fuel = .ok (r', true) ∧
        r'.totalFrames = (counter + UInt32.ofNat frames.length - 1).toNat + 1 ∧
        r'.fileStream.content = s.content) ∨
      (¬Playable s.pos counter frames ∧ ∃ fuel, RejectsFile (r.checkIntegrity fmt fuel)) := by
  induction frames generalizing counter r s with
  | nil =>
    refine .inl ⟨trivial, ?_⟩
    obtain ⟨fuel, r', hread, hstream, hpos'⟩ := readNextLine_end hleads hgood hrest
    have heof' : r'.fileStream.eofbit = true := by rw [hstream]
    have hend : r'.checkIntegrity fmt 1 =
        .ok ({ r' with totalFrames := r'.currentPos + 1 }, true) := if_pos heof'
    obtain ⟨fuel', hcheck⟩ := checkIntegrity_step heof hread rfl hend (by simp)
    refine ⟨fuel', _, hcheck, ?_, ?_⟩
    · simp only [hpos', hcurrent, List.length_nil]
      simp
    · simp only [hstream]
  | cons entry frames ih =>
    obtain ⟨frame, t⟩ := entry
    rw [List.forall_mem_cons] at hlength
    rcases @readNextLine_line fmt hfmt frame t (counter + 1) (printLines fmt (counter + 1) frames)
        hlength.1 r s hleads hgood hrest hpos with
      ⟨hfits, fuel, r', hread, hstream, hcurrent', -⟩ | ⟨hnot, fuel, hrejects⟩
    · obtain ⟨hgood', hrest', hpos', hcontent⟩ :=
        behind_line hfmt hlength.1 hgood hrest hstream
      have hsum : counter + 1 + UInt32.ofNat frames.length =
          counter + UInt32.ofNat ((frame, t) :: frames).length := by
        rw [List.length_cons, Nat.add_comm, UInt32.ofNat_add, ← UInt32.add_assoc]
        rfl
      rcases ih hlength.2 (flags_of_good hgood').1 (.refl _) hgood' hrest'
          (by rw [hpos']; exact hfits.2) (fun _ => hcurrent') with
        ⟨hplayable, fuel', r'', hcheck, htotal, hcontent'⟩ | ⟨hnot, fuel', hrejects⟩
      · rw [hpos'] at hplayable
        refine .inl ⟨⟨hfits, hplayable⟩, ?_⟩
        obtain ⟨fuel'', hcheck'⟩ := checkIntegrity_step heof hread rfl hcheck (by simp)
        exact ⟨fuel'', r'', hcheck', by rw [htotal, hsum], hcontent'.trans hcontent⟩
      · rw [hpos'] at hnot
        refine .inr ⟨fun h => hnot h.2, ?_⟩
        obtain ⟨fuel'', hcheck'⟩ := checkIntegrity_step heof hread rfl rfl hrejects.ne_outOfFuel
        exact ⟨fuel'', by rwa [hcheck']⟩
    · exact .inr ⟨fun h => hnot h.1, fuel + 1, checkIntegrity_rejects heof hrejects⟩

end Lines

/-! ### Playing back -/

/-- Calls of `readNextCanFrame` give the frames one after the other. -/
def Replays (fmt : TimeFormat) : TRCReader → List CanFrame → Prop
  | _, [] => True
  | r, frame :: frames =>
    ∃ fuel r', r.readNextCanFrame fmt fuel = .ok r' ∧ r'.getLastCanFrame.2 = frame ∧
      Replays fmt r' frames

/-- What is recorded is accepted, has as many frames as were written, and gives them back. -/
def PlaysBack (fmt : TimeFormat) (w : TRCWriter) (r : TRCReader)
    (frames : List (CanFrame × TimeStamp)) : Prop :=
  ∃ file fuel r', recording fmt w frames = .ok file ∧
    r.loadFile fmt fuel file = .ok (r', true) ∧ r'.getNumberOfFrames = frames.length ∧
      Replays fmt r' (frames.map Prod.fst)

theorem readNextCanFrame_of_line {m : ℕ} {r r' : TRCReader} {flags : LineFlags}
    (heof : r.fileStream.eofbit = false) (hread : r.readNextLine fmt m = .ok (r', flags)) :
    r.readNextCanFrame fmt m = .ok r' := by
  rw [TRCReader.readNextCanFrame, heof, hread]
  rfl

theorem replays_lines (hfmt : fmt.Documented) {frames : List (CanFrame × TimeStamp)}
    (hlength : ∀ entry ∈ frames, entry.1.data.length ≤ 8) {counter : UInt32} {r : TRCReader}
    {s : IStream} (heof : r.fileStream.eofbit = false)
    (hleads : Leads (lineBody fmt) { stream := r.fileStream } { stream := s })
    (hgood : s.good = true) (hrest : s.rest = printLines fmt counter frames)
    (hpos : s.pos ≤ 2 ^ 31 + 2) (hplayable : Playable s.pos counter frames) :
    Replays fmt r (frames.map Prod.fst) := by
  induction frames generalizing counter r s with
  | nil => trivial
  | cons entry frames ih =>
    obtain ⟨frame, t⟩ := entry
    rw [List.forall_mem_cons] at hlength
    rcases @readNextLine_line fmt hfmt frame t (counter + 1) (printLines fmt (counter + 1) frames)
        hlength.1 r s hleads hgood hrest hpos with
      ⟨hfits, fuel, r', hread, hstream, -, hlast⟩ | ⟨hnot, -⟩
    · obtain ⟨hgood', hrest', hpos', -⟩ := behind_line hfmt hlength.1 hgood hrest hstream
      refine ⟨fuel, r', readNextCanFrame_of_line heof hread, hlast, ?_⟩
      apply ih hlength.2 (flags_of_good hgood').1 (.refl _) hgood' hrest'
      · rw [hpos']
        exact hfits.2
      · rw [hpos']
        exact hplayable.2
    · exact absurd hplayable.1 hnot

/-- The characters of a recording. -/
def linesLength : UInt32 → List (CanFrame × TimeStamp) → ℕ
  | _, [] => 0
  | counter, (frame, _) :: frames =>
    lineLength (counter + 1) frame.data.length + linesLength (counter + 1) frames

theorem playable_iff {pos : ℕ} {counter : UInt32} {frames : List (CanFrame × TimeStamp)}
    (hpos : pos ≤ 2 ^ 31 + 2) :
    Playable pos counter frames ↔
      (∀ entry ∈ frames, entry.1.data ≠ []) ∧ pos + linesLength counter frames ≤ 2 ^ 31 + 2 := by
  induction frames generalizing pos counter with
  | nil => exact iff_of_true trivial ⟨by simp, hpos⟩
  | cons entry frames ih =>
    obtain ⟨frame, t⟩ := entry
    rw [Playable, linesLength, List.forall_mem_cons, ← Nat.add_assoc]
    constructor
    · rintro ⟨⟨hne, hle⟩, hplayable⟩
      obtain ⟨hall, hsum⟩ := (ih hle).mp hplayable
      exact ⟨⟨hne, hall⟩, hsum⟩
    · rintro ⟨⟨hne, hall⟩, hsum⟩
      have hle : pos + lineLength (counter + 1) frame.data.length ≤ 2 ^ 31 + 2 := by omega
      exact ⟨⟨hne, hle⟩, (ih hle).mpr ⟨hall, hsum⟩⟩

/-- A line has at least 43 characters. -/
theorem length_le_linesLength (counter : UInt32) (frames : List (CanFrame × TimeStamp)) :
    43 * frames.length ≤ linesLength counter frames := by
  induction frames generalizing counter with
  | nil => exact le_refl 0
  | cons entry frames ih =>
    obtain ⟨frame, t⟩ := entry
    have hrest := ih (counter + 1)
    rw [linesLength, lineLength, List.length_cons]
    omega

/-- The characters of the file: the header, and for each frame a line. -/
def recordingLength (frames : List (CanFrame × TimeStamp)) : ℕ := 20 + linesLength 0 frames

/-- Checking a recording of no frames counts one. -/
theorem checkIntegrity_header (hfmt : fmt.Documented) {r : TRCReader}
    (hgood : r.fileStream.good = true) (hpos : r.fileStream.pos = 0)
    (hrest : r.fileStream.rest = trcFileHeader) (hcurrent : r.currentPos = 0) :
    ∃ fuel r', r.checkIntegrity fmt fuel = .ok (r', true) ∧ r'.totalFrames = 1 := by
  have hleads := @leads_header fmt r.fileStream hgood [] (by rw [hrest, List.append_nil])
  have hend : (r.fileStream.advance 20).rest = [] := by
    rw [IStream.rest_advance, hrest]
    rfl
  have hpos20 : (r.fileStream.advance 20).pos = 20 := by rw [IStream.pos_advance, hpos]
  rcases @checkIntegrity_lines fmt hfmt [] (by simp) 1 r _ (flags_of_good hgood).1 hleads hgood hend
      (by omega) (fun _ => hcurrent) with ⟨-, fuel, r', hcheck, htotal, -⟩ | ⟨hnot, -⟩
  · exact ⟨fuel, r', hcheck, htotal⟩
  · exact absurd trivial hnot

section Recording

variable (hfmt : fmt.Documented) {frames : List (CanFrame × TimeStamp)} {s : IStream}
  (hlength : ∀ entry ∈ frames, entry.1.data.length ≤ 8) (hgood : s.good = true) (hpos : s.pos = 0)
  (hrest : s.rest = trcFileHeader ++ printLines fmt 0 frames)

include hrest

theorem rest_header : (s.advance 20).rest = printLines fmt 0 frames := by
  rw [IStream.rest_advance, hrest]
  exact List.drop_left' rfl

include hfmt hlength hgood hpos

theorem checkIntegrity_recording (hne : frames ≠ []) {r : TRCReader} (hstream : r.fileStream = s) :
    (Playable 20 0 frames ∧ ∃ fuel r', r.checkIntegrity fmt fuel = .ok (r', true) ∧
        r'.totalFrames = frames.length ∧ r'.fileStream.content = s.content) ∨
      (¬Playable 20 0 frames ∧ ∃ fuel, RejectsFile (r.checkIntegrity fmt fuel)) := by
  obtain rfl := hstream
  have hpos20 : (r.fileStream.advance 20).pos = 20 := by rw [IStream.pos_advance, hpos]
  have hlines := @checkIntegrity_lines fmt hfmt frames hlength 0 r _ (flags_of_good hgood).1
    (leads_header hgood hrest) hgood (rest_header hrest) (by omega) (fun hnil => absurd hnil hne)
  rw [hpos20] at hlines
  refine hlines.imp_left ?_
  rintro ⟨hplayable, fuel, r', hcheck, htotal, hcontent⟩
  refine ⟨hplayable, fuel, r', hcheck, ?_, hcontent⟩
  -- the counter has not wrapped
  have hsize := ((playable_iff (by decide)).mp hplayable).2
  have hcount := length_le_linesLength 0 frames
  obtain ⟨n, hn⟩ := Nat.exists_eq_succ_of_ne_zero (mt List.length_eq_zero_iff.mp hne)
  have hlast : (0 + UInt32.ofNat frames.length - 1 : UInt32) = UInt32.ofNat n := by
    rw [hn, UInt32.zero_add, Nat.succ_eq_add_one, UInt32.ofNat_add]
    exact UInt32.add_sub_cancel _ _
  rw [htotal, hlast, UInt32.toNat_ofNat_of_lt' (show n < 2 ^ 32 by omega), hn]

theorem replays_recording (hplayable : Playable 20 0 frames) {r : TRCReader}
    (hstream : r.fileStream = s) : Replays fmt r (frames.map Prod.fst) := by
  obtain rfl := hstream
  have hpos20 : (r.fileStream.advance 20).pos = 20 := by rw [IStream.pos_advance, hpos]
  apply replays_lines hfmt hlength (flags_of_good hgood).1 (leads_header hgood hrest) hgood
    (rest_header hrest)
  · omega
  · rwa [hpos20]

end Recording

/-- The reader when it has opened a file. -/
def TRCReader.opened (r : TRCReader) (content : List Char) : TRCReader :=
  { r.unloadFile with
    fileStream := { content := content, base := r.unloadFile.fileStream.base } }

/-- A file is accepted when it is checked without an error, and then read from its beginning. -/
theorem loadFile_eq_ok_iff {r r' : TRCReader} {fuel : ℕ} {content : List Char} :
    r.loadFile fmt fuel (some content) = .ok (r', true) ↔
      ∃ r₁, (r.opened content).checkIntegrity fmt fuel = .ok (r₁, true) ∧ r' = r₁.reset := by
  unfold TRCReader.loadFile TRCReader.opened
  simp only
  cases hcheck : TRCReader.checkIntegrity fmt fuel { r.unloadFile with
      fileStream := { content := content, base := r.unloadFile.fileStream.base } } with
  | error e => simp
  | ok x =>
    obtain ⟨r₁, accepted⟩ := x
    cases accepted with
    | false => simp
    | true => simp [eq_comm]

/-- What is recorded is played back if and only if there is a frame, every frame has a byte of
data, and the file has at most 2^31 + 2 characters. -/
theorem playsBack_iff (hfmt : fmt.Documented) (w : TRCWriter) (r : TRCReader)
    {frames : List (CanFrame × TimeStamp)}
    (hlength : ∀ entry ∈ frames, entry.1.data.length ≤ 8) :
    PlaysBack fmt w r frames ↔
      frames ≠ [] ∧ (∀ entry ∈ frames, entry.1.data ≠ []) ∧
        recordingLength frames ≤ 2 ^ 31 + 2 := by
  have hgood : (r.opened (trcFileHeader ++ printLines fmt 0 frames)).fileStream.good = true := rfl
  have hpos : (r.opened (trcFileHeader ++ printLines fmt 0 frames)).fileStream.pos = 0 := rfl
  have hrest : (r.opened (trcFileHeader ++ printLines fmt 0 frames)).fileStream.rest =
    trcFileHeader ++ printLines fmt 0 frames := rfl
  rw [recordingLength, ← playable_iff (by decide)]
  constructor
  · rintro ⟨file, fuel, r', hfile, hloaded, hnumber, -⟩
    rw [recording_eq] at hfile
    obtain rfl := Except.ok.inj hfile
    obtain ⟨r₁, hcheck, rfl⟩ := loadFile_eq_ok_iff.mp hloaded
    have htotal : r₁.totalFrames = frames.length := hnumber
    have hunique : ∀ fuel' x,
        (r.opened (trcFileHeader ++ printLines fmt 0 frames)).checkIntegrity fmt fuel' = x →
          x ≠ .error .outOfFuel → x = .ok (r₁, true) := by
      intro fuel' x hx hne
      rw [← checkIntegrity_mono hx hne (le_max_right fuel fuel')]
      exact checkIntegrity_mono hcheck (by simp) (le_max_left fuel fuel')
    have hne : frames ≠ [] := by
      rintro rfl
      obtain ⟨fuel', r₂, hcheck', htotal'⟩ := @checkIntegrity_header fmt hfmt _ hgood hpos
        (by rw [hrest, printLines, List.append_nil]) rfl
      have hsame := hunique fuel' _ hcheck' (by simp)
      obtain ⟨rfl, -⟩ := Prod.mk.inj (Except.ok.inj hsame)
      rw [htotal'] at htotal
      cases htotal
    refine ⟨hne, ?_⟩
    rcases checkIntegrity_recording hfmt hlength hgood hpos hrest hne rfl with
      ⟨hplayable, -⟩ | ⟨-, fuel', hrejects⟩
    · exact hplayable
    · have hsame := hunique fuel' _ rfl hrejects.ne_outOfFuel
      rw [hsame] at hrejects
      rcases hrejects with h | ⟨r₂, h⟩ <;> cases h
  · rintro ⟨hne, hplayable⟩
    rcases checkIntegrity_recording hfmt hlength hgood hpos hrest hne rfl with
      ⟨-, fuel, r₁, hcheck, htotal, hcontent⟩ | ⟨hnot, -⟩
    · refine ⟨_, fuel, r₁.reset, recording_eq w frames, ?_, htotal, ?_⟩
      · exact loadFile_eq_ok_iff.mpr ⟨r₁, hcheck, rfl⟩
      · -- the reader is back at the beginning of the file
        have hcontent' : r₁.reset.fileStream.rest = trcFileHeader ++ printLines fmt 0 frames := by
          rw [← hrest, IStream.rest, IStream.rest, hpos, ← hcontent]
          rfl
        exact replays_recording hfmt hlength rfl rfl hcontent' hplayable rfl
    · exact absurd hplayable hnot

/-- An implementation on exact numbers, which rounds half a tenth up. -/
def TimeFormat.reference : TimeFormat where
  print t :=
    let tenths := ((t.seconds * 1000).toNat * 1000 + t.microSec.toNat + 50) / 100
    NumberBase.dec.print (tenths / 10) ++ ['.', NumberBase.dec.printDigit (tenths % 10)]
  read cs :=
    let whole := cs.takeWhile NumberBase.dec.isDigit
    let fraction := cs.drop (whole.length + 1)
    some (UInt64.ofNat
      (NumberBase.dec.readDigits whole * 1000 + NumberBase.dec.readDigits fraction * 100))

theorem TimeFormat.reference_documented : TimeFormat.reference.Documented where
  print_fixed t := by
    refine ⟨_, _, rfl, NumberBase.dec.print_ne_nil _, ?_, fun c => NumberBase.isDigit_of_mem_print,
      NumberBase.dec.isDigit_printDigit (Nat.mod_lt _ (by decide))⟩
    have hseconds := (t.seconds * 1000).toNat_lt
    have hmicro := t.microSec.toNat_lt
    apply (NumberBase.dec.length_print_le_iff _ (by decide)).mpr
    change _ < 10 ^ 10
    omega
  read_fixed _ _ _ _ := ⟨_, rfl⟩

/-- A recording of two frames is played back. -/
theorem twoFrames_playsBack :
    TimeFormat.reference.Documented ∧
      PlaysBack TimeFormat.reference {} {}
        [(⟨0x18FEF100, [0x0A, 0xFF, 0x00]⟩, ⟨12, 345678⟩),
          (⟨0x0CF00400, [1, 2, 3, 4, 5, 6, 7, 8]⟩, ⟨12, 365678⟩)] :=
  ⟨TimeFormat.reference_documented,
    (playsBack_iff TimeFormat.reference_documented {} {} (by decide)).mpr
      ⟨List.cons_ne_nil _ _, by decide, by decide⟩⟩

theorem loadFile_mono {m n : ℕ} {r r' : TRCReader} {accepted : Bool} {file : Option (List Char)}
    (h : r.loadFile fmt m file = .ok (r', accepted)) (hle : m ≤ n) :
    r.loadFile fmt n file = .ok (r', accepted) := by
  cases file with
  | none => exact h
  | some content =>
    unfold TRCReader.loadFile at h ⊢
    simp only at h ⊢
    split at h
    · cases h
    · rename_i hcheck
      rw [checkIntegrity_mono hcheck (by simp) hle]
      exact h
    · rename_i hcheck
      rw [checkIntegrity_mono hcheck (by simp) hle]
      exact h

/-- A recording of no frames counts one, and a frame without data is rejected. -/
theorem unplayable_not_playsBack :
    ¬PlaysBack TimeFormat.reference {} {} [] ∧
      ¬PlaysBack TimeFormat.reference {} {} [(⟨0x18FEF100, []⟩, ⟨12, 345678⟩)] := by
  constructor
  · rintro ⟨file, fuel, r, hfile, hloaded, hnumber, -⟩
    cases hfile
    obtain ⟨r', hload, htotal⟩ : ∃ r', TRCReader.loadFile TimeFormat.reference 10 {}
        (some trcFileHeader) = .ok (r', true) ∧ r'.totalFrames = 1 := ⟨_, rfl, rfl⟩
    have hsame := (loadFile_mono hload (le_max_right fuel 10)).symm.trans
      (loadFile_mono hloaded (le_max_left fuel 10))
    obtain ⟨rfl, -⟩ := Prod.mk.inj (Except.ok.inj hsame)
    have hnone : r'.totalFrames = 0 := hnumber
    omega
  · rintro ⟨file, fuel, r, hfile, hloaded, -, -⟩
    cases hfile
    obtain ⟨r', hload⟩ : ∃ r', TRCReader.loadFile TimeFormat.reference 60 {}
        (some (trcFileHeader ++ printLine TimeFormat.reference 1 ⟨0x18FEF100, []⟩ ⟨12, 345678⟩)) =
          .ok (r', false) := ⟨_, rfl⟩
    have hsame := (loadFile_mono hload (le_max_right fuel 60)).symm.trans
      (loadFile_mono hloaded (le_max_left fuel 60))
    cases (Prod.mk.inj (Except.ok.inj hsame)).2

end J1939
