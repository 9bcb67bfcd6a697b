import J1939.Lib.Outcomes
import J1939.TRCCursor
import J1939.TimeStamps

/-!
# From the bus to a capture

`TRCDumper` records what it receives, and `TRCToCap` turns a recording into a capture. Every frame
that has been received becomes one packet.
-/

namespace J1939

variable {fmt : TimeFormat}

/-! ### The recorder -/

/-- The globals of `TRCDumper`. -/
structure TRCDumper where
  writer : TRCWriter := {}
  firstFrame : Bool := true
  initialTimeStamp : TimeStamp := ⟨0, 0⟩

namespace TRCDumper

/-- `onRcv` of `TRCDumper`. -/
def onRcv (fmt : TimeFormat) (d : TRCDumper) (frame : CanFrame) (timeStamp : TimeStamp) :
    Except TRCWriteException TRCDumper := do
  let d := if d.firstFrame then { d with initialTimeStamp := timeStamp, firstFrame := false } else d
  let writer ← d.writer.write fmt frame (timeStamp.sub d.initialTimeStamp)
  return { d with writer := writer }

/-- The frames that are received until the program is interrupted. -/
def receive (fmt : TimeFormat) (d : TRCDumper) (frames : List (CanFrame × TimeStamp)) :
    Except TRCWriteException TRCDumper :=
  frames.foldlM (fun d frame => d.onRcv fmt frame.1 frame.2) d

/-- The file that `TRCDumper` leaves. -/
def dump (fmt : TimeFormat) (frames : List (CanFrame × TimeStamp)) :
    Except TRCWriteException (Option (List Char)) := do
  let d ← receive fmt { writer := ({} : TRCWriter).openFile } frames
  return d.writer.fileStream

end TRCDumper

/-! ### The converter -/

/-- What `libpcap_write_packet` is given. -/
structure CapPacket where
  sec : UInt64
  usec : UInt64
  data : List UInt8
  deriving DecidableEq, Repr

/-- The packet of a frame: the identifier with the flag of an extended frame, the length, three
reserved bytes and the data. -/
def capPacket (extendedFormat : Bool) (pairTStampFrame : UInt64 × CanFrame) : CapPacket :=
  let frame := pairTStampFrame.2
  { sec := pairTStampFrame.1 / 1000000
    usec := pairTStampFrame.1 % 1000000
    data := [((frame.id >>> 24) &&& 0xFF).toUInt8 ||| (if extendedFormat then 0x80 else 0x00),
      ((frame.id >>> 16) &&& 0xFF).toUInt8, ((frame.id >>> 8) &&& 0xFF).toUInt8,
      (frame.id &&& 0xFF).toUInt8, UInt8.ofNat frame.data.length, 0, 0, 0] ++ frame.data }

/-- `isExtendedFormat` of the last frame. Frames of a file have the flag. The frame that is there
when there is none has never got it. -/
def TRCReader.isExtendedFormat (unset : Bool) (r : TRCReader) : Bool :=
  if r.getLastCanFrame = (0, ⟨0, []⟩) then unset else true

/-- The loop over the frames, with its condition at the end. -/
def convertFrames (fmt : TimeFormat) (unset : Bool) :
    ℕ → TRCReader → Except NoResult (List CapPacket)
  | 0, _ => .error .outOfFuel
  | fuel + 1, r => do
    let trcReader ← r.readNextCanFrame fmt fuel
    let packet := capPacket (trcReader.isExtendedFormat unset) trcReader.getLastCanFrame
    if trcReader.getCurrentPos < trcReader.getNumberOfFrames - 1 then
      let packets ← convertFrames fmt unset fuel trcReader
      return packet :: packets
    else return [packet]

/-- `TRCToCap` on a file, with an output that can be opened: the packets written, or what `main`
returns. -/
def trcToCap (fmt : TimeFormat) (unset : Bool) (fuel : ℕ) (file : Option (List Char)) :
    Except NoResult (Except ℤ (List CapPacket)) :=
  match ({} : TRCReader).loadFile fmt fuel file with
  | .error e => .error e
  | .ok (_, false) => .ok (.error (-2))
  | .ok (trcReader, true) =>
    if trcReader.getNumberOfFrames = 0 then .ok (.error (-3))
    else (convertFrames fmt unset fuel trcReader).map .ok

/-! ### What is recorded -/

/-- Times count from the first frame. -/
def sinceFirst : List (CanFrame × TimeStamp) → List (CanFrame × TimeStamp)
  | [] => []
  | (frame, first) :: frames =>
    ((frame, first) :: frames).map fun entry => (entry.1, entry.2.sub first)

theorem TRCDumper.receive_started (d : TRCDumper) (h : d.firstFrame = false)
    (frames : List (CanFrame × TimeStamp)) :
    (do let d ← receive fmt d frames; return d.writer) =
      d.writer.writeAll fmt
        (frames.map fun entry => (entry.1, entry.2.sub d.initialTimeStamp)) := by
  induction frames generalizing d with
  | nil => rfl
  | cons entry frames ih =>
    obtain ⟨frame, timeStamp⟩ := entry
    rw [receive, List.foldlM_cons, List.map_cons, TRCWriter.writeAll, onRcv, h]
    simp only [Bool.false_eq_true, if_false]
    cases hwrite : d.writer.write fmt frame (timeStamp.sub d.initialTimeStamp) with
    | error e => rfl
    | ok writer => exact ih { d with writer := writer } h

theorem TRCDumper.dump_eq (w : TRCWriter) (frames : List (CanFrame × TimeStamp)) :
    dump fmt frames = recording fmt w (sinceFirst frames) := by
  cases frames with
  | nil => rfl
  | cons entry frames =>
    obtain ⟨frame, first⟩ := entry
    have hstarted := @receive_started fmt
      { writer := w.openFile, firstFrame := false, initialTimeStamp := first } rfl
      ((frame, first) :: frames)
    rw [recording, sinceFirst]
    refine Eq.trans ?_ (congrArg (· >>= fun w => pure w.fileStream) hstarted)
    rw [dump, bind_assoc]
    rfl

/-! ### What is converted -/

/-- A frame from a packet, without its flags. -/
def CapPacket.frame (packet : CapPacket) : Option CanFrame :=
  match packet.data with
  | b₃ :: b₂ :: b₁ :: b₀ :: length :: _ :: _ :: _ :: data =>
    if length.toNat = data.length then
      some ⟨UInt32.ofNat
        ((b₃ &&& 0x1F).toNat * 2 ^ 24 + b₂.toNat * 2 ^ 16 + b₁.toNat * 2 ^ 8 + b₀.toNat), data⟩
    else none
  | _ => none

/-- The packet of a frame with a 29-bit identifier determines it. -/
theorem frame_capPacket (extendedFormat : Bool) (time : UInt64) {frame : CanFrame}
    (hid : frame.id < 0x20000000) (hlength : frame.data.length ≤ 8) :
    (capPacket extendedFormat (time, frame)).frame = some frame := by
  have hlt : frame.id.toNat < 2 ^ 29 := UInt32.lt_iff_toNat_lt.mp hid
  have hdata : (UInt8.ofNat frame.data.length).toNat = frame.data.length := by
    rw [UInt8.toNat_ofNat']
    omega
  have hbyte : ∀ k : UInt32, k.toNat < 32 →
      ((frame.id >>> k) &&& 0xFF).toUInt8.toNat = frame.id.toNat / 2 ^ k.toNat % 2 ^ 8 := by
    intro k hk
    rw [UInt32.toNat_toUInt8, Bits.toNat_field _ _ 0xFF hk (w := 8) rfl, Nat.mod_mod]
  have hlow : (frame.id &&& 0xFF).toUInt8.toNat = frame.id.toNat % 2 ^ 8 := by
    rw [UInt32.toNat_toUInt8, Bits.toNat_low _ 0xFF (w := 8) rfl, Nat.mod_mod]
  -- the flag is not part of the identifier
  have hflag : ∀ b : UInt8, ((b ||| (if extendedFormat then 0x80 else 0x00)) &&& 0x1F).toNat =
      b.toNat % 2 ^ 5 := by
    intro b
    rw [Bits.toNat_lowByte _ 0x1F (w := 5) rfl, UInt8.toNat_or, Nat.or_mod_two_pow]
    cases extendedFormat <;> exact Nat.or_zero _
  have h24 : ((frame.id >>> 24) &&& 0xFF).toUInt8.toNat = _ := hbyte 24 (by decide)
  have h16 : ((frame.id >>> 16) &&& 0xFF).toUInt8.toNat = _ := hbyte 16 (by decide)
  have h8 : ((frame.id >>> 8) &&& 0xFF).toUInt8.toNat = _ := hbyte 8 (by decide)
  have hjoin : UInt32.ofNat (frame.id.toNat / 2 ^ 24 % 2 ^ 8 % 2 ^ 5 * 2 ^ 24 +
      frame.id.toNat / 2 ^ 16 % 2 ^ 8 * 2 ^ 16 + frame.id.toNat / 2 ^ 8 % 2 ^ 8 * 2 ^ 8 +
      frame.id.toNat % 2 ^ 8) = frame.id := by
    have hsum : frame.id.toNat / 2 ^ 24 % 2 ^ 8 % 2 ^ 5 * 2 ^ 24 +
        frame.id.toNat / 2 ^ 16 % 2 ^ 8 * 2 ^ 16 + frame.id.toNat / 2 ^ 8 % 2 ^ 8 * 2 ^ 8 +
        frame.id.toNat % 2 ^ 8 = frame.id.toNat := by
      omega
    rw [hsum, UInt32.ofNat_toNat]
  rw [CapPacket.frame, capPacket]
  simp only [List.cons_append, List.nil_append]
  rw [if_pos hdata, hflag, h24, h16, h8, hlow]
  exact congrArg (fun id => some (CanFrame.mk id frame.data)) hjoin

theorem convertFrames_mono {unset : Bool} {m n : ℕ} {r : TRCReader} {packets : List CapPacket}
    (h : convertFrames fmt unset m r = .ok packets) (hle : m ≤ n) :
    convertFrames fmt unset n r = .ok packets := by
  induction m generalizing n r packets with
  | zero => cases h
  | succ m ih =>
    obtain ⟨n, rfl⟩ := Nat.exists_eq_add_of_le' (Nat.one_le_of_lt hle)
    rw [convertFrames] at h ⊢
    obtain ⟨trcReader, hread, h⟩ := Except.bind_eq_ok_iff.mp h
    rw [TRCReader.readNextCanFrame_mono hread (by omega)]
    change (if _ then _ else _) = _
    split_ifs at h ⊢ with hmore
    · obtain ⟨rest, hrest, h⟩ := Except.bind_eq_ok_iff.mp h
      rw [ih hrest (by omega)]
      exact h
    · exact h

/-- One pass of the loop: the packet is that of the next frame. -/
theorem readNextCanFrame_packet {frames : List (CanFrame × TimeStamp)} (h : Recorded fmt frames)
    (hids : ∀ entry ∈ frames, entry.1.id < 0x20000000) (unset : Bool) {r : TRCReader} {c : Cursor}
    (hat : AtCursor fmt frames r c) (hnext : c.next < frames.length) :
    ∃ fuel r', r.readNextCanFrame fmt fuel = .ok r' ∧
      AtCursor fmt frames r' ⟨c.next + 1, c.next, some c.next⟩ ∧ r'.getCurrentPos = c.next ∧
        r'.getNumberOfFrames = frames.length ∧
          (capPacket (r'.isExtendedFormat unset) r'.getLastCanFrame).frame =
            some frames[c.next].1 := by
  obtain ⟨fuel, r', hread, hat'⟩ := readNextCanFrame_atCursor h hat
  rw [Cursor.read, if_pos hnext] at hat'
  have hseen := hat'.seen none
  have hlast : r'.getLastCanFrame.2 = frames[c.next].1 := by
    refine (congrArg Seen.lastCanFrame hseen).trans ?_
    simp [Cursor.see, List.getElem?_eq_getElem hnext]
  have hmem := List.getElem_mem hnext
  refine ⟨fuel, r', hread, hat', congrArg Seen.currentPos hseen, hat'.totalFrames, ?_⟩
  have hpair : r'.getLastCanFrame = (r'.getLastCanFrame.1, frames[c.next].1) := by rw [← hlast]
  rw [hpair]
  exact frame_capPacket _ _ (hids _ hmem) (h.length _ hmem)

/-- From the cursor on, every frame becomes a packet, by induction on the number of frames left. -/
theorem convertFrames_atCursor {frames : List (CanFrame × TimeStamp)} (h : Recorded fmt frames)
    (hids : ∀ entry ∈ frames, entry.1.id < 0x20000000) (unset : Bool) {r : TRCReader} {c : Cursor}
    (hat : AtCursor fmt frames r c) (hnext : c.next < frames.length) :
    ∃ fuel packets, convertFrames fmt unset fuel r = .ok packets ∧
      packets.map CapPacket.frame = (frames.drop c.next).map fun entry => some entry.1 := by
  obtain ⟨left, hleft⟩ := Nat.exists_eq_add_of_lt hnext
  induction left generalizing r c with
  | zero =>
    obtain ⟨fuel, r', hread, -, hpos, htotal, hpacket⟩ :=
      readNextCanFrame_packet h hids unset hat hnext
    have hend : ¬r'.getCurrentPos < r'.getNumberOfFrames - 1 := by omega
    refine ⟨fuel + 1, [capPacket (r'.isExtendedFormat unset) r'.getLastCanFrame], ?_, ?_⟩
    · rw [convertFrames, hread]
      exact if_neg hend
    · rw [List.map_singleton, hpacket, List.drop_eq_getElem_cons hnext,
        List.drop_eq_nil_of_le (by omega)]
      rfl
  | succ left ih =>
    obtain ⟨fuel, r', hread, hat', hpos, htotal, hpacket⟩ :=
      readNextCanFrame_packet h hids unset hat hnext
    obtain ⟨fuel', packets, hconvert, hpackets⟩ := ih hat' (show c.next + 1 < _ by omega)
      (show _ = c.next + 1 + left + 1 by omega)
    have hmore : r'.getCurrentPos < r'.getNumberOfFrames - 1 := by omega
    refine ⟨max fuel fuel' + 1,
      capPacket (r'.isExtendedFormat unset) r'.getLastCanFrame :: packets, ?_, ?_⟩
    · rw [convertFrames, TRCReader.readNextCanFrame_mono hread (le_max_left fuel fuel')]
      change (if _ then _ else _) = _
      rw [if_pos hmore, convertFrames_mono hconvert (le_max_right fuel fuel')]
      rfl
    · rw [List.map_cons, hpacket, hpackets, List.drop_eq_getElem_cons hnext]
      rfl

/-! ### From the bus to the capture -/

theorem linesLength_map (counter : UInt32) (g : TimeStamp → TimeStamp)
    (frames : List (CanFrame × TimeStamp)) :
    linesLength counter (frames.map fun entry => (entry.1, g entry.2)) =
      linesLength counter frames := by
  induction frames generalizing counter with
  | nil => rfl
  | cons entry frames ih => rw [List.map_cons, linesLength, linesLength, ih]

end J1939
