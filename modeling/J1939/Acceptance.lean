import J1939.FixedLayout
import J1939.J1939Factory
import J1939.StringFrames

/-!
# Which payloads decode

Every frame class has a condition on the length and the bytes of a payload under which
`decodeData` succeeds. Otherwise it throws a `J1939DecodeException`.
-/

namespace J1939

/-- A method returns when the condition holds and throws a `J1939DecodeException`
otherwise. -/
def DecodesWhen {σ : Type} (m : Method σ J1939Exception Unit) (s : σ) (mem : Memory)
    (accepted : Prop) : Prop :=
  (accepted ∧ ∃ s', m.run s mem = (.ok (), s')) ∨
    ¬accepted ∧ ∃ e s', m.run s mem = (.error e, s') ∧ e.isDecode = true

namespace DecodesWhen

variable {σ : Type} {m : Method σ J1939Exception Unit} {s : σ} {mem : Memory} {accepted : Prop}

theorem ok_iff (h : DecodesWhen m s mem accepted) :
    (m.run s mem).1 = .ok () ↔ accepted := by
  rcases h with ⟨hyes, s', hrun⟩ | ⟨hno, e, s', hrun, -⟩
  · rw [hrun]
    exact iff_of_true rfl hyes
  · rw [hrun]
    exact iff_of_false (by rintro ⟨⟩) hno

theorem isDecode (h : DecodesWhen m s mem accepted) {e : J1939Exception}
    (he : (m.run s mem).1 = .error e) : e.isDecode = true := by
  rcases h with ⟨-, s', hrun⟩ | ⟨-, e', s', hrun, hdecode⟩
  · rw [hrun] at he
    cases he
  · rw [hrun] at he
    cases he
    exact hdecode

theorem of_ok (haccepted : accepted) (hrun : (m.run s mem).1 = .ok ()) :
    DecodesWhen m s mem accepted :=
  Or.inl ⟨haccepted, (m.run s mem).2, Prod.ext hrun rfl⟩

theorem of_error {e : J1939Exception} (hnot : ¬accepted) (hrun : (m.run s mem).1 = .error e)
    (he : e.isDecode = true) : DecodesWhen m s mem accepted :=
  Or.inr ⟨hnot, e, (m.run s mem).2, Prod.ext hrun rfl, he⟩

end DecodesWhen

/-! ### Frames of eight or three bytes -/

/-- The control bytes that `TPCMFrame::decodeData` knows. -/
def TPCMFrame.KnownCtrl (ctrlType : UInt8) : Prop :=
  ctrlType = ctrlTpcmRts ∨ ctrlType = ctrlTpcmCts ∨ ctrlType = ctrlTpcmAck ∨
    ctrlType = ctrlTpcmAbort ∨ ctrlType = ctrlTpcmBam

instance (ctrlType : UInt8) : Decidable (TPCMFrame.KnownCtrl ctrlType) :=
  inferInstanceAs (Decidable (_ ∨ _))

theorem TPCMFrame.run_decodeCtrl (ctrlType : UInt8) (f : TPCMFrame) (mem : Memory) :
    ∃ f', (decodeCtrl ctrlType).run f mem =
      (if KnownCtrl ctrlType then .ok () else .error .tpcmCtrlType, f') := by
  by_cases hknown : KnownCtrl ctrlType
  · rw [if_pos hknown]
    rcases hknown with rfl | rfl | rfl | rfl | rfl <;> exact ⟨_, rfl⟩
  · rw [if_neg hknown]
    simp only [KnownCtrl, not_or] at hknown
    obtain ⟨hrts, hcts, hack, habort, hbam⟩ := hknown
    rw [decodeCtrl, if_neg hrts, if_neg hcts, if_neg hack, if_neg habort, if_neg hbam]
    exact ⟨f, rfl⟩

theorem TPCMFrame.decodesWhen (f : TPCMFrame) (length : ℕ) (mem : Memory) :
    DecodesWhen (decodeData length) f mem (length = tpCmSize ∧ KnownCtrl (mem 0)) := by
  by_cases hlength : length = tpCmSize
  · obtain ⟨f', hctrl⟩ := run_decodeCtrl (mem 0) { f with ctrlType := mem 0 } mem
    by_cases hknown : KnownCtrl (mem 0)
    · rw [if_pos hknown] at hctrl
      refine .of_ok ⟨hlength, hknown⟩ ?_
      rw [decodeData, Method.run_throwIf_bind, if_neg (not_not.mpr hlength),
        Method.run_byte_bind, Method.run_modify_bind, Method.run_bind_of_ok hctrl]
      rfl
    · rw [if_neg hknown] at hctrl
      refine .of_error (fun h => hknown h.2) ?_ (e := .tpcmCtrlType) rfl
      rw [decodeData, Method.run_throwIf_bind, if_neg (not_not.mpr hlength),
        Method.run_byte_bind, Method.run_modify_bind, Method.run_bind_of_error hctrl]
  · refine .of_error (fun h => hlength h.1) ?_ (e := .tpcmLength length) rfl
    rw [decodeData, Method.run_throwIf_bind, if_pos hlength]

theorem TPDTFrame.decodesWhen (f : TPDTFrame) (length : ℕ) (mem : Memory) :
    DecodesWhen (decodeData length) f mem (length = bamDtSize) := by
  have hrun := run_decodeData f length mem
  by_cases hlength : length = bamDtSize
  · rw [if_neg (not_not.mpr hlength)] at hrun
    exact Or.inl ⟨hlength, _, hrun⟩
  · rw [if_pos hlength] at hrun
    exact Or.inr ⟨hlength, _, _, hrun, rfl⟩

theorem FMS1Frame.decodesWhen (f : FMS1Frame) (length : ℕ) (mem : Memory) :
    DecodesWhen (decodeData length) f mem
      (length = fms1FrameLength ∧ mem 0 &&& blockIdMask < numberOfBlocks) := by
  obtain ⟨f', hrun, -⟩ := run_decodeData f length mem
  by_cases hlength : length = fms1FrameLength
  · rw [if_neg (not_not.mpr hlength)] at hrun
    by_cases hblock : mem 0 &&& blockIdMask < numberOfBlocks
    · rw [if_neg (UInt8.not_le.mpr hblock)] at hrun
      exact Or.inl ⟨⟨hlength, hblock⟩, f', hrun⟩
    · rw [if_pos (UInt8.not_lt.mp hblock)] at hrun
      exact Or.inr ⟨fun h => hblock h.2, _, f', hrun, rfl⟩
  · rw [if_pos hlength] at hrun
    exact Or.inr ⟨fun h => hlength h.1, _, f', hrun, rfl⟩

theorem AddressClaimFrame.decodesWhen (f : AddressClaimFrame) (length : ℕ) (mem : Memory) :
    DecodesWhen (decodeData length) f mem (length = addressFrameLength) := by
  by_cases hlength : length = addressFrameLength
  · refine .of_ok hlength ?_
    rw [decodeData, Method.run_throwIf_bind, if_neg (not_not.mpr hlength)]
    rfl
  · refine .of_error hlength ?_ (e := .addressClaimLength length) rfl
    rw [decodeData, Method.run_throwIf_bind, if_pos hlength]

theorem RequestFrame.decodesWhen (f : RequestFrame) (length : ℕ) (mem : Memory) :
    DecodesWhen (decodeData length) f mem (length = requestFrameLength) := by
  by_cases hlength : length = requestFrameLength
  · refine .of_ok hlength ?_
    rw [decodeData, Method.run_throwIf_bind, if_neg (not_not.mpr hlength)]
    rfl
  · refine .of_error hlength ?_ (e := .requestLength length) rfl
    rw [decodeData, Method.run_throwIf_bind, if_pos hlength]

/-! ### Frames of the database -/

/-- The SPNs of a frame are all strings or none of them is, as `registerSPN` asserts. -/
def GenericFrame.Uniform (g : GenericFrame) : Prop :=
  (∀ spn ∈ g.spns.values, spn.isString = true) ∨ ∀ spn ∈ g.spns.values, spn.isString = false

/-- A payload decodes into a frame when its SPNs fit, or when as many strings as it has
can be read from the offset of the first one on. -/
def GenericFrame.Accepts (g : GenericFrame) (length : ℕ) (mem : Memory) : Prop :=
  if ∀ spn ∈ g.spns.values, spn.isString = false then ∀ spn ∈ g.spns.values, spn.Fits length
  else parseStrings mem length (firstOffset g.spns.values) g.spns.values.length ≠ none

theorem GenericFrame.decodesWhen {g : GenericFrame} (h : g.Uniform) (length : ℕ)
    (mem : Memory) : DecodesWhen (decodeData length) g mem (g.Accepts length mem) := by
  unfold Accepts
  by_cases hfixed : ∀ spn ∈ g.spns.values, spn.isString = false
  · rw [if_pos hfixed]
    rcases @run_decodeRest_fixed length [] g.spns.values hfixed mem with
      ⟨hfits, hrun⟩ | ⟨hnot, e, st, hrun, hdecode⟩
    · refine .of_ok hfits ?_
      rw [decodeData, Method.run_onPart, decodeSpns_eq, hrun]
    · refine .of_error hnot ?_ hdecode
      rw [decodeData, Method.run_onPart, decodeSpns_eq, hrun]
  · rw [if_neg hfixed]
    have hstring := h.resolve_right hfixed
    rcases @run_decodeSpns_strings length _ _ hstring
        (getOffset_of_mem_head?_firstOffset _) mem with
      ⟨vs, spns', hparse, hrun, -⟩ | ⟨hparse, e, st, hrun, hdecode⟩
    · refine .of_ok (by rw [hparse]; exact Option.some_ne_none _) ?_
      rw [decodeData, Method.run_onPart, hrun]
    · refine .of_error (not_not.mpr hparse) ?_ hdecode
      rw [decodeData, Method.run_onPart, hrun]

theorem GenericFrame.uniform_new (pgn : UInt32) : GenericFrame.Uniform { pgn := pgn } :=
  Or.inl (by simp [SortedMap.values])

/-- The kind of an SPN is kept when the offsets are recomputed. -/
theorem isString_recalculateFrom {next : ℕ} {spns : List SPN} {b : Bool}
    (h : ∀ spn ∈ spns, spn.isString = b) :
    ∀ spn ∈ recalculateFrom next spns, spn.isString = b := by
  induction spns generalizing next with
  | nil => exact h
  | cons spn spns ih =>
    rw [List.forall_mem_cons] at h
    have hmoved : (spn.setOffset next).isString = b := by
      rw [← h.1]
      cases spn <;> rfl
    rw [recalculateFrom, List.forall_mem_cons]
    exact ⟨hmoved, ih h.2⟩

theorem isString_recalculateStringOffsets {spns : List SPN} {b : Bool}
    (h : ∀ spn ∈ spns, spn.isString = b) :
    ∀ spn ∈ recalculateStringOffsets spns, spn.isString = b := by
  cases spns with
  | nil => exact h
  | cons spn spns =>
    rw [List.forall_mem_cons] at h
    rw [recalculateStringOffsets, List.forall_mem_cons]
    exact ⟨h.1, isString_recalculateFrom h.2⟩

section Register

variable {frame : GenericFrame} {spn : SPN}

theorem GenericFrame.Uniform.isString_eq (h : frame.Uniform)
    (hassert : frame.registerAssertion spn) :
    ∀ x ∈ frame.spns.values, x.isString = spn.isString := by
  intro x hx
  obtain ⟨first, rest, hcons⟩ := List.exists_cons_of_ne_nil (List.ne_nil_of_mem hx)
  have hfirst := hassert first (by rw [hcons]; rfl)
  have hmem : first ∈ frame.spns.values := by simp [hcons]
  rcases h with h | h <;> rw [← hfirst, h x hx, h first hmem]

theorem isString_registeredSpns (h : frame.Uniform) (hassert : frame.registerAssertion spn) :
    ∀ x ∈ (registeredSpns frame.spns spn).values, x.isString = spn.isString := by
  unfold registeredSpns
  cases frame.spns.find? spn.getSpnNumber with
  | none => exact forall_values_insert (h.isString_eq hassert) rfl
  | some _ => exact h.isString_eq hassert

end Register

/-- `registerSPN` under its assertion keeps a frame uniform. -/
theorem GenericFrame.Uniform.registerSPN {g : GenericFrame} (h : g.Uniform) {spn : SPN}
    (hassert : g.registerAssertion spn) : (g.registerSPN spn).Uniform := by
  have hinserted := isString_registeredSpns h hassert
  have hspns : ∀ x ∈ (g.registerSPN spn).spns.values, x.isString = spn.isString := by
    rw [registerSPN_eq_ite]
    split_ifs
    · rw [SortedMap.values_setValues (length_recalculateStringOffsets _)]
      exact isString_recalculateStringOffsets hinserted
    · exact hinserted
  unfold Uniform
  cases hstring : spn.isString with
  | true => exact Or.inl fun x hx => (hspns x hx).trans hstring
  | false => exact Or.inr fun x hx => (hspns x hx).trans hstring

/-! ### Active trouble codes -/

/-- The SPNs of a `DM1` are the lamp statuses of its constructor, with any values. -/
def DM1.HasLamps (f : DM1) : Prop :=
  f.spns.values.map SPN.definition = DM1.new.spns.values.map SPN.definition

instance (f : DM1) : Decidable f.HasLamps := inferInstanceAs (Decidable (_ = _))

/-- What holds of the eight definitions holds of the SPNs. -/
theorem DM1.HasLamps.forall {f : DM1} (h : f.HasLamps) {P : SPN → Prop}
    (hP : ∀ d ∈ DM1.new.spns.values.map SPN.definition, P d)
    (hdefinition : ∀ spn : SPN, P spn.definition → P spn) : ∀ spn ∈ f.spns.values, P spn := by
  intro spn hspn
  have hmem := List.mem_map_of_mem (f := SPN.definition) hspn
  rw [h] at hmem
  exact hdefinition spn (hP _ hmem)

theorem DM1.HasLamps.isString {f : DM1} (h : f.HasLamps) :
    ∀ spn ∈ f.spns.values, spn.isString = false :=
  h.forall (by decide) fun spn hspn => by cases spn <;> first | rfl | cases hspn

/-- The lamp statuses lie in the first two bytes. -/
theorem DM1.HasLamps.getOffset_lt {f : DM1} (h : f.HasLamps) :
    ∀ spn ∈ f.spns.values, spn.getOffset < 2 ∧ spn.getByteSize = 1 :=
  h.forall (by decide) fun spn hspn => by cases spn <;> exact hspn

theorem DM1.HasLamps.exists_getOffset {f : DM1} (h : f.HasLamps) {offset : ℕ}
    (hoffset : offset < 2) : ∃ spn ∈ f.spns.values, spn.getOffset = offset := by
  have hmap : f.spns.values.map SPN.getOffset = DM1.new.spns.values.map SPN.getOffset := by
    have hdefinition : ∀ l : List SPN,
        l.map SPN.getOffset = (l.map SPN.definition).map SPN.getOffset := by
      intro l
      rw [List.map_map]
      exact List.map_congr_left fun spn _ => by cases spn <;> rfl
    rw [hdefinition, h, ← hdefinition]
  have hmem : offset ∈ f.spns.values.map SPN.getOffset := by
    rw [hmap]
    obtain rfl | rfl : offset = 0 ∨ offset = 1 := by omega
    · decide
    · decide
  exact List.mem_map.mp hmem

/-- The lamp statuses take two bytes. -/
theorem DM1.HasLamps.getDataLength_eq {f : DM1} (h : f.HasLamps) :
    f.toGenericFrame.getDataLength = max f.length 2 := by
  obtain ⟨spn, hspn, hoffset⟩ := h.exists_getOffset (by decide : 1 < 2)
  obtain ⟨last, hlast, hmax, hlength⟩ := exists_lastSpn (List.ne_nil_of_mem hspn)
  have hle := hmax spn hspn
  obtain ⟨hlt, hone⟩ := h.getOffset_lt last hlast
  have hsize : last.getByteSize.toNat = 1 := by
    rw [hone]
    rfl
  omega

/-- The trouble codes begin behind the lamp statuses. -/
theorem DM1.HasLamps.two_le {f : DM1} (h : f.HasLamps) :
    2 ≤ f.toGenericFrame.getDataLength := by
  rw [h.getDataLength_eq]
  exact le_max_right _ _

/-- No trouble code of the payload has the conversion bit set. -/
def DM1.Accepts (f : DM1) (length : ℕ) (mem : Memory) : Prop :=
  ∀ o ∈ dtcOffsets f.toGenericFrame.getDataLength length, mem (o + 3) &&& dtcCmMask = 0

instance (f : DM1) (length : ℕ) (mem : Memory) : Decidable (f.Accepts length mem) :=
  inferInstanceAs (Decidable (∀ o ∈ DM1.dtcOffsets _ _, _))

/-- The lamp statuses fit into the length that they are decoded with. -/
theorem DM1.HasLamps.fits {f : DM1} (h : f.HasLamps) :
    ∀ spn ∈ f.spns.values, spn.Fits f.toGenericFrame.getDataLength := by
  intro spn hspn
  have htwo := h.two_le
  obtain ⟨hoffset, hsize⟩ := h.getOffset_lt spn hspn
  cases spn with
  | numeric n =>
    have hsize' : n.getByteSize = 1 := hsize
    have hoffset' : n.spec.offset < 2 := hoffset
    refine ⟨by omega, ?_⟩
    rw [hsize']
    change 1 ≤ _
    omega
  | status s => exact Nat.lt_of_lt_of_le hoffset htwo
  | string s => exact Nat.lt_of_lt_of_le hoffset htwo

theorem DM1.decodesWhen {f : DM1} (h : f.HasLamps) (length : ℕ) (mem : Memory) :
    DecodesWhen (decodeData length) f mem (f.Accepts length mem) := by
  have hlamps := GenericFrame.decodesWhen (Or.inr h.isString)
    f.toGenericFrame.getDataLength mem
  have hok := hlamps.ok_iff.mpr (by
    rw [GenericFrame.Accepts, if_pos h.isString]
    exact h.fits)
  obtain ⟨f', hrun, -⟩ := run_decodeData f length mem
  rw [hok] at hrun
  by_cases haccepts : f.Accepts length mem
  · exact Or.inl ⟨haccepts, f', hrun.trans (congrArg (·, f') (if_pos haccepts))⟩
  · exact Or.inr ⟨haccepts, .dtcConversionMethod, f',
      hrun.trans (congrArg (·, f') (if_neg haccepts)), rfl⟩

/-! ### Any frame -/

namespace Frame

/-- The frames that the library and its users build: uniform frames of the database, and
trouble code frames with the lamp statuses of their constructor. -/
def WellFormed : Frame → Prop
  | dm1 f => f.HasLamps
  | generic g => g.Uniform
  | _ => True

/-- The payloads that a frame decodes. -/
def Accepts (length : ℕ) (mem : Memory) : Frame → Prop
  | tpcm _ => length = tpCmSize ∧ TPCMFrame.KnownCtrl (mem 0)
  | tpdt _ => length = bamDtSize
  | fms1 _ => length = fms1FrameLength ∧ mem 0 &&& blockIdMask < numberOfBlocks
  | dm1 f => f.Accepts length mem
  | addressClaim _ => length = addressFrameLength
  | request _ => length = requestFrameLength
  | generic g => g.Accepts length mem

theorem decodesWhen_call {F : Type} {f : F} {wrap : F → Frame} {frame : Frame}
    {m : Method F J1939Exception Unit} {m' : Method Frame J1939Exception Unit} {mem : Memory}
    {accepted : Prop} (h : DecodesWhen m f mem accepted)
    (hcall : m' frame = call f wrap m) : DecodesWhen m' frame mem accepted := by
  rcases h with ⟨haccepted, f', hrun⟩ | ⟨hnot, e, f', hrun, hdecode⟩
  · refine .of_ok haccepted ?_
    rw [Method.run, hcall, value_call, hrun]
  · refine .of_error hnot ?_ hdecode
    rw [Method.run, hcall, value_call, hrun]

/-- A frame decodes the payloads it accepts and throws a `J1939DecodeException` on all
others. -/
theorem decodesWhen {frame : Frame} (h : frame.WellFormed) (length : ℕ) (mem : Memory) :
    DecodesWhen (decodeData length) frame mem (frame.Accepts length mem) := by
  cases frame with
  | tpcm f => exact decodesWhen_call (f.decodesWhen length mem) rfl
  | tpdt f => exact decodesWhen_call (f.decodesWhen length mem) rfl
  | fms1 f => exact decodesWhen_call (f.decodesWhen length mem) rfl
  | dm1 f => exact decodesWhen_call (DM1.decodesWhen h length mem) rfl
  | addressClaim f => exact decodesWhen_call (f.decodesWhen length mem) rfl
  | request f => exact decodesWhen_call (f.decodesWhen length mem) rfl
  | generic g => exact decodesWhen_call (GenericFrame.decodesWhen h length mem) rfl

/-- A received header changes neither the kind of a frame nor what it accepts. -/
theorem wellFormed_withHeader (frame : Frame) (h : Header) :
    (withHeader frame h).WellFormed ↔ frame.WellFormed := by
  cases frame <;> rfl

theorem accepts_withHeader (frame : Frame) (h : Header) (length : ℕ) (mem : Memory) :
    (withHeader frame h).Accepts length mem ↔ frame.Accepts length mem := by
  cases frame <;> rfl

/-- What `decode` does with a matching identifier. -/
theorem decodesWhen_decode {frame : Frame} (h : frame.WellFormed) {identifier : UInt32}
    (hmatch : lookupPgn identifier = getPGN frame) (length : ℕ) (mem : Memory) :
    DecodesWhen (decode identifier length) frame mem (frame.Accepts length mem) := by
  have hdata := decodesWhen ((wellFormed_withHeader frame
    (receivedHeader (header frame) identifier)).mpr h) length mem
  rw [accepts_withHeader] at hdata
  rw [DecodesWhen, run_decode_of_match hmatch]
  exact hdata

end Frame

namespace J1939Factory

/-- The factories that a program can build. -/
structure WellFormed (factory : J1939Factory) : Prop where
  keysMatch : factory.KeysMatch
  frames : ∀ pgn frame, factory.frames.find? pgn = some frame → frame.WellFormed

theorem WellFormed.registerFrame {factory : J1939Factory} (h : factory.WellFormed)
    {frame : Frame} (hframe : frame.WellFormed) : (factory.registerFrame frame).1.WellFormed := by
  refine ⟨registerFrame_keysMatch h.keysMatch frame, fun pgn f hf => ?_⟩
  unfold J1939Factory.registerFrame at hf
  split at hf
  · rw [SortedMap.find?_insert] at hf
    split_ifs at hf
    · cases hf
      exact hframe
    · exact h.frames pgn f hf
  · exact h.frames pgn f hf

theorem WellFormed.registerFrames {factory : J1939Factory} (h : factory.WellFormed)
    {frames : List Frame} (hframes : ∀ frame ∈ frames, frame.WellFormed) :
    (factory.registerFrames frames).WellFormed := by
  induction frames generalizing factory with
  | nil => exact h
  | cons frame frames ih =>
    rw [List.forall_mem_cons] at hframes
    exact ih (h.registerFrame hframes.1) hframes.2

theorem WellFormed.unRegisterFrame {factory : J1939Factory} (h : factory.WellFormed)
    (pgn : UInt32) : (factory.unRegisterFrame pgn).WellFormed := by
  refine ⟨unRegisterFrame_keysMatch h.keysMatch pgn, fun pgn' f hf => ?_⟩
  rw [J1939Factory.unRegisterFrame, SortedMap.find?_erase] at hf
  split_ifs at hf
  exact h.frames pgn' f hf

theorem wellFormed_new : new.WellFormed := by
  refine WellFormed.registerFrames ⟨fun _ _ h => (by cases h), fun _ _ h => (by cases h)⟩ ?_
  simp only [predefinedFrames, List.forall_mem_cons]
  refine ⟨trivial, trivial, trivial, ?_, trivial, trivial, by simp⟩
  exact (rfl : DM1.new.HasLamps)

/-- `getJ1939Frame` returns a frame, returns null or throws a `J1939DecodeException`. -/
theorem WellFormed.value_getJ1939Frame {factory : J1939Factory} (h : factory.WellFormed)
    (id : UInt32) (length : ℕ) (mem : Memory) :
    (factory.frames.find? (lookupPgn id) = none ∧
        (factory.getJ1939Frame id length).value mem = .ok none) ∨
      ∃ frame, factory.frames.find? (lookupPgn id) = some frame ∧
        lookupPgn id = getPGN frame ∧
        ((frame.Accepts length mem ∧ ∃ retFrame,
            (decode id length).run frame mem = (.ok (), retFrame) ∧
              (factory.getJ1939Frame id length).value mem = .ok (some retFrame)) ∨
          ¬frame.Accepts length mem ∧ ∃ e,
            (factory.getJ1939Frame id length).value mem = .error e ∧ e.isDecode = true) := by
  rw [J1939Factory.value_getJ1939Frame]
  cases hfind : factory.frames.find? (lookupPgn id) with
  | none => exact Or.inl ⟨rfl, rfl⟩
  | some frame =>
    have hmatch := (h.keysMatch _ _ hfind).symm
    refine Or.inr ⟨frame, rfl, hmatch, ?_⟩
    rcases Frame.decodesWhen_decode (h.frames _ _ hfind) hmatch length mem with
      ⟨haccepts, retFrame, hrun⟩ | ⟨hnot, e, retFrame, hrun, hdecode⟩
    · exact Or.inl ⟨haccepts, retFrame, hrun, by simp only [hrun]⟩
    · exact Or.inr ⟨hnot, e, by simp only [hrun], hdecode⟩

end J1939Factory

end J1939
