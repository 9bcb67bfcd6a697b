import J1939.PayloadReads

/-!
# Payloads of encoded frames

A payload that a frame has encoded is one that a frame of the same type accepts, up to
SPNs that overlap and strings that do not survive.
-/

namespace J1939

open Buffer

/-! ### Frames of the same type -/

/-- What the database says about an SPN: everything but its value and, for a string, its
offset. -/
def SPN.typeOf : SPN → SPN
  | numeric n => numeric { n with value := 0 }
  | status s => status { s with value := 0 }
  | string s => string { spec := s.spec }

theorem SPN.isString_typeOf (spn : SPN) : spn.typeOf.isString = spn.isString := by
  cases spn <;> rfl

theorem SPN.spec_typeOf (spn : SPN) : spn.typeOf.spec = spn.spec := by cases spn <;> rfl

theorem SPN.definition_eq_of_typeOf {a b : SPN} (h : a.typeOf = b.typeOf)
    (hfixed : b.isString = false) : a.definition = b.definition := by
  have ha : a.isString = false := by rw [← a.isString_typeOf, h, b.isString_typeOf, hfixed]
  cases a with
  | numeric n => cases b <;> first | exact h | cases hfixed
  | status s => cases b <;> first | exact h | cases hfixed
  | string s => cases ha

/-- Two frames have SPNs of the same types under the same numbers, from the same offset
on. -/
structure SameSpns (f g : GenericFrame) : Prop where
  types : g.spns.entries.map (fun e => (e.1, e.2.typeOf)) =
    f.spns.entries.map fun e => (e.1, e.2.typeOf)
  firstOffset : firstOffset g.spns.values = firstOffset f.spns.values

/-- What follows from the type of an SPN is the same in both frames. -/
theorem SameSpns.map_eq {f g : GenericFrame} (h : SameSpns f g) {α : Type} (φ : SPN → α)
    (hφ : ∀ e ∈ f.spns.entries, ∀ spn : SPN, spn.typeOf = e.2.typeOf → φ spn = φ e.2) :
    g.spns.entries.map (fun e => (e.1, φ e.2)) = f.spns.entries.map fun e => (e.1, φ e.2) := by
  have htypes := h.types
  revert htypes hφ
  generalize g.spns.entries = gs
  generalize f.spns.entries = fs
  intro hφ htypes
  induction gs generalizing fs with
  | nil =>
    obtain _ | ⟨e, fs⟩ := fs
    · rfl
    · cases htypes
  | cons d gs ih =>
    obtain _ | ⟨e, fs⟩ := fs
    · cases htypes
    rw [List.map_cons, List.map_cons, List.cons.injEq, Prod.mk.injEq] at htypes
    rw [List.forall_mem_cons] at hφ
    rw [List.map_cons, List.map_cons, ih fs hφ.2 htypes.2, htypes.1.1, hφ.1 _ htypes.1.2]

theorem SameSpns.isString_iff {f g : GenericFrame} (h : SameSpns f g) (b : Bool) :
    (∀ spn ∈ g.spns.values, spn.isString = b) ↔ ∀ spn ∈ f.spns.values, spn.isString = b := by
  have hkinds := congrArg (List.map Prod.snd) (h.map_eq SPN.isString fun e _ spn htype => by
    rw [← spn.isString_typeOf, htype, SPN.isString_typeOf])
  simp only [List.map_map, Function.comp_def] at hkinds
  have hall : ∀ k : GenericFrame, (∀ spn ∈ k.spns.values, spn.isString = b) ↔
      ∀ x ∈ k.spns.entries.map (fun e => e.2.isString), x = b := by
    intro k
    rw [SortedMap.values, List.forall_mem_map, List.forall_mem_map]
  rw [hall, hall, hkinds]

theorem SameSpns.sameDefinitions {f g : GenericFrame} (h : SameSpns f g)
    (hfixed : ∀ spn ∈ f.spns.values, spn.isString = false) : SameDefinitions f g :=
  h.map_eq SPN.definition fun e he _ htype =>
    SPN.definition_eq_of_typeOf htype (hfixed e.2 (List.mem_map_of_mem he))

theorem SameSpns.sameStrings {f g : GenericFrame} (h : SameSpns f g)
    (hstring : ∀ spn ∈ f.spns.values, spn.isString = true) : SameStrings f g where
  specs := h.map_eq SPN.spec fun e _ spn htype => by
    rw [← spn.spec_typeOf, htype, SPN.spec_typeOf]
  isString := (h.isString_iff true).mpr hstring
  firstOffset := h.firstOffset

/-- A fresh frame of the same type: the same class, and the same SPNs where the class has
any. -/
def Frame.SameType : Frame → Frame → Prop
  | tpcm _, tpcm _ => True
  | tpdt _, tpdt _ => True
  | fms1 _, fms1 _ => True
  | dm1 f, dm1 g => g.pgn = f.pgn ∧ SameSpns f.toGenericFrame g.toGenericFrame ∧
      g.length ≤ f.length
  | addressClaim _, addressClaim _ => True
  | request _, request _ => True
  | generic f, generic g => g.pgn = f.pgn ∧ SameSpns f g
  | _, _ => False

theorem Frame.SameType.getPGN_eq {f g : Frame} (h : f.SameType g) : getPGN g = getPGN f := by
  cases f <;> cases g <;> first | rfl | exact h.1 | cases h

/-- The frames that the library and its users build and fill with values. -/
def Frame.Built : Frame → Prop
  | fms1 f => f.blockID < numberOfBlocks ∨ f.ttss = ∅
  | dm1 f => f.HasLamps
  | generic f => StringFrame f ∨ ∀ spn ∈ f.spns.values, spn.isString = false
  | _ => True

theorem DM1.HasLamps.of_sameSpns {f g : DM1} (h : f.HasLamps)
    (hsame : SameSpns f.toGenericFrame g.toGenericFrame) : g.HasLamps := by
  rw [DM1.HasLamps, (hsame.sameDefinitions h.isString).values]
  exact h

theorem Frame.Built.wellFormed {f g : Frame} (h : f.Built) (hsame : f.SameType g) :
    g.WellFormed := by
  cases f with
  | dm1 f =>
    cases g with
    | dm1 g => exact DM1.HasLamps.of_sameSpns h hsame.2.1
    | _ => cases hsame
  | generic f =>
    cases g with
    | generic g =>
      rcases h with hstrings | hfixed
      · exact Or.inl ((hsame.2.isString_iff true).mpr hstrings.isString)
      · exact Or.inr ((hsame.2.isString_iff false).mpr hfixed)
    | _ => cases hsame
  | _ => cases g <;> trivial

/-! ### What encoding leaves in the payload -/

/-- The bytes that are sent, followed by what lies behind them in memory. -/
def Encoded.payload (e : Encoded) (beyond : Memory) : Memory :=
  Memory.ofList (e.buffer.take e.length) beyond

theorem Encoded.payload_apply {e : Encoded} (hle : e.length ≤ e.buffer.length) {i : ℕ}
    (hi : i < e.length) (beyond : Memory) : e.payload beyond i = e.buffer.getD i 0 := by
  have hi' : i < (e.buffer.take e.length).length := by
    rw [List.length_take]
    omega
  rw [payload, Memory.ofList_of_lt hi', List.getElem_take, List.getD_eq_getElem]

theorem TPCMFrame.knownCtrl_of_encodeData {f : TPCMFrame} {buffer out : List UInt8}
    (hlength : tpCmSize ≤ buffer.length) (h : f.encodeData buffer = .ok out) :
    KnownCtrl (out.getD 0 0) := by
  have hlength' : 8 ≤ buffer.length := hlength
  unfold encodeData at h
  cases hctrl : f.encodeCtrl with
  | error e =>
    rw [hctrl] at h
    cases h
  | ok ctrl =>
    rw [hctrl] at h
    cases h
    rw [getD_writeBytes_of_lt (by decide), getD_writeBytes_of_lt (by decide),
      List.getD_eq_getElem _ _ (by simp; omega), List.getElem_set_self]
    unfold encodeCtrl at hctrl
    unfold KnownCtrl
    split_ifs at hctrl <;> simp only [*, true_or, or_true]

/-- The high part of the first byte is dropped with the mask of the block. -/
theorem FMS1Frame.and_blockIdMask (blockID status : UInt8) :
    ((blockID &&& blockIdMask) ||| (status <<< ttsHighPartShift)) &&& blockIdMask =
      blockID &&& blockIdMask := by
  apply byte_ext
  intro k hk
  have hmask : blockIdMask.toNat.testBit k = decide (k < 4) := Nat.testBit_two_pow_sub_one 4 k
  have hshift : (status <<< ttsHighPartShift).toNat.testBit k =
      (decide (4 ≤ k) && status.toNat.testBit (k - 4)) := testBit_shiftLeft status 4 (by decide) hk
  simp only [UInt8.toNat_and, UInt8.toNat_or, Nat.testBit_and, Nat.testBit_or, hmask, hshift]
  by_cases hk4 : k < 4 <;> simp [hk4]

/-- The low part of the first byte is the number of the block. -/
theorem FMS1Frame.blockID_of_encodeData {f : FMS1Frame}
    (hblock : f.blockID < numberOfBlocks ∨ f.ttss = ∅) {buffer out : List UInt8}
    (hlength : fms1FrameLength ≤ buffer.length) (h : f.encodeData buffer = .ok out) :
    out.getD 0 0 &&& blockIdMask < numberOfBlocks := by
  have hlength' : 8 ≤ buffer.length := hlength
  obtain ⟨hsize, tts1, bytes, rfl⟩ := encodeData_eq_ok h
  have hlt : f.blockID < numberOfBlocks := by
    refine hblock.resolve_right fun hempty => ?_
    rw [hempty] at hsize
    exact absurd hsize (by decide)
  rw [writeBytes, getD_writeBytes_of_lt (by decide),
    List.getD_eq_getElem _ _ (by simp; omega), List.getElem_set_self, and_blockIdMask]
  refine lt_of_le_of_lt (UInt8.le_iff_toNat_le.mpr ?_) hlt
  rw [UInt8.toNat_and]
  exact Nat.and_le_left

theorem DTC.getD_flatMap_encode (dtcs : List DTC) (k : ℕ) :
    (dtcs.flatMap encode).getD (4 * k + 3) 0 &&& dtcCmMask = 0 := by
  induction dtcs generalizing k with
  | nil =>
    rw [List.flatMap_nil, List.getD_nil]
    exact UInt8.zero_and
  | cons d dtcs ih =>
    cases k with
    | zero =>
      have hbyte : ((d :: dtcs).flatMap encode).getD (4 * 0 + 3) 0 =
          (d.oc &&& dtcOcMask) &&& ~~~dtcCmMask := rfl
      rw [hbyte, UInt8.and_assoc]
      exact UInt8.and_zero
    | succ k => exact ih k

/-- No encoded trouble code has the conversion bit set. -/
theorem DM1.conversion_of_encodeData {f : DM1} {buffer out : List UInt8}
    (hlength : f.getDataLength ≤ buffer.length) (h : f.encodeData buffer = .ok out) :
    f.toGenericFrame.getDataLength = 2 ∧
      ∀ o ∈ dtcOffsets 2 f.getDataLength, out.getD (o + 3) 0 &&& dtcCmMask = 0 := by
  obtain ⟨htwo, lamps, hlamps, rfl⟩ := encodeData_eq_ok h
  refine ⟨htwo, fun o ho => ?_⟩
  split_ifs with hdtcs
  · have hsize : f.getDataLength = 8 := by
      rw [getDataLength, htwo, hdtcs]
      rfl
    rw [hsize] at ho hlength
    obtain rfl : o = 2 := by simpa [dtcOffsets] using ho
    rw [getD_writeBytes _ _ _ (by simp; omega), if_pos (by simp)]
    rfl
  · have hpos : 0 < f.dtcs.length := List.length_pos_iff.mpr hdtcs
    have hsize : f.getDataLength = max (2 + 4 * f.dtcs.length) 8 := by
      rw [getDataLength, htwo]
      rfl
    have hbytes := length_flatMap_encode f.dtcs
    obtain ⟨k, hk, rfl⟩ := List.mem_map.mp ho
    rw [List.mem_range, hsize] at hk
    simp only [dtcSize] at hk ⊢
    rw [getD_writeBytes _ _ _ (by rw [hbytes]; omega), if_pos (by rw [hbytes]; omega)]
    have hindex : 2 + 4 * k + 3 - 2 = 4 * k + 3 := by omega
    rw [hindex]
    exact DTC.getD_flatMap_encode f.dtcs k

/-! ### What the payload decodes to -/

/-- From the strings of a frame, laid out in a buffer of the given length and cut where
the payload ends, as many strings can be read as the frame has. -/
def GenericFrame.StringsReadable (f : GenericFrame) (length : ℕ) : Prop :=
  ∃ out, encodeStrings length (List.replicate length 0xFF) (firstOffset f.spns.values)
      (f.spns.values.map SPN.text) = some out ∧
    parseStrings (Memory.ofList (out.take f.getDataLength) fun _ => 0) f.getDataLength
      (firstOffset f.spns.values) f.spns.values.length ≠ none

/-- The frames whose payload, encoded in a buffer of the given length, a frame of the same
type accepts. The SPNs of a frame of fixed layout have to end within `getDataLength`,
which may be too small when they overlap. -/
def Frame.Readable (length : ℕ) : Frame → Prop
  | generic f =>
    if ∀ spn ∈ f.spns.values, spn.isString = false then
      ∀ spn ∈ f.spns.values, spn.Fits f.getDataLength
    else f.StringsReadable length
  | _ => True

theorem GenericFrame.accepts_of_fixed {f g : GenericFrame} (hsame : SameSpns f g)
    (hfixed : ∀ spn ∈ f.spns.values, spn.isString = false) (length : ℕ) (mem : Memory) :
    g.Accepts length mem ↔ ∀ spn ∈ f.spns.values, spn.Fits length := by
  rw [Accepts, if_pos ((hsame.isString_iff false).mpr hfixed)]
  have hvalues := (hsame.sameDefinitions hfixed).values
  have hall : ∀ l : List SPN, (∀ spn ∈ l, spn.Fits length) ↔
      ∀ d ∈ l.map SPN.definition, d.Fits length := by
    intro l
    rw [List.forall_mem_map]
    simp only [fits_definition]
  rw [hall, hvalues, ← hall]

theorem GenericFrame.accepts_of_strings {f g : GenericFrame} (hsame : SameSpns f g)
    (hmixed : ¬∀ spn ∈ f.spns.values, spn.isString = false) (hf : StringFrame f) (length : ℕ)
    (mem : Memory) :
    g.Accepts length mem ↔ parseStrings mem length (J1939.firstOffset f.spns.values)
      f.spns.values.length ≠ none := by
  rw [Accepts, if_neg (mt (hsame.isString_iff false).mp hmixed), hsame.firstOffset,
    (hsame.sameStrings hf.isString).length_values]

/-- The trouble codes of an encoded payload are accepted. -/
theorem DM1.accepts_payload {f g : DM1} (hf : f.HasLamps) (hsame : (Frame.dm1 f).SameType (.dm1 g))
    {length : ℕ} {e : Encoded} (hencode : encode (Frame.dm1 f) length = .ok e) (beyond : Memory) :
    g.Accepts (J1939.getDataLength (Frame.dm1 f)) (e.payload beyond) := by
  obtain ⟨-, hle, hdata, -, hlength⟩ := encode_eq_ok_iff.mp hencode
  have hbuffer := length_encode hencode
  have hlong : J1939.getDataLength (Frame.dm1 f) ≤
      (List.replicate length (0xFF : UInt8)).length := by
    rw [List.length_replicate]
    exact hle
  obtain ⟨htwo, hconversion⟩ := DM1.conversion_of_encodeData hlong hdata
  have hlamps : g.toGenericFrame.getDataLength = 2 := by
    have hlengths : g.length ≤ f.length := hsame.2.2
    have hf2 : f.length ≤ 2 := by
      rw [← htwo]
      exact le_max_left _ _
    rw [(DM1.HasLamps.of_sameSpns hf hsame.2.1).getDataLength_eq]
    omega
  rw [DM1.Accepts, hlamps]
  intro o ho
  have hend := DM1.add_dtcSize_le ho
  simp only [dtcSize] at hend
  rw [Encoded.payload_apply (by omega) (by omega) beyond]
  exact hconversion o ho

/-- The SPNs of an encoded payload are accepted when they are readable. -/
theorem GenericFrame.accepts_payload_iff {f g : GenericFrame} (hf : (Frame.generic f).Built)
    (hsame : (Frame.generic f).SameType (.generic g)) {length : ℕ} {e : Encoded}
    (hencode : encode (Frame.generic f) length = .ok e) (beyond : Memory) :
    g.Accepts f.getDataLength (e.payload beyond) ↔ (Frame.generic f).Readable length := by
  obtain ⟨-, hle, hdata, -, hlength⟩ := encode_eq_ok_iff.mp hencode
  have hbuffer := length_encode hencode
  rw [Frame.Readable]
  by_cases hfixed : ∀ spn ∈ f.spns.values, spn.isString = false
  · rw [if_pos hfixed]
    exact GenericFrame.accepts_of_fixed hsame.2 hfixed _ _
  · rw [if_neg hfixed]
    have hstrings : StringFrame f := hf.resolve_right hfixed
    rw [GenericFrame.accepts_of_strings hsame.2 hfixed hstrings]
    have hout : encodeStrings length (List.replicate length 0xFF)
        (J1939.firstOffset f.spns.values) (f.spns.values.map SPN.text) = some e.buffer := by
      have hspns : encodeSpns (List.replicate length (0xFF : UInt8)).length
        (List.replicate length 0xFF) f.spns.values = .ok e.buffer := hdata
      rw [List.length_replicate] at hspns
      rw [← encodeSpns_settled hstrings.settled, hspns]
      rfl
    have hcut : f.getDataLength ≤ e.buffer.length := by
      rw [hbuffer]
      exact hle
    have hcongr : ∀ i < f.getDataLength, e.payload beyond i =
        Memory.ofList (e.buffer.take f.getDataLength) (fun _ => 0) i := by
      intro i hi
      have hlengths : e.length = f.getDataLength := hlength
      have hi' : i < (e.buffer.take f.getDataLength).length := by
        rw [List.length_take]
        omega
      rw [Encoded.payload, hlengths, Memory.ofList_of_lt hi', Memory.ofList_of_lt hi']
    rw [parseStrings_congr hcongr]
    constructor
    · intro hparse
      exact ⟨e.buffer, hout, hparse⟩
    · rintro ⟨out, hout', hparse⟩
      rw [hout, Option.some.injEq] at hout'
      subst hout'
      exact hparse

/-- A payload that a frame encoded is accepted by a frame of the same type exactly when
the frame is readable. -/
theorem Frame.accepts_payload_iff {f g : Frame} (hf : f.Built) (hsame : f.SameType g)
    {length : ℕ} {e : Encoded} (hencode : encode f length = .ok e) (beyond : Memory) :
    g.Accepts e.length (e.payload beyond) ↔ f.Readable length := by
  obtain ⟨-, hle, hdata, -, hlength⟩ := encode_eq_ok_iff.mp hencode
  have hbuffer := length_encode hencode
  have hbyte : ∀ i < getDataLength f, e.payload beyond i = e.buffer.getD i 0 :=
    fun i hi => Encoded.payload_apply (by omega) (by omega) beyond
  have hlong : getDataLength f ≤ (List.replicate length (0xFF : UInt8)).length := by
    rw [List.length_replicate]
    exact hle
  rw [hlength]
  cases f with
  | tpcm f =>
    cases g with
    | tpcm g =>
      refine iff_of_true ⟨rfl, ?_⟩ trivial
      rw [hbyte 0 (Nat.zero_lt_succ 7)]
      exact TPCMFrame.knownCtrl_of_encodeData hlong hdata
    | _ => cases hsame
  | fms1 f =>
    cases g with
    | fms1 g =>
      refine iff_of_true ⟨rfl, ?_⟩ trivial
      rw [hbyte 0 (Nat.zero_lt_succ 7)]
      exact FMS1Frame.blockID_of_encodeData hf hlong hdata
    | _ => cases hsame
  | dm1 f =>
    cases g with
    | dm1 g =>
      exact iff_of_true (DM1.accepts_payload hf hsame hencode beyond) trivial
    | _ => cases hsame
  | generic f =>
    cases g with
    | generic g =>
      exact GenericFrame.accepts_payload_iff hf hsame hencode beyond
    | _ => cases hsame
  | tpdt f => cases g <;> first | exact iff_of_true rfl trivial | cases hsame
  | addressClaim f => cases g <;> first | exact iff_of_true rfl trivial | cases hsame
  | request f => cases g <;> first | exact iff_of_true rfl trivial | cases hsame

end J1939
