import J1939.Acceptance
import J1939.FrameOperations

/-!
# Trouble codes on the wire

A trouble code of at most 19 + 5 + 7 bits is restored from its four bytes, and a `DM1` frame from
its payload. Decoding appends to the trouble codes that the frame already has.
-/

namespace J1939

namespace DTC

/-- The trouble code has a fault, and its fields have room on the wire. -/
structure Encodable (d : DTC) : Prop where
  spn_pos : 0 < d.spn.toNat
  spn_lt : d.spn.toNat < 2 ^ 19
  fmi_lt : d.fmi.toNat < 2 ^ 5
  oc_lt : d.oc.toNat < 2 ^ 7

/-- The trouble code in four bytes. -/
def read (mem : Memory) : DTC where
  spn := ((mem 0).toUInt32 ||| ((mem 1).toUInt32 <<< 8)) |||
    ((mem 2 &&& ~~~dtcFmiMask).toUInt32 <<< 11)
  fmi := mem 2 &&& dtcFmiMask
  oc := mem 3 &&& dtcOcMask

theorem run_decode (d : DTC) (mem : Memory) : decode.run d mem =
    if mem 3 &&& dtcCmMask ≠ 0 then (.error .dtcConversionMethod, d) else (.ok (), read mem) := by
  rw [DM1.run_decodeDtc]
  split_ifs with hcm
  · rfl
  · refine Prod.ext rfl ?_
    simp only [decode, Method.run_byte_bind, Method.run_throwIf_bind, Method.run_modify_bind,
      Method.run_modify, if_neg hcm]
    rfl

/-- The third byte holds three bits of the SPN above the failure mode. -/
theorem toNat_thirdByte (d : DTC) :
    (((d.spn >>> 11).toUInt8 &&& ~~~dtcFmiMask) ||| (d.fmi &&& dtcFmiMask)).toNat =
      d.spn.toNat / 2 ^ 16 % 2 ^ 3 * 2 ^ 5 + d.fmi.toNat % 2 ^ 5 := by
  have hspn : (((d.spn >>> 11).toUInt8).toUInt32 &&& 0xE0).toNat =
      d.spn.toNat / 2 ^ 16 % 2 ^ 3 * 2 ^ 5 := by
    rw [Bits.toNat_inPlace _ 0xE0 (show (0xE0 : UInt32).toNat = (2 ^ 3 - 1) * 2 ^ 5 from rfl),
      UInt8.toNat_toUInt32, UInt32.toNat_toUInt8, UInt32.toNat_shiftRight]
    change d.spn.toNat >>> 11 % 256 / 2 ^ 5 % 2 ^ 3 * 2 ^ 5 = _
    rw [Nat.shiftRight_eq_div_pow]
    omega
  have hfmi : (d.fmi.toUInt32 &&& 0x1F).toNat = d.fmi.toNat % 2 ^ 5 :=
    Bits.toNat_low _ 0x1F rfl
  have hword : (((d.spn >>> 11).toUInt8 &&& ~~~dtcFmiMask) ||| (d.fmi &&& dtcFmiMask)).toUInt32 =
      (((d.spn >>> 11).toUInt8).toUInt32 &&& 0xE0) ||| (d.fmi.toUInt32 &&& 0x1F) := by
    rw [UInt8.toUInt32_or, UInt8.toUInt32_and, UInt8.toUInt32_and]
    rfl
  have hsum := congrArg UInt32.toNat hword
  rw [Bits.toNat_or_low _ _ (by rw [hspn]; exact Nat.mul_mod_left _ (2 ^ 5))
    (by rw [hfmi]; exact Nat.mod_lt _ (by decide)), hspn, hfmi] at hsum
  exact hsum

/-- Reading back the bytes of a trouble code. -/
theorem read_encode {d : DTC} (h : d.Encodable) {mem : Memory}
    (hmem : ∀ i < 4, mem i = d.encode.getD i 0) : mem 3 &&& dtcCmMask = 0 ∧ read mem = d := by
  have h0 : mem 0 = (d.spn &&& 0xFF).toUInt8 := hmem 0 (by decide)
  have h1 : mem 1 = ((d.spn >>> 8) &&& 0xFF).toUInt8 := hmem 1 (by decide)
  have h2 : mem 2 = ((d.spn >>> 11).toUInt8 &&& ~~~dtcFmiMask) ||| (d.fmi &&& dtcFmiMask) :=
    hmem 2 (by decide)
  have h3 : mem 3 = (d.oc &&& dtcOcMask) &&& ~~~dtcCmMask := hmem 3 (by decide)
  obtain ⟨-, hspn, hfmi, hoc⟩ := h
  have hthird := d.toNat_thirdByte
  rw [← h2] at hthird
  have hocMask : d.oc &&& dtcOcMask = d.oc := (@Bits.and_lowByte_eq_iff _ _ 7 rfl).mpr hoc
  have hfourth : mem 3 = d.oc := by
    rw [h3, hocMask]
    exact hocMask
  refine ⟨?_, ?_⟩
  · rw [hfourth, ← hocMask, UInt8.and_assoc]
    exact UInt8.and_zero
  have hlow : (((d.spn &&& 0xFF).toUInt8).toUInt32 |||
      ((((d.spn >>> 8) &&& 0xFF).toUInt8).toUInt32 <<< 8)).toNat = d.spn.toNat % 2 ^ 16 := by
    have hfirst : ((d.spn &&& 0xFF).toUInt8).toUInt32.toNat = d.spn.toNat % 2 ^ 8 := by
      rw [UInt8.toNat_toUInt32, UInt32.toNat_toUInt8, Bits.toNat_low d.spn 0xFF (w := 8) rfl,
        Nat.mod_mod]
    have hsecond : (((d.spn >>> 8) &&& 0xFF).toUInt8).toUInt32.toNat =
        d.spn.toNat / 2 ^ 8 % 2 ^ 8 := Bits.toNat_byte d.spn 8 (by decide)
    rw [Bits.toNat_or_shiftLeft _ _ 8 (by decide) (by rw [hfirst]; exact Nat.mod_lt _ (by decide))
      (by rw [hsecond]; change _ * 2 ^ 8 < _; omega), hfirst, hsecond]
    change _ + _ * 2 ^ 8 = _
    omega
  have hhigh : ((mem 2 &&& ~~~dtcFmiMask).toUInt32 <<< 11).toNat =
      d.spn.toNat / 2 ^ 16 * 2 ^ 16 := by
    have hfield : ((mem 2).toUInt32 &&& 0xE0).toNat = d.spn.toNat / 2 ^ 16 * 2 ^ 5 := by
      rw [Bits.toNat_inPlace _ 0xE0 (show (0xE0 : UInt32).toNat = (2 ^ 3 - 1) * 2 ^ 5 from rfl),
        UInt8.toNat_toUInt32, hthird]
      omega
    rw [UInt8.toUInt32_and, UInt32.toNat_shiftLeft]
    change ((mem 2).toUInt32 &&& 0xE0).toNat <<< 11 % 2 ^ 32 = _
    rw [hfield, Nat.shiftLeft_eq]
    omega
  have hspnEq : (read mem).spn = d.spn := by
    apply UInt32.toNat_inj.mp
    rw [read, h0, h1, UInt32.or_comm, Bits.toNat_or_low _ _
      (by rw [hhigh]; exact Nat.mul_mod_left _ (2 ^ 16))
      (by rw [hlow]; exact Nat.mod_lt _ (by decide)), hhigh, hlow]
    omega
  have hfmiEq : (read mem).fmi = d.fmi := by
    apply UInt8.toNat_inj.mp
    rw [read, @Bits.toNat_lowByte _ _ 5 rfl, hthird]
    omega
  have hocEq : (read mem).oc = d.oc := by
    rw [read, hfourth]
    exact hocMask
  cases d
  cases hread : read mem
  rw [hread] at hspnEq hfmiEq hocEq
  simp only at hspnEq hfmiEq hocEq
  rw [hspnEq, hfmiEq, hocEq]

end DTC

namespace DM1

/-! ### Decoding -/

/-- The trouble codes at the offsets, without those that say that there are no faults. -/
def readDtcs (offsets : List ℕ) (mem : Memory) : List DTC :=
  (offsets.map fun o => DTC.read fun i => mem (o + i)).filter fun d => d.spn ≠ 0

theorem run_forEach_of_accepted {offsets : List ℕ} {mem : Memory}
    (h : ∀ o ∈ offsets, mem (o + 3) &&& dtcCmMask = 0) (f : DM1) (d : DTC) :
    ∃ d', (Method.forEach offsets decodeDtcAt).run (f, d) mem =
      (.ok (), ({ f with dtcs := f.dtcs ++ readDtcs offsets mem }, d')) := by
  induction offsets generalizing f d with
  | nil => exact ⟨d, by simp [Method.forEach, readDtcs]⟩
  | cons o offsets ih =>
    rw [List.forall_mem_cons] at h
    set code := DTC.read fun i => mem (o + i) with hcode
    have hfirst : (Method.advance o (Method.onPart Prod.snd (fun s dtc => (s.1, dtc))
        DTC.decode)).run (f, d) mem = (.ok (), (f, code)) := by
      rw [Method.run_advance, Method.run_onPart, DTC.run_decode, if_neg (not_not.mpr h.1)]
    have hstep : (decodeDtcAt o).run (f, d) mem = (.ok (), (f.pushDtc code, code)) :=
      Method.run_bind_of_ok hfirst
    obtain ⟨d', hrest⟩ := ih h.2 (f.pushDtc code) code
    refine ⟨d', ?_⟩
    rw [Method.forEach, Method.run_bind_of_ok hstep, hrest, pushDtc]
    by_cases hspn : code.spn = 0
    · rw [if_neg (not_not.mpr hspn)]
      simp [readDtcs, ← hcode, hspn]
    · rw [if_pos hspn]
      simp [readDtcs, ← hcode, hspn]

/-- An accepted payload gives the lamp statuses their values, and its trouble codes come behind
those that are there. -/
theorem run_decodeData_of_accepts {f : DM1} (h : f.HasLamps) {length : ℕ} {mem : Memory}
    (haccepts : f.Accepts length mem) : (decodeData length).run f mem =
      (.ok (), { f with
        spns := f.spns.setValues (f.spns.values.map (SPN.decoded mem))
        dtcs := f.dtcs ++ readDtcs (dtcOffsets f.toGenericFrame.getDataLength length) mem }) := by
  rw [decodeData, Method.run_get_bind, Method.run_bind, Method.run_onPart,
    run_decodeData_fixed h.isString h.fits mem]
  obtain ⟨d', hrun⟩ := run_forEach_of_accepted haccepts
    { f with spns := f.spns.setValues (f.spns.values.map (SPN.decoded mem)) } {}
  simp only [Method.run_onPart]
  rw [hrun]

/-- The trouble codes after a successful decoding. -/
theorem dtcs_of_decode {f f' : DM1} (h : f.HasLamps) {identifier : UInt32} {length : ℕ}
    {mem : Memory} (hrun : (decode identifier length).run f mem = (.ok (), f')) :
    lookupPgn identifier = getPGN f ∧ f.Accepts length mem ∧
      f'.dtcs = f.dtcs ++ readDtcs (dtcOffsets f.toGenericFrame.getDataLength length) mem := by
  obtain ⟨hmatch, -, -⟩ := header_decode hrun
  rw [run_decode_of_match hmatch] at hrun
  set g : DM1 := withHeader f (receivedHeader (header f) identifier) with hg
  have hlamps : g.HasLamps := h
  have haccepts : g.Accepts length mem := by
    rcases decodesWhen hlamps length mem with ⟨haccepts, -⟩ | ⟨-, e, s', herror, -⟩
    · exact haccepts
    · change (decodeData length).run g mem = _ at hrun
      rw [herror] at hrun
      cases hrun
  have hdata := run_decodeData_of_accepts hlamps haccepts
  change (decodeData length).run g mem = _ at hrun
  rw [hdata] at hrun
  cases hrun
  exact ⟨hmatch, haccepts, rfl⟩

/-! ### The life of a frame -/

/-- `DM1::addDTC`. -/
def addDTC (f : DM1) (dtc : DTC) : DM1 := { f with dtcs := f.dtcs ++ [dtc] }

/-- `DM1::deleteDTC`. -/
def deleteDTC (f : DM1) (pos : ℕ) : DM1 × Bool :=
  if pos ≥ f.dtcs.length then (f, false) else ({ f with dtcs := f.dtcs.eraseIdx pos }, true)

/-- `DM1::setDTC`. -/
def setDTC (f : DM1) (pos : ℕ) (dtc : DTC) : DM1 × Bool :=
  if pos ≥ f.dtcs.length then (f, false) else ({ f with dtcs := f.dtcs.set pos dtc }, true)

/-- `SPNStatus::setValue` on a lamp status. -/
def setLamp (f : DM1) (number : UInt32) (value : UInt8) : DM1 :=
  { f with toGenericFrame := f.toGenericFrame.setStatusValue number value }

/-- The frames that the constructor, the setters and `decode` make, whether it throws or not. The
setters of the header keep the priority within three bits. -/
inductive Reachable : DM1 → Prop
  | new : Reachable new
  | setHeader {f : DM1} (h : Reachable f) (header : Header) (hprio : header.priority ≤ 7) :
    Reachable (withHeader f header)
  | setLamp {f : DM1} (h : Reachable f) (number : UInt32) (value : UInt8) :
    Reachable (f.setLamp number value)
  | addDTC {f : DM1} (h : Reachable f) (dtc : DTC) : Reachable (f.addDTC dtc)
  | deleteDTC {f : DM1} (h : Reachable f) (pos : ℕ) : Reachable (f.deleteDTC pos).1
  | setDTC {f : DM1} (h : Reachable f) (pos : ℕ) (dtc : DTC) : Reachable (f.setDTC pos dtc).1
  | decode {f : DM1} (h : Reachable f) (identifier : UInt32) (length : ℕ) (mem : Memory) :
    Reachable ((J1939.decode identifier length).run f mem).2

/-- A frame with the lamp statuses of the constructor, all with values in range. -/
structure LampFrame (f : DM1) : Prop where
  sameDefinitions : SameDefinitions new.toGenericFrame f.toGenericFrame
  values : ∀ spn ∈ f.spns.values, spn.ValueFits
  length : f.length = 0
  pgn : f.pgn = dm1Pgn
  priority : getPriority f ≤ 7

variable {f : DM1}

theorem LampFrame.hasLamps (h : f.LampFrame) : f.HasLamps := h.sameDefinitions.values

theorem LampFrame.getDataLength_lamps (h : f.LampFrame) : f.toGenericFrame.getDataLength = 2 := by
  rw [h.hasLamps.getDataLength_eq, h.length]
  rfl

/-- Decoding sets the lamp statuses, and touches the trouble codes only, whether it throws or
not. -/
theorem snd_run_decodeData (h : f.HasLamps) (length : ℕ) (mem : Memory) :
    ((decodeData length).run f mem).2.toGenericFrame =
      { f.toGenericFrame with
        spns := f.spns.setValues (f.spns.values.map (SPN.decoded mem)) } := by
  rw [decodeData, Method.run_get_bind, Method.run_bind, Method.run_onPart,
    run_decodeData_fixed h.isString h.fits mem]
  obtain ⟨f', d', hrun, hbase⟩ := run_forEach_decodeDtcAt
    (dtcOffsets f.toGenericFrame.getDataLength length)
    { f with spns := f.spns.setValues (f.spns.values.map (SPN.decoded mem)) } {} mem
  simp only [Method.run_onPart]
  rw [hrun]
  exact hbase

theorem LampFrame.decodeData (h : f.LampFrame) (length : ℕ) (mem : Memory) :
    ((DM1.decodeData length).run f mem).2.LampFrame := by
  have hbase := snd_run_decodeData h.hasLamps length mem
  have hvalues : ∀ spn ∈ f.spns.values.map (SPN.decoded mem), spn.ValueFits := by
    intro spn hspn
    obtain ⟨spn', hspn', rfl⟩ := List.mem_map.mp hspn
    exact valueFits_decoded (h.hasLamps.isString spn' hspn') mem
  refine ⟨?_, ?_, ?_, ?_, ?_⟩
  · rw [hbase]
    exact h.sameDefinitions.map fun spn _ => definition_decoded spn mem
  · rw [hbase, SortedMap.values_setValues (List.length_map _)]
    exact hvalues
  · rw [hbase]
    exact h.length
  · rw [hbase]
    exact h.pgn
  · change ((DM1.decodeData length).run f mem).2.toHeader.priority ≤ 7
    rw [hbase]
    exact h.priority

theorem LampFrame.withHeader (h : f.LampFrame) {header : Header} (hprio : header.priority ≤ 7) :
    (J1939.withHeader f header).LampFrame :=
  ⟨h.sameDefinitions, h.values, h.length, h.pgn, hprio⟩

theorem LampFrame.decode (h : f.LampFrame) (identifier : UInt32) (length : ℕ) (mem : Memory) :
    ((J1939.decode identifier length).run f mem).2.LampFrame := by
  by_cases hmatch : lookupPgn identifier = getPGN f
  · rw [run_decode_of_match hmatch]
    exact (h.withHeader (priority_receivedHeader _ _)).decodeData length mem
  · obtain ⟨dst, hsnd⟩ := @snd_run_decode_of_mismatch _ _ f identifier length mem hmatch
    rw [hsnd]
    exact h.withHeader h.priority

theorem Reachable.lampFrame (h : f.Reachable) : f.LampFrame := by
  induction h with
  | new => exact ⟨rfl, by decide, rfl, rfl, by decide⟩
  | setHeader h header hprio ih => exact ih.withHeader hprio
  | setLamp h number value ih =>
    have hkept : ∀ g : GenericFrame, (g.setStatusValue number value).length = g.length ∧
        (g.setStatusValue number value).pgn = g.pgn ∧
          (g.setStatusValue number value).toHeader = g.toHeader := by
      intro g
      rw [GenericFrame.setStatusValue]
      split <;> exact ⟨rfl, rfl, rfl⟩
    obtain ⟨hlength, hpgn, hheader⟩ := hkept _
    refine ⟨ih.sameDefinitions.setStatusValue number value,
      valueFits_setStatusValue ih.values number value, hlength.trans ih.length,
      hpgn.trans ih.pgn, ?_⟩
    exact (congrArg (·.priority) hheader).trans_le ih.priority
  | addDTC h dtc ih => exact ⟨ih.sameDefinitions, ih.values, ih.length, ih.pgn, ih.priority⟩
  | deleteDTC h pos ih =>
    rw [DM1.deleteDTC]
    split
    · exact ih
    · exact ⟨ih.sameDefinitions, ih.values, ih.length, ih.pgn, ih.priority⟩
  | setDTC h pos dtc ih =>
    rw [DM1.setDTC]
    split
    · exact ih
    · exact ⟨ih.sameDefinitions, ih.values, ih.length, ih.pgn, ih.priority⟩
  | decode h identifier length mem ih => exact ih.decode identifier length mem

/-- A payload that decodes gives a fresh frame the trouble codes that it adds to another one, so
it replaces the trouble codes exactly when there are none. -/
theorem decode_replaces_iff {f' : DM1} (h : f.Reachable) {identifier : UInt32} {length : ℕ}
    {mem : Memory} (hrun : (J1939.decode identifier length).run f mem = (.ok (), f')) :
    ∃ fresh, (J1939.decode identifier length).run DM1.new mem = (.ok (), fresh) ∧
      (f'.dtcs = fresh.dtcs ↔ f.dtcs = []) := by
  have hlamps := h.lampFrame
  have hnew := Reachable.new.lampFrame
  obtain ⟨hmatch, haccepts, hdtcs⟩ := dtcs_of_decode hlamps.hasLamps hrun
  have hmatch' : lookupPgn identifier = getPGN DM1.new := hmatch.trans hlamps.pgn
  have haccepts' : (J1939.withHeader DM1.new
      (receivedHeader (header DM1.new) identifier)).Accepts length mem := by
    have hlength : (J1939.withHeader DM1.new (receivedHeader (header DM1.new)
        identifier)).toGenericFrame.getDataLength = f.toGenericFrame.getDataLength :=
      hnew.getDataLength_lamps.trans hlamps.getDataLength_lamps.symm
    rw [Accepts, hlength]
    exact haccepts
  have hfresh := run_decodeData_of_accepts
    (hnew.withHeader (priority_receivedHeader (header DM1.new) identifier)).hasLamps haccepts'
  refine ⟨_, (run_decode_of_match hmatch').trans hfresh, ?_⟩
  have hlength : (J1939.withHeader DM1.new (receivedHeader (header DM1.new)
      identifier)).toGenericFrame.getDataLength = 2 := hnew.getDataLength_lamps
  rw [hdtcs, hlamps.getDataLength_lamps, hlength]
  exact List.append_left_eq_self

/-- A payload with one trouble code. -/
def oneFault : Memory := Memory.ofList [0xFF, 0xFF, 0x64, 0x00, 0x03, 0x01, 0xFF, 0xFF] fun _ => 0

/-- The frame that decodes that payload. -/
def decodeOneFault (f : DM1) : Except J1939Exception Unit × DM1 :=
  (J1939.decode 0x18FECA00 8).run f oneFault

theorem run_oneFault {f : DM1} (h : (decodeOneFault f).1 = .ok ()) :
    (J1939.decode 0x18FECA00 8).run f oneFault = (.ok (), (decodeOneFault f).2) := Prod.ext h rfl

theorem decodeOneFault_ok : (decodeOneFault new).1 = .ok () := by decide +kernel

theorem decodeOneFault_again : (decodeOneFault (decodeOneFault new).2).1 = .ok () := by
  decide +kernel

theorem dtcs_decodeOneFault : (decodeOneFault (decodeOneFault new).2).2.dtcs ≠
    (decodeOneFault new).2.dtcs := by decide +kernel

/-- The second time the trouble code is there twice. -/
theorem decodeTwice_not_replaces :
    ¬∀ (f f' fresh : DM1) (identifier : UInt32) (length : ℕ) (mem : Memory), f.Reachable →
      (J1939.decode identifier length).run f mem = (.ok (), f') →
      (J1939.decode identifier length).run DM1.new mem = (.ok (), fresh) →
      f'.dtcs = fresh.dtcs := by
  intro h
  exact dtcs_decodeOneFault (h (decodeOneFault new).2 (decodeOneFault (decodeOneFault new).2).2
    (decodeOneFault new).2 0x18FECA00 8 oneFault (.decode .new 0x18FECA00 8 oneFault)
    (run_oneFault decodeOneFault_again) (run_oneFault decodeOneFault_ok))

theorem decodeOnce_replaces :
    ∃ fresh, (J1939.decode 0x18FECA00 8).run DM1.new oneFault = (.ok (), fresh) ∧
      ((decodeOneFault new).2.dtcs = fresh.dtcs ↔ DM1.new.dtcs = []) :=
  @decode_replaces_iff DM1.new (decodeOneFault new).2 .new 0x18FECA00 8 oneFault
    (run_oneFault decodeOneFault_ok)

/-! ### The round trip -/

/-- The trouble codes written one after the other are read back. -/
theorem read_flatMap_encode {dtcs : List DTC} (h : ∀ d ∈ dtcs, d.Encodable) {o : ℕ} {mem : Memory}
    (hmem : ∀ i < 4 * dtcs.length, mem (o + i) = (dtcs.flatMap DTC.encode).getD i 0) :
    (∀ k < dtcs.length, mem (o + 4 * k + 3) &&& dtcCmMask = 0) ∧
      (List.range dtcs.length).map (fun k => DTC.read fun i => mem (o + 4 * k + i)) = dtcs := by
  induction dtcs generalizing o with
  | nil => exact ⟨nofun, rfl⟩
  | cons d dtcs ih =>
    rw [List.forall_mem_cons] at h
    rw [List.length_cons] at hmem ⊢
    have hsize : d.encode.length = 4 := rfl
    obtain ⟨hcm, hread⟩ := @DTC.read_encode d h.1 (fun i => mem (o + i)) fun i hi => by
      rw [hmem i (by omega), List.flatMap_cons, List.getD_append _ _ _ _ (by omega)]
    have hlater : ∀ k i, o + 4 * (k + 1) + i = o + 4 + 4 * k + i := by
      intro k i
      omega
    obtain ⟨hcms, hreads⟩ := @ih h.2 (o + 4) fun i hi => by
      have hindex : o + 4 + i = o + (i + 4) := by omega
      rw [hindex, hmem (i + 4) (by omega), List.flatMap_cons,
        List.getD_append_right _ _ _ _ (by omega), hsize, Nat.add_sub_cancel]
    constructor
    · intro k hk
      cases k with
      | zero => exact hcm
      | succ k =>
        rw [hlater]
        exact hcms k (by omega)
    · rw [List.range_succ_eq_map, List.map_cons, List.map_map, Nat.mul_zero, Nat.add_zero, hread]
      refine congrArg (d :: ·) (Eq.trans (List.map_congr_left fun k _ => ?_) hreads)
      simp only [Function.comp_apply, Nat.succ_eq_add_one, hlater]

/-- The bytes behind the lamp statuses. A trouble code with SPN 0 says that there are no faults. -/
def dtcBytes (dtcs : List DTC) : List UInt8 :=
  if dtcs = [] then List.replicate 4 0x00 ++ List.replicate 2 0xFF else dtcs.flatMap DTC.encode

theorem length_dtcBytes (dtcs : List DTC) :
    2 + (dtcBytes dtcs).length ≤ max (2 + 4 * dtcs.length) 8 := by
  rw [dtcBytes]
  split_ifs with hnone
  · rw [hnone]
    decide
  · rw [length_flatMap_encode]
    exact le_max_left _ _

/-- The trouble codes behind the lamp statuses are read back: padding bytes are too few for one
more, and the one that stands for no faults is dropped. -/
theorem readDtcs_dtcBytes {dtcs : List DTC} (h : ∀ d ∈ dtcs, d.Encodable) {mem : Memory}
    (hmem : ∀ i < (dtcBytes dtcs).length, mem (2 + i) = (dtcBytes dtcs).getD i 0) :
    (∀ o ∈ dtcOffsets 2 (max (2 + 4 * dtcs.length) 8), mem (o + 3) &&& dtcCmMask = 0) ∧
      readDtcs (dtcOffsets 2 (max (2 + 4 * dtcs.length) 8)) mem = dtcs := by
  by_cases hnone : dtcs = []
  · subst hnone
    have hzero : ∀ i < 4, mem (2 + i) = 0 := by
      intro i hi
      have hzeros : ∀ i < 4, (dtcBytes []).getD i 0 = 0 := by decide
      rw [hmem i (by change i < 6; omega), hzeros i hi]
    have hoffsets : dtcOffsets 2 (max (2 + 4 * ([] : List DTC).length) 8) = [2] := rfl
    rw [hoffsets, List.forall_mem_singleton, hzero 3 (by decide)]
    refine ⟨rfl, ?_⟩
    have hread : (DTC.read fun i => mem (2 + i)).spn = 0 := by
      simp only [DTC.read, hzero 0 (by decide), hzero 1 (by decide), hzero 2 (by decide)]
      rfl
    simp [readDtcs, hread]
  · rw [dtcBytes, if_neg hnone, length_flatMap_encode] at hmem
    have hpos := List.length_pos_of_ne_nil hnone
    have hcount : (max (2 + 4 * dtcs.length) 8 - 2) / dtcSize = dtcs.length := by
      rw [dtcSize]
      omega
    obtain ⟨hcms, hreads⟩ := read_flatMap_encode h hmem
    rw [dtcOffsets, hcount, List.forall_mem_map]
    refine ⟨fun k hk => hcms k (List.mem_range.mp hk), ?_⟩
    rw [readDtcs, List.map_map]
    refine Eq.trans (congrArg _ hreads) (List.filter_eq_self.mpr fun d hd => ?_)
    have hspn : d.spn ≠ 0 := fun hzero => by
      have hnat := (h d hd).spn_pos
      rw [hzero] at hnat
      exact absurd hnat (by decide)
    exact decide_eq_true hspn

theorem HasLamps.disjoint (h : f.HasLamps) : f.spns.values.Pairwise SPN.Disjoint := by
  have hbits : ∀ a b : SPN, a.definition.Disjoint b.definition → a.Disjoint b := by
    intro a b hab
    cases a <;> cases b <;> exact hab
  have hnew : (f.spns.values.map SPN.definition).Pairwise SPN.Disjoint := by
    rw [h]
    decide
  exact (List.pairwise_map.mp hnew).imp fun {a b} => hbits a b

/-- The bits of the lamp statuses lie in the first two bytes. -/
theorem HasLamps.bits_le (h : f.HasLamps) :
    ∀ spn ∈ f.spns.values, spn.bitStart + spn.bitCount ≤ 16 :=
  h.forall (by decide) fun spn hspn => by cases spn <;> exact hspn

/-- The lamp statuses write their own bits in front of the trouble codes. -/
theorem LampFrame.encodeData (h : f.LampFrame) {buffer : List UInt8}
    (hlength : 2 + (dtcBytes f.dtcs).length ≤ buffer.length) :
    ∃ lamps, f.encodeData buffer = .ok (writeBytes lamps 2 (dtcBytes f.dtcs)) ∧
      lamps.length = buffer.length ∧ ∀ spn ∈ f.spns.values, ∀ k < spn.bitCount,
        Buffer.bitAt lamps (spn.bitStart + k) = spn.rawValue.testBit k := by
  have hfits := h.hasLamps.fits
  rw [h.getDataLength_lamps] at hfits
  obtain ⟨lamps, hlamps, -, hown⟩ := encodeSpns_fixed (by omega : 2 ≤ buffer.length)
    h.hasLamps.isString hfits h.values h.hasLamps.disjoint
  refine ⟨lamps, ?_, GenericFrame.encodeSpns_length hlamps, hown⟩
  rw [DM1.encodeData, h.getDataLength_lamps]
  simp only [hlamps]
  rw [if_neg (not_not.mpr rfl), dtcBytes]
  split_ifs with hnone
  · rw [hnone]
    rfl
  · rfl

/-- Frames with the same lamps decode them from a payload that has their bits. -/
theorem LampFrame.restored {g : DM1} (h : f.LampFrame) (hg : g.LampFrame) {out : List UInt8}
    (hlength : 2 ≤ out.length) (hown : ∀ spn ∈ f.spns.values, ∀ k < spn.bitCount,
      Buffer.bitAt out (spn.bitStart + k) = spn.rawValue.testBit k) (beyond : Memory) :
    g.spns.setValues (g.spns.values.map (SPN.decoded (Memory.ofList out beyond))) = f.spns := by
  have hfits : ∀ spn ∈ f.spns.values, spn.Fits out.length := by
    intro spn hspn
    have htwo := h.hasLamps.fits spn hspn
    rw [h.getDataLength_lamps] at htwo
    cases spn with
    | numeric n => exact ⟨htwo.1.trans_le hlength, htwo.2.trans (Nat.sub_le_sub_right hlength _)⟩
    | status s => exact htwo.trans_le hlength
    | string s => exact absurd (h.hasLamps.isString _ hspn) (by simp [SPN.isString])
  have hkeys : g.spns.entries.map Prod.fst = f.spns.entries.map Prod.fst :=
    hg.sameDefinitions.keys.trans h.sameDefinitions.keys.symm
  rw [map_decoded (hg.hasLamps.trans h.hasLamps.symm) fun spn hspn other hdefinition =>
    decoded_of_bits beyond (h.hasLamps.isString spn hspn) (hfits spn hspn) (h.values spn hspn)
      (hown spn hspn) hdefinition]
  exact SortedMap.setValues_values hkeys

/-- A frame whose trouble codes have room on the wire comes back, with the same lamp statuses and
the same trouble codes in the same order, from its payload of the announced length. -/
theorem roundTrip (h : f.Reachable) (hdtcs : ∀ d ∈ f.dtcs, d.Encodable) :
    J1939.getDataLength f = max 8 (2 + 4 * f.dtcs.length) ∧
      ∃ e, encode f (J1939.getDataLength f) = .ok e ∧
        e.buffer.length = J1939.getDataLength f ∧
          ∀ beyond, ∃ g, (J1939.decode e.identifier e.buffer.length).run DM1.new
              (Memory.ofList e.buffer beyond) = (.ok (), g) ∧
            g.spns = f.spns ∧ g.dtcs = f.dtcs := by
  have hlamps := h.lampFrame
  have hlength : J1939.getDataLength f = max (2 + 4 * f.dtcs.length) 8 := by
    change max (f.toGenericFrame.getDataLength + _) _ = _
    rw [hlamps.getDataLength_lamps]
    rfl
  have hroom : 2 + (dtcBytes f.dtcs).length ≤
      (List.replicate (J1939.getDataLength f) (0xFF : UInt8)).length := by
    rw [List.length_replicate, hlength]
    exact length_dtcBytes f.dtcs
  obtain ⟨lamps, hencode, hlampsLength, hown⟩ := hlamps.encodeData hroom
  set out := writeBytes lamps 2 (dtcBytes f.dtcs) with hout
  have houtLength : out.length = J1939.getDataLength f := by
    rw [hout, length_writeBytes, hlampsLength, List.length_replicate]
  refine ⟨hlength.trans (max_comm _ _), ⟨getIdentifier f, out, J1939.getDataLength f⟩,
    encode_eq_ok_iff.mpr ⟨hlamps.priority, le_rfl, hencode, rfl, rfl⟩, houtLength,
    fun beyond => ?_⟩
  have hnew := Reachable.new.lampFrame
  have hpgn : getPGN f = dm1Pgn := hlamps.pgn
  have hmatch : lookupPgn (getIdentifier f) = getPGN DM1.new := by
    have hback : lookupPgn (getIdentifier f) = getPGN f := by
      apply (lookupPgn_iff hlamps.priority _ _).mpr <;> rw [hpgn] <;> decide
    exact hback.trans hpgn
  set g := J1939.withHeader DM1.new (receivedHeader (header DM1.new) (getIdentifier f)) with hg
  have hg' : g.LampFrame := hnew.withHeader (priority_receivedHeader _ _)
  have hbytes : ∀ i < (dtcBytes f.dtcs).length,
      Memory.ofList out beyond (2 + i) = (dtcBytes f.dtcs).getD i 0 := by
    intro i hi
    have hin : 2 + i < out.length := by
      rw [houtLength, hlength]
      have := length_dtcBytes f.dtcs
      omega
    rw [Memory.ofList_of_lt hin, ← List.getD_eq_getElem _ 0 hin, hout,
      Buffer.getD_writeBytes _ _ _ (by rw [hlampsLength]; exact hroom), if_pos (by omega),
      Nat.add_sub_cancel_left]
  obtain ⟨haccepts, hreads⟩ := readDtcs_dtcBytes hdtcs hbytes
  have haccepts' : g.Accepts out.length (Memory.ofList out beyond) := by
    rw [Accepts, hg'.getDataLength_lamps, houtLength, hlength]
    exact haccepts
  have hrun := run_decodeData_of_accepts hg'.hasLamps haccepts'
  refine ⟨_, (run_decode_of_match hmatch).trans hrun, ?_, ?_⟩
  · refine hlamps.restored hg' ?_ (fun spn hspn k hk => ?_) beyond
    · rw [houtLength, hlength]
      omega
    · -- the trouble codes begin behind the bits of the lamps
      have hlast := hlamps.hasLamps.bits_le spn hspn
      rw [← hown spn hspn k hk, Buffer.bitAt, Buffer.bitAt, hout,
        Buffer.getD_writeBytes_of_lt (by omega)]
  · change DM1.new.dtcs ++ readDtcs (dtcOffsets g.toGenericFrame.getDataLength out.length) _ = _
    rw [hg'.getDataLength_lamps, houtLength, hlength, hreads]
    rfl

/-- The frame with one trouble code is restored. -/
theorem oneFault_roundTrip :
    J1939.getDataLength (new.addDTC ⟨0x7FFFF, 31, 127⟩) = 8 ∧
      ∃ e, encode (new.addDTC ⟨0x7FFFF, 31, 127⟩) 8 = .ok e ∧ e.buffer.length = 8 ∧
        ∀ beyond, ∃ g, (J1939.decode e.identifier e.buffer.length).run DM1.new
            (Memory.ofList e.buffer beyond) = (.ok (), g) ∧
          g.spns = (new.addDTC ⟨0x7FFFF, 31, 127⟩).spns ∧ g.dtcs = [⟨0x7FFFF, 31, 127⟩] :=
  roundTrip (Reachable.new.addDTC ⟨0x7FFFF, 31, 127⟩) fun d hd => by
    rw [List.mem_singleton.mp hd]
    exact ⟨by decide, by decide, by decide, by decide⟩

end DM1

end J1939
