import J1939.ParsedFrames
import J1939.StringOffsets
import J1939.TroubleCodes

/-!
# What a failed decoding leaves

`decode` writes the header before the payload is checked, and the loops over SPNs and trouble
codes write what they have read before they reach what they reject. A decoding that throws
leaves the object as it was only when these writes change nothing.
-/

namespace J1939

/-! ### The header -/

/-- The header has the destination that an identifier of PDU format 1 carries. -/
def HasDestination (h : Header) (identifier : UInt32) : Prop :=
  getPDUFormat (identifierPgn identifier) < pduFmtDelimiter →
    h.dstAddr = ((identifierPgn identifier >>> dstAddrOffset) &&& dstAddrMask).toUInt8

instance (h : Header) (identifier : UInt32) : Decidable (HasDestination h identifier) :=
  inferInstanceAs (Decidable (_ → _))

/-- The header has the addresses and the priority that an identifier carries. -/
structure HasHeader (h : Header) (identifier : UInt32) : Prop where
  destination : HasDestination h identifier
  source : h.srcAddr = (identifier &&& srcAddrMask).toUInt8
  priority : h.priority = ((identifier >>> priorityOffset) &&& priorityMask.toUInt32).toUInt8

theorem receivedHeader_eq_iff (h : Header) (identifier : UInt32) :
    receivedHeader h identifier = h ↔ HasHeader h identifier := by
  obtain ⟨priority, src, dst, name⟩ := h
  simp only [receivedHeader, Header.mk.injEq, and_true]
  constructor
  · rintro ⟨hpriority, hsrc, hdst⟩
    refine ⟨fun hfmt => ?_, hsrc.symm, hpriority.symm⟩
    rw [if_pos hfmt] at hdst
    exact hdst.symm
  · rintro ⟨hdst, hsrc, hpriority⟩
    refine ⟨hpriority.symm, hsrc.symm, ?_⟩
    split_ifs with hfmt
    · exact (hdst hfmt).symm
    · rfl

theorem receivedDestination_eq_iff (h : Header) (identifier : UInt32) :
    { h with dstAddr := (receivedHeader h identifier).dstAddr } = h ↔
      HasDestination h identifier := by
  obtain ⟨priority, src, dst, name⟩ := h
  simp only [receivedHeader, Header.mk.injEq, and_true, true_and]
  by_cases hfmt : getPDUFormat (identifierPgn identifier) < pduFmtDelimiter
  · rw [if_pos hfmt]
    exact ⟨fun hdst _ => hdst.symm, fun hdst => (hdst hfmt).symm⟩
  · rw [if_neg hfmt]
    exact iff_of_true rfl fun h => absurd h hfmt

/-- A mismatch writes the destination of an identifier of PDU format 1. -/
theorem snd_run_decode_of_mismatch_eq {F : Type} [IsJ1939Frame F] {f : F} {identifier : UInt32}
    {length : ℕ} {mem : Memory} (h : lookupPgn identifier ≠ getPGN f) :
    ((decode identifier length).run f mem).2 =
      withHeader f { header f with dstAddr := (receivedHeader (header f) identifier).dstAddr } := by
  unfold decode
  by_cases hfmt : getPDUFormat (identifierPgn identifier) < pduFmtDelimiter
  · simp only [hfmt, if_true, modifyHeader, Method.run_modify_bind, Method.run_get_bind,
      Method.run_throwIf_bind, IsJ1939Frame.getPGN_withHeader, receivedHeader]
    rw [if_pos h]
  · simp only [hfmt, if_false, Method.run_get_bind, Method.run_throwIf_bind, receivedHeader]
    rw [if_pos h]
    exact (IsJ1939Frame.withHeader_header f).symm

/-! ### The SPNs of a frame -/

namespace SPN

/-- A numeric or status SPN holds what its bytes of the payload say. -/
def Holds (mem : Memory) : SPN → Prop
  | numeric n => n.value = SPNNumeric.readValue n.getByteSize.toNat fun i => mem (n.spec.offset + i)
  | status s => s.value = (mem s.spec.offset >>> s.getBitOffset) &&& s.mask
  | string _ => True

theorem decoded_eq_iff (spn : SPN) (mem : Memory) : spn.decoded mem = spn ↔ spn.Holds mem := by
  cases spn with
  | numeric n =>
    obtain ⟨spec, numSpec, value⟩ := n
    simp only [decoded, Holds, numeric.injEq, SPNNumeric.mk.injEq, true_and]
    exact eq_comm
  | status s =>
    obtain ⟨spec, statSpec, value⟩ := s
    simp only [decoded, Holds, status.injEq, SPNStatus.mk.injEq, true_and]
    exact eq_comm
  | string s => exact iff_of_true rfl trivial

end SPN

/-- Numeric and status SPNs hold what is read of the payload before the first one that does not
fit. -/
def HoldsFixed (length : ℕ) (mem : Memory) : List SPN → Prop
  | [] => True
  | spn :: spns => spn.Fits length → spn.Holds mem ∧ HoldsFixed length mem spns

/-- Strings hold what is read of the payload before the first one that cannot be read, and that
one is empty already. -/
def HoldsStrings (mem : Memory) (length : ℕ) : ℕ → List (List UInt8) → Prop
  | _, [] => True
  | offset, v :: vs => offset < length →
    match SPNString.readString (fun i => mem (offset + i)) (length - offset) with
    | none => v = []
    | some w => v = w ∧ HoldsStrings mem length (offset + stringSize w) vs

/-- An SPN that does not fit is left alone. -/
theorem snd_run_decodeAt_of_not_fits {length : ℕ} {done : List SPN} {spn : SPN} {todo : List SPN}
    (hfixed : spn.isString = false) (hfits : ¬spn.Fits length) (mem : Memory) :
    ((decodeAt length done.length).run (done ++ spn :: todo) mem).2 = done ++ spn :: todo := by
  rw [run_decodeAt]
  by_cases hoffset : spn.getOffset ≥ length
  · rw [if_pos hoffset]
  rw [if_neg hoffset]
  cases spn with
  | numeric n =>
    have hsize : n.getByteSize.toNat > length - n.spec.offset := by
      by_contra hsize
      exact hfits ⟨Nat.lt_of_not_ge hoffset, Nat.le_of_not_lt hsize⟩
    have hrun := SPN.run_decode_numeric (length - n.spec.offset) n
      fun i => mem (n.spec.offset + i)
    rw [SPNNumeric.run_decode, if_pos hsize] at hrun
    simp only [SPN.getOffset, hrun]
  | status s => exact absurd (Nat.lt_of_not_ge hoffset) hfits
  | string s => cases hfixed

/-- The loop over numeric and status SPNs changes none of them when they hold what is read. -/
theorem snd_run_decodeRest_fixed {length : ℕ} (done todo : List SPN)
    (hfixed : ∀ spn ∈ todo, spn.isString = false) (mem : Memory) :
    ∃ todo', ((decodeRest length done todo).run (done ++ todo) mem).2 = done ++ todo' ∧
      todo'.length = todo.length ∧
        (unplaced todo' = unplaced todo ↔ HoldsFixed length mem todo) := by
  induction todo generalizing done with
  | nil => exact ⟨[], rfl, rfl, iff_of_true rfl trivial⟩
  | cons spn todo ih =>
    rw [List.forall_mem_cons] at hfixed
    rw [decodeRest_cons length done spn (spn.decoded mem) todo todo rfl, HoldsFixed]
    rcases run_decodeAt_fixed hfixed.1 mem with ⟨hfits, hrun⟩ | ⟨hfits, e, st, hrun, -⟩
    · obtain ⟨todo', hrest, hlength, hsame⟩ := ih (done ++ [spn.decoded mem]) hfixed.2
      refine ⟨spn.decoded mem :: todo', ?_, congrArg (· + 1) hlength, ?_⟩
      · have hsplit : done ++ spn.decoded mem :: todo = (done ++ [spn.decoded mem]) ++ todo := by
          simp
        rw [Method.run_bind_of_ok hrun, hsplit, hrest, List.append_assoc]
        rfl
      · have hplace : ∀ x : SPN, x.isString = false → x.setOffset 0 = x := by
          intro x hx
          cases x with
          | string s => cases hx
          | _ => rfl
        have hdecoded : (spn.decoded mem).isString = false := by
          rw [← hfixed.1]
          cases spn <;> rfl
        simp only [unplaced, List.map_cons, List.cons.injEq] at hsame ⊢
        rw [hsame, hplace _ hdecoded, hplace _ hfixed.1, SPN.decoded_eq_iff, imp_iff_right hfits]
    · have hst := @snd_run_decodeAt_of_not_fits length done spn todo hfixed.1 hfits mem
      rw [hrun] at hst
      refine ⟨spn :: todo, ?_, rfl, iff_of_true rfl fun h => absurd h hfits⟩
      rw [Method.run_bind_of_error hrun]
      exact hst

theorem unplaced_cons_string (s : SPNString) (v : List UInt8) (spns spns' : List SPN) :
    unplaced (.string { s with value := v } :: spns) = unplaced (.string s :: spns') ↔
      s.value = v ∧ unplaced spns = unplaced spns' := by
  obtain ⟨spec, offset, value⟩ := s
  simp only [unplaced, List.map_cons, SPN.setOffset, List.cons.injEq, SPN.string.injEq,
    SPNString.mk.injEq, true_and]
  rw [eq_comm]

/-- The loop over strings changes none of their texts when they hold what is read. -/
theorem snd_run_decodeRest_strings {length start : ℕ} {done todo : List SPN}
    (hstring : ∀ spn ∈ todo, spn.isString = true) {offset : ℕ}
    (hsettled : SettledFrom start (done ++ todo.take 1))
    (hoffset : ∀ spn ∈ todo.head?, spn.getOffset = offset) (mem : Memory) :
    ∃ todo', ((decodeRest length done todo).run (done ++ todo) mem).2 = done ++ todo' ∧
      todo'.length = todo.length ∧
        (unplaced todo' = unplaced todo ↔ HoldsStrings mem length offset (todo.map SPN.text)) := by
  induction htodo : todo.length generalizing done todo offset with
  | zero =>
    obtain rfl := List.length_eq_zero_iff.mp htodo
    exact ⟨[], rfl, rfl, iff_of_true rfl trivial⟩
  | succ n ih =>
    obtain _ | ⟨spn, todo⟩ := todo
    · cases htodo
    have hprefix : SettledFrom start (done ++ [spn]) := hsettled
    obtain ⟨s, rfl⟩ := exists_string_of_settledFrom hprefix spn (by simp)
    rw [List.forall_mem_cons] at hstring
    obtain rfl : s.offset = offset := hoffset _ rfl
    rw [List.map_cons, HoldsStrings]
    rcases @run_decodeRest_string length start done s hprefix todo mem with
      ⟨v, hend, hread, hrun⟩ | ⟨hend, hrun⟩ | ⟨hend, hread, e, hrun, -⟩
    · have hlength := length_recalculateFrom (s.offset + stringSize v) todo
      obtain ⟨hrest, htexts⟩ := recalculateFrom_settled (s.offset + stringSize v) hstring.2
      have hnext := settledFrom_take (settledFrom_decoded hprefix hstring.2 v) 1
      obtain ⟨todo', hrun', hlen, hsame⟩ := ih (isString_of_settledFrom hrest) hnext
        (getOffset_of_mem_head? hrest) (hlength.trans (Nat.succ.inj htodo))
      refine ⟨.string { s with value := v } :: todo', ?_, congrArg (· + 1) hlen, ?_⟩
      · rw [hrun, hrun', List.append_assoc, List.singleton_append]
      · rw [hread, imp_iff_right (Nat.lt_of_not_ge hend)]
        rw [unplaced_recalculateFrom, htexts] at hsame
        exact (unplaced_cons_string s v todo' todo).trans (and_congr_right fun _ => hsame)
    · exact ⟨.string s :: todo, by rw [hrun], htodo,
        iff_of_true rfl fun h => absurd h (Nat.not_lt.mpr hend)⟩
    · refine ⟨.string { s with value := [] } :: todo, by rw [hrun], htodo, ?_⟩
      rw [hread, imp_iff_right (Nat.lt_of_not_ge hend)]
      exact (unplaced_cons_string s [] todo todo).trans (and_iff_left rfl)

/-! ### The frame classes -/

/-- Two frames have the same header and the same SPNs, wherever strings stand. -/
structure GenericFrame.SameContent (g g' : GenericFrame) : Prop where
  header : g'.toHeader = g.toHeader
  pgn : g'.pgn = g.pgn
  length : g'.length = g.length
  numbers : g'.spns.entries.map Prod.fst = g.spns.entries.map Prod.fst
  spns : unplaced g'.spns.values = unplaced g.spns.values

/-- The SPNs hold what `decodeData` reads of the payload before it throws. -/
def GenericFrame.Holds (g : GenericFrame) (length : ℕ) (mem : Memory) : Prop :=
  if ∀ spn ∈ g.spns.values, spn.isString = false then HoldsFixed length mem g.spns.values
  else HoldsStrings mem length (firstOffset g.spns.values) (g.spns.values.map SPN.text)

theorem GenericFrame.sameContent_setValues {g : GenericFrame} {vs : List SPN}
    (hlength : vs.length = g.spns.values.length) :
    g.SameContent { g with spns := g.spns.setValues vs } ↔
      unplaced vs = unplaced g.spns.values := by
  have hvalues := SortedMap.values_setValues hlength
  constructor
  · intro h
    have hspns := h.spns
    rwa [hvalues] at hspns
  · intro h
    exact ⟨rfl, rfl, rfl, SortedMap.map_fst_setValuesIn _ _, by rw [hvalues, h]⟩

/-- Decoding changes nothing exactly when the SPNs hold what is read. -/
theorem GenericFrame.sameContent_decodeData {g : GenericFrame} (h : g.Uniform) (length : ℕ)
    (mem : Memory) : g.SameContent ((decodeData length).run g mem).2 ↔ g.Holds length mem := by
  rw [decodeData, Method.run_onPart, decodeSpns_eq, Holds]
  by_cases hfixed : ∀ spn ∈ g.spns.values, spn.isString = false
  · obtain ⟨spns, hrun, hlength, hsame⟩ :=
      @snd_run_decodeRest_fixed length [] g.spns.values hfixed mem
    rw [if_pos hfixed, ← hsame, hrun]
    exact sameContent_setValues hlength
  · have hstring := h.resolve_right hfixed
    have hstart := getOffset_of_mem_head?_firstOffset g.spns.values
    obtain ⟨spns, hrun, hlength, hsame⟩ := @snd_run_decodeRest_strings length
      (firstOffset g.spns.values) [] g.spns.values hstring (firstOffset g.spns.values)
      (settledFrom_take_one hstring hstart) hstart mem
    rw [if_neg hfixed, ← hsame, hrun]
    exact sameContent_setValues hlength

/-! ### Trouble codes -/

/-- No trouble code stands before the first one with the conversion bit set. -/
def NoFaultRead (mem : Memory) : List ℕ → Prop
  | [] => True
  | o :: os => mem (o + 3) &&& dtcCmMask = 0 →
    (DTC.read fun i => mem (o + i)).spn = 0 ∧ NoFaultRead mem os

/-- The lamps hold what is read, and no trouble code is read when they can be. -/
def DM1.Holds (f : DM1) (length : ℕ) (mem : Memory) : Prop :=
  f.toGenericFrame.Holds f.toGenericFrame.getDataLength mem ∧
    (f.toGenericFrame.Accepts f.toGenericFrame.getDataLength mem →
      NoFaultRead mem (dtcOffsets f.toGenericFrame.getDataLength length))

/-- The loop over trouble codes appends those that it reads. -/
theorem DM1.snd_run_forEach_decodeDtcAt (offsets : List ℕ) (f : DM1) (d : DTC) (mem : Memory) :
    ∃ read d', ((Method.forEach offsets decodeDtcAt).run (f, d) mem).2 =
        ({ f with dtcs := f.dtcs ++ read }, d') ∧ (read = [] ↔ NoFaultRead mem offsets) := by
  induction offsets generalizing f d with
  | nil => exact ⟨[], d, by simp [Method.forEach], iff_of_true rfl trivial⟩
  | cons o os ih =>
    rw [Method.forEach, NoFaultRead]
    by_cases hcm : mem (o + 3) &&& dtcCmMask = 0
    · set code := DTC.read fun i => mem (o + i) with hcode
      have hfirst : (Method.advance o (Method.onPart Prod.snd (fun s dtc => (s.1, dtc))
          DTC.decode)).run (f, d) mem = (.ok (), (f, code)) := by
        rw [Method.run_advance, Method.run_onPart, DTC.run_decode, if_neg (not_not.mpr hcm)]
      have hstep : (decodeDtcAt o).run (f, d) mem = (.ok (), (f.pushDtc code, code)) :=
        Method.run_bind_of_ok hfirst
      obtain ⟨read, d', hrest, hnone⟩ := ih (f.pushDtc code) code
      rw [Method.run_bind_of_ok hstep, hrest, imp_iff_right hcm, ← hnone, pushDtc]
      by_cases hspn : code.spn = 0
      · rw [if_neg (not_not.mpr hspn)]
        exact ⟨read, d', rfl, (and_iff_right hspn).symm⟩
      · rw [if_pos hspn]
        exact ⟨code :: read, d', by simp, iff_of_false (by simp) fun h => hspn h.1⟩
    · have hstep : (decodeDtcAt o).run (f, d) mem = (.error .dtcConversionMethod, (f, d)) := by
        apply Method.run_bind_of_error
        rw [Method.run_advance, Method.run_onPart, DTC.run_decode, if_pos hcm]
      rw [Method.run_bind_of_error hstep]
      exact ⟨[], d, by simp, iff_of_true rfl fun h => absurd h hcm⟩

/-- Two frames have the same lamps and the same trouble codes. -/
structure DM1.SameContent (f f' : DM1) : Prop where
  lamps : f.toGenericFrame.SameContent f'.toGenericFrame
  dtcs : f'.dtcs = f.dtcs

theorem DM1.sameContent_decodeData {f : DM1} (h : f.toGenericFrame.Uniform) (length : ℕ)
    (mem : Memory) : f.SameContent ((decodeData length).run f mem).2 ↔ f.Holds length mem := by
  set lampStatLength := f.toGenericFrame.getDataLength with hlampStatLength
  have hlamps := GenericFrame.sameContent_decodeData h lampStatLength mem
  have haccepts := (GenericFrame.decodesWhen h lampStatLength mem).ok_iff
  rw [decodeData, Method.run_get_bind, Method.run_bind, Method.run_onPart, Holds,
    ← hlampStatLength, ← hlamps, ← haccepts]
  generalize hr : (GenericFrame.decodeData lampStatLength).run f.toGenericFrame mem = r
  obtain ⟨_ | _, g⟩ := r
  · refine Iff.trans ⟨fun hsame => hsame.lamps, fun hsame => ⟨hsame, rfl⟩⟩
      (and_iff_left ?_).symm
    rintro ⟨⟩
  · obtain ⟨read, d', hrun, hnone⟩ := snd_run_forEach_decodeDtcAt
      (dtcOffsets lampStatLength length) { f with toGenericFrame := g } {} mem
    simp only [Method.run_onPart, hrun, imp_iff_right]
    rw [← hnone]
    constructor
    · intro hsame
      exact ⟨hsame.lamps, List.self_eq_append_right.mp hsame.dtcs.symm⟩
    · rintro ⟨hsame, rfl⟩
      exact ⟨hsame, List.append_nil _⟩

/-! ### Frames of fixed size -/

/-- Only the control byte is written before `TPCMFrame::decodeData` throws. -/
theorem TPCMFrame.decodeData_eq_iff {f : TPCMFrame} {length : ℕ} {mem : Memory}
    {e : J1939Exception} (h : ((decodeData length).run f mem).1 = .error e) :
    ((decodeData length).run f mem).2 = f ↔ (length = tpCmSize → f.ctrlType = mem 0) := by
  by_cases hlength : length = tpCmSize
  · have hunknown : ¬KnownCtrl (mem 0) := by
      intro hknown
      have hok := (decodesWhen f length mem).ok_iff.mpr ⟨hlength, hknown⟩
      rw [h] at hok
      cases hok
    simp only [KnownCtrl, not_or] at hunknown
    obtain ⟨hrts, hcts, hack, habort, hbam⟩ := hunknown
    have hctrl : (decodeCtrl (mem 0)).run { f with ctrlType := mem 0 } mem =
        (.error .tpcmCtrlType, { f with ctrlType := mem 0 }) := by
      rw [decodeCtrl, if_neg hrts, if_neg hcts, if_neg hack, if_neg habort, if_neg hbam]
      rfl
    rw [decodeData, Method.run_throwIf_bind, if_neg (not_not.mpr hlength), Method.run_byte_bind,
      Method.run_modify_bind, Method.run_bind_of_error hctrl, imp_iff_right hlength]
    constructor
    · intro hsame
      exact (congrArg TPCMFrame.ctrlType hsame).symm
    · intro hsame
      rw [← hsame]
  · rw [decodeData, Method.run_throwIf_bind, if_pos hlength]
    exact iff_of_true rfl fun h => absurd h hlength

theorem TPDTFrame.decodeData_of_error {f : TPDTFrame} {length : ℕ} {mem : Memory}
    {e : J1939Exception} (h : ((decodeData length).run f mem).1 = .error e) :
    ((decodeData length).run f mem).2 = f := by
  rw [run_decodeData] at h ⊢
  split_ifs at h ⊢
  rfl

/-- The payload is checked before a tell tale is written. -/
theorem FMS1Frame.decodeData_of_error {f : FMS1Frame} {length : ℕ} {mem : Memory}
    {e : J1939Exception} (h : ((decodeData length).run f mem).1 = .error e) :
    ((decodeData length).run f mem).2 = f := by
  have hdecodes := (decodesWhen f length mem).ok_iff
  rw [h, iff_false_left (by rintro ⟨⟩)] at hdecodes
  rw [decodeData, Method.run_throwIf_bind]
  by_cases hlength : length = fms1FrameLength
  · have hblock : mem 0 &&& blockIdMask ≥ numberOfBlocks :=
      UInt8.not_lt.mp fun hlt => hdecodes ⟨hlength, hlt⟩
    rw [if_neg (not_not.mpr hlength), Method.run_byte_bind, Method.run_throwIf_bind,
      if_pos hblock]
  · rw [if_pos hlength]

theorem AddressClaimFrame.decodeData_of_error {f : AddressClaimFrame} {length : ℕ} {mem : Memory}
    {e : J1939Exception} (h : ((decodeData length).run f mem).1 = .error e) :
    ((decodeData length).run f mem).2 = f := by
  have hlength := (decodesWhen f length mem).ok_iff
  rw [h, iff_false_left (by rintro ⟨⟩)] at hlength
  rw [decodeData, Method.run_throwIf_bind, if_pos hlength]

theorem RequestFrame.decodeData_of_error {f : RequestFrame} {length : ℕ} {mem : Memory}
    {e : J1939Exception} (h : ((decodeData length).run f mem).1 = .error e) :
    ((decodeData length).run f mem).2 = f := by
  have hlength := (decodesWhen f length mem).ok_iff
  rw [h, iff_false_left (by rintro ⟨⟩)] at hlength
  rw [decodeData, Method.run_throwIf_bind, if_pos hlength]

/-! ### Every frame class -/

namespace Frame

/-- The SPNs of a frame of the database are all strings or none of them is. -/
def Uniform : Frame → Prop
  | dm1 f => f.toGenericFrame.Uniform
  | generic f => f.Uniform
  | _ => True

/-- The header and the decoded content are the same. -/
def SameContent : Frame → Frame → Prop
  | dm1 f, dm1 f' => f.SameContent f'
  | generic f, generic f' => f.SameContent f'
  | f, f' => f' = f

/-- What `decodeData` writes before it throws is there already. -/
def Holds (length : ℕ) (mem : Memory) : Frame → Prop
  | tpcm f => length = tpCmSize → f.ctrlType = mem 0
  | dm1 f => f.Holds length mem
  | generic f => f.Holds length mem
  | _ => True

theorem sameContent_decodeData {f : Frame} (hf : f.Uniform) {length : ℕ} {mem : Memory}
    {e : J1939Exception} (h : ((decodeData length).run f mem).1 = .error e) :
    f.SameContent ((decodeData length).run f mem).2 ↔ f.Holds length mem := by
  cases f with
  | tpcm f =>
    have hrun : (decodeData length).run (tpcm f) mem = _ := value_call f tpcm _ mem
    rw [hrun] at h ⊢
    exact (tpcm.injEq _ _).to_iff.trans (TPCMFrame.decodeData_eq_iff h)
  | tpdt f =>
    have hrun : (decodeData length).run (tpdt f) mem = _ := value_call f tpdt _ mem
    rw [hrun] at h ⊢
    exact iff_of_true (congrArg tpdt (TPDTFrame.decodeData_of_error h)) trivial
  | fms1 f =>
    have hrun : (decodeData length).run (fms1 f) mem = _ := value_call f fms1 _ mem
    rw [hrun] at h ⊢
    exact iff_of_true (congrArg fms1 (FMS1Frame.decodeData_of_error h)) trivial
  | dm1 f =>
    have hrun : (decodeData length).run (dm1 f) mem = _ := value_call f dm1 _ mem
    rw [hrun]
    exact DM1.sameContent_decodeData hf length mem
  | addressClaim f =>
    have hrun : (decodeData length).run (addressClaim f) mem = _ := value_call f addressClaim _ mem
    rw [hrun] at h ⊢
    exact iff_of_true (congrArg addressClaim (AddressClaimFrame.decodeData_of_error h)) trivial
  | request f =>
    have hrun : (decodeData length).run (request f) mem = _ := value_call f request _ mem
    rw [hrun] at h ⊢
    exact iff_of_true (congrArg request (RequestFrame.decodeData_of_error h)) trivial
  | generic f =>
    have hrun : (decodeData length).run (generic f) mem = _ := value_call f generic _ mem
    rw [hrun]
    exact GenericFrame.sameContent_decodeData hf length mem

theorem SameContent.refl (f : Frame) : f.SameContent f := by
  cases f with
  | dm1 f => exact ⟨⟨rfl, rfl, rfl, rfl, rfl⟩, rfl⟩
  | generic f => exact ⟨rfl, rfl, rfl, rfl, rfl⟩
  | _ => rfl

theorem SameContent.header {f f' : Frame} (h : f.SameContent f') :
    J1939.header f' = J1939.header f := by
  cases f with
  | dm1 f =>
    cases f' with
    | dm1 f' => exact DM1.SameContent.lamps h |>.header
    | _ => cases h
  | generic f =>
    cases f' with
    | generic f' => exact GenericFrame.SameContent.header h
    | _ => cases h
  | _ =>
    obtain rfl := h
    rfl

theorem sameContent_withHeader_iff {f : Frame} {h : Header} :
    f.SameContent (withHeader f h) ↔ h = J1939.header f := by
  constructor
  · intro hsame
    have hheader := hsame.header
    rwa [IsJ1939Frame.header_withHeader] at hheader
  · rintro rfl
    rw [IsJ1939Frame.withHeader_header]
    exact .refl f

/-- What `decode` writes before it throws is there already. -/
def HoldsBefore (f : Frame) (identifier : UInt32) (length : ℕ) (mem : Memory) : Prop :=
  if lookupPgn identifier = getPGN f then
    HasHeader (J1939.header f) identifier ∧ f.Holds length mem
  else HasDestination (J1939.header f) identifier

/-- A decoding that throws leaves the frame as it was exactly when what it writes before is
there already: the header of a matching identifier, or the destination of another one, and
what `decodeData` reads in front of what it rejects. -/
theorem failed_decode_keeps_iff {f : Frame} (hf : f.Uniform) {identifier : UInt32} {length : ℕ}
    {mem : Memory} {e : J1939Exception}
    (h : ((decode identifier length).run f mem).1 = .error e) :
    f.SameContent ((decode identifier length).run f mem).2 ↔
      f.HoldsBefore identifier length mem := by
  rw [HoldsBefore]
  by_cases hmatch : lookupPgn identifier = getPGN f
  · rw [if_pos hmatch]
    rw [run_decode_of_match hmatch] at h ⊢
    constructor
    · intro hsame
      have hheader := hsame.header
      rw [IsJ1939Frame.decodeData_header, IsJ1939Frame.header_withHeader] at hheader
      rw [hheader, IsJ1939Frame.withHeader_header] at h hsame
      exact ⟨(receivedHeader_eq_iff _ _).mp hheader, (sameContent_decodeData hf h).mp hsame⟩
    · rintro ⟨hheader, hholds⟩
      rw [(receivedHeader_eq_iff _ _).mpr hheader, IsJ1939Frame.withHeader_header] at h ⊢
      exact (sameContent_decodeData hf h).mpr hholds
  · rw [if_neg hmatch, snd_run_decode_of_mismatch_eq hmatch, sameContent_withHeader_iff,
      receivedDestination_eq_iff]

end Frame

/-- A request that holds the header of an identifier. -/
def receivedRequest : RequestFrame :=
  { RequestFrame.new with priority := 6, srcAddr := 0x21, dstAddr := broadcastAddress }

/-- A request of eight bytes is rejected, and a new object keeps the header of the message. -/
theorem rejectedRequest_not_kept :
    ((decode 0x18EAFF21 8).run (Frame.request RequestFrame.new) fun _ => 0) =
        (.error (.requestLength 8), Frame.request receivedRequest) ∧
      ¬(Frame.request RequestFrame.new).SameContent (Frame.request receivedRequest) := by
  refine ⟨rfl, fun h => ?_⟩
  have hsrc := congrArg Header.srcAddr h.header
  exact absurd hsrc (by decide)

/-- An object that has received the same identifier before is left alone. -/
theorem rejectedRequest_kept :
    (Frame.request receivedRequest).SameContent
      ((decode 0x18EAFF21 8).run (Frame.request receivedRequest) fun _ => 0).2 := by
  have huniform : (Frame.request receivedRequest).Uniform := trivial
  have hthrows : ((decode 0x18EAFF21 8).run (Frame.request receivedRequest) fun _ => 0).1 =
      .error (.requestLength 8) := rfl
  have hmatch : lookupPgn 0x18EAFF21 = getPGN (Frame.request receivedRequest) := by decide
  have hheader : HasHeader (header (Frame.request receivedRequest)) 0x18EAFF21 :=
    ⟨fun _ => by decide, by decide, by decide⟩
  exact (Frame.failed_decode_keeps_iff huniform hthrows).mpr
    ((if_pos hmatch).mpr ⟨hheader, trivial⟩)

end J1939
