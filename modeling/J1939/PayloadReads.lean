import J1939.Acceptance

/-!
# Which bytes are read

Every frame class checks the length of a payload before it reads it, but `DM1`: its
lamp statuses are decoded with a length of their own.
-/

namespace J1939

/-! ### The transport frames and the other frames of fixed size -/

theorem TPCMFrame.within_decodeCtrl (ctrlType : UInt8) : (decodeCtrl ctrlType).Within 8 := by
  have hpair : ∀ g : UInt8 → UInt8 → TPCMFrame → TPCMFrame,
      ∀ {m : Method TPCMFrame J1939Exception Unit}, m.Within 7 →
        (do
          let b0 ← Method.byte 0
          let b1 ← Method.byte 1
          Method.modify (g b0 b1)
          m : Method TPCMFrame J1939Exception Unit).Within 7 :=
    fun _ _ hm => .byte_bind (by decide) fun _ => .byte_bind (by decide) fun _ => .modify_bind hm
  have hpackets : (do
      let b2 ← Method.byte 2
      Method.modify fun f : TPCMFrame => { f with totalPackets := b2 } :
        Method TPCMFrame J1939Exception Unit).Within 7 :=
    .byte_bind (by decide) fun _ => .modify _
  unfold decodeCtrl
  split_ifs
  · refine .advance (hpair (fun b0 b1 => setTotalMsgSizeBytes b0 b1) ?_)
    exact .byte_bind (by decide) fun _ => .modify_bind (.byte_bind (by decide) fun _ => .modify _)
  · exact .advance (.byte_bind (by decide) fun _ => .modify_bind
      (.byte_bind (by decide) fun _ => .modify _))
  · exact .advance (hpair (fun b0 b1 => setTotalMsgSizeBytes b0 b1) hpackets)
  · exact .advance (.byte_bind (by decide) fun _ => .modify _)
  · exact .advance (hpair (fun b0 b1 => setTotalMsgSizeBytes b0 b1) hpackets)
  · exact .throw _

theorem TPCMFrame.within_decodeData (length : ℕ) : (decodeData length).Within length := by
  refine .throwIf_bind fun hlength => ?_
  obtain rfl : length = 8 := not_not.mp hlength
  refine .byte_bind (by decide) fun ctrlType => .modify_bind
    (.bind (within_decodeCtrl ctrlType) fun _ => ?_)
  exact .byte_bind (by decide) fun _ => .byte_bind (by decide) fun _ =>
    .byte_bind (by decide) fun _ => .modify _

theorem TPDTFrame.within_decodeData (length : ℕ) : (decodeData length).Within length := by
  refine .throwIf_bind fun hlength => ?_
  obtain rfl : length = 8 := not_not.mp hlength
  exact .byte_bind (by decide) fun _ => .modify_bind
    (.bind (.bytes (by decide)) fun _ => .modify _)

theorem FMS1Frame.within_decodeData (length : ℕ) : (decodeData length).Within length := by
  refine .throwIf_bind fun hlength => ?_
  obtain rfl : length = 8 := not_not.mp hlength
  refine .byte_bind (by decide) fun _ => .throwIf_bind fun _ => .modify_bind
    (.modify_bind (.modify_bind (.forEach fun i hi => ?_)))
  obtain ⟨-, hlt⟩ := List.mem_range'_1.mp hi
  exact .byte_bind hlt fun _ => .modify_bind (.modify _)

theorem AddressClaimFrame.within_decodeData (length : ℕ) : (decodeData length).Within length := by
  refine .throwIf_bind fun hlength => ?_
  obtain rfl : length = 8 := not_not.mp hlength
  exact .byte_bind (by decide) fun _ => .byte_bind (by decide) fun _ =>
    .byte_bind (by decide) fun _ => .byte_bind (by decide) fun _ =>
    .byte_bind (by decide) fun _ => .byte_bind (by decide) fun _ =>
    .byte_bind (by decide) fun _ => .byte_bind (by decide) fun _ => .modify _

theorem RequestFrame.within_decodeData (length : ℕ) : (decodeData length).Within length := by
  refine .throwIf_bind fun hlength => ?_
  obtain rfl : length = 3 := not_not.mp hlength
  exact .byte_bind (by decide) fun _ => .modify_bind (.byte_bind (by decide) fun _ =>
    .modify_bind (.byte_bind (by decide) fun _ => .modify_bind (.modify _)))

/-! ### The bytes of SPNs of fixed size -/

/-- The bytes that belong to an SPN. -/
def SPN.byteIndices (spn : SPN) : List ℕ :=
  (List.range spn.getByteSize.toNat).map (spn.getOffset + ·)

theorem SPNNumeric.accessed_forEach_decodeByte (is : List ℕ) (spn : SPNNumeric) (mem : Memory) :
    (Method.forEach is decodeByte).accessed spn mem = is := by
  induction is generalizing spn with
  | nil => rfl
  | cons i is ih =>
    rw [Method.forEach, Method.accessed_bind_of_ok (run_decodeByte i spn mem), ih]
    rfl

/-- A numeric SPN reads all of its bytes and a status SPN reads its byte. -/
theorem SPN.accessed_decode {length : ℕ} {spn : SPN} (hfixed : spn.isString = false)
    (hfits : spn.Fits length) (mem : Memory) :
    (SPN.decode (length - spn.getOffset)).accessed spn mem =
      List.range spn.getByteSize.toNat := by
  cases spn with
  | numeric n =>
    have hcall : (SPN.decode (length - n.spec.offset)).accessed (numeric n) mem = _ :=
      Method.accessed_onPart (fun _ => n) (fun _ => numeric) _ (numeric n) mem
    have hguard : ¬(n.getByteSize.toNat > length - n.spec.offset ∨
        n.getByteSize.toNat > spnNumericMaxByteSize) :=
      not_or.mpr ⟨Nat.not_lt.mpr hfits.2, Nat.not_lt.mpr n.numSpec.byteSize_le⟩
    refine hcall.trans ?_
    rw [SPNNumeric.decode, Method.accessed_get_bind, Method.accessed_throwIf_bind, if_neg hguard,
      Method.accessed_modify_bind, SPNNumeric.accessed_forEach_decodeByte]
    rfl
  | status s =>
    have hcall : (SPN.decode (length - s.spec.offset)).accessed (status s) mem = _ :=
      Method.accessed_onPart (fun _ => s) (fun _ => status) _ (status s) mem
    refine hcall.trans ?_
    rw [SPNStatus.decode, Method.accessed_get_bind, Method.accessed_throwIf_bind,
      if_neg s.not_formatIncorrect]
    rfl
  | string s => cases hfixed

theorem accessed_decodeAt_fixed {length : ℕ} {done : List SPN} {spn : SPN} {todo : List SPN}
    (hfixed : spn.isString = false) (hfits : spn.Fits length) (mem : Memory) :
    (decodeAt length done.length).accessed (done ++ spn :: todo) mem = spn.byteIndices := by
  have hget : (done ++ spn :: todo)[done.length]? = some spn := by simp
  have hguard : ¬spn.getOffset ≥ length := by
    cases spn with
    | numeric n => exact Nat.not_le.mpr hfits.1
    | status s => exact Nat.not_le.mpr hfits
    | string s => cases hfixed
  rw [decodeAt, Method.accessed_get_bind, hget]
  simp only [Method.accessed_throwIf_bind]
  rw [if_neg hguard, Method.accessed_bind, Method.accessed_advance, Method.accessed_onPart,
    SPN.accessed_decode hfixed hfits]
  generalize (Method.advance spn.getOffset _).run (done ++ spn :: todo) mem = r
  -- behind the call of the SPN nothing is read
  obtain ⟨_ | _, s⟩ := r
  · exact List.append_nil _
  · simp only [hfixed]
    exact List.append_nil _

/-- A frame without strings whose SPNs fit reads the bytes of its SPNs, in order. -/
theorem accessed_decodeRest_fixed {length : ℕ} (done todo : List SPN)
    (hfixed : ∀ spn ∈ todo, spn.isString = false) (hfits : ∀ spn ∈ todo, spn.Fits length)
    (mem : Memory) :
    (decodeRest length done todo).accessed (done ++ todo) mem = todo.flatMap SPN.byteIndices := by
  induction todo generalizing done with
  | nil => rfl
  | cons spn todo ih =>
    rw [List.forall_mem_cons] at hfixed hfits
    rw [decodeRest_cons length done spn (spn.decoded mem) todo todo rfl, List.flatMap_cons]
    rcases @run_decodeAt_fixed length done spn todo hfixed.1 mem with
      ⟨-, hrun⟩ | ⟨hnot, -⟩
    · have hsplit : done ++ spn.decoded mem :: todo = (done ++ [spn.decoded mem]) ++ todo := by
        simp
      rw [Method.accessed_bind_of_ok hrun, accessed_decodeAt_fixed hfixed.1 hfits.1, hsplit,
        ih _ hfixed.2 hfits.2]
    · exact absurd hfits.1 hnot

theorem accessed_decodeSpns_fixed {length : ℕ} {spns : List SPN}
    (hfixed : ∀ spn ∈ spns, spn.isString = false) (hfits : ∀ spn ∈ spns, spn.Fits length)
    (mem : Memory) :
    (decodeSpns length).accessed spns mem = spns.flatMap SPN.byteIndices := by
  have hrest := accessed_decodeRest_fixed [] spns hfixed hfits mem
  rw [decodeSpns, Method.accessed_get_bind, List.range_eq_range']
  exact hrest

/-! ### Active trouble codes -/

theorem DTC.within_decode {length : ℕ} (h : 4 ≤ length) : decode.Within length :=
  .byte_bind (by omega) fun _ => .throwIf_bind fun _ => .byte_bind (by omega) fun _ =>
    .modify_bind (.byte_bind (by omega) fun _ => .modify_bind (.byte_bind (by omega) fun _ =>
      .modify_bind (.modify _)))

theorem DM1.add_dtcSize_le {offset length o : ℕ} (h : o ∈ dtcOffsets offset length) :
    o + dtcSize ≤ length := by
  obtain ⟨k, hk, rfl⟩ := List.mem_map.mp h
  rw [List.mem_range, Nat.lt_div_iff_mul_lt (by decide)] at hk
  simp only [dtcSize] at hk ⊢
  omega

/-- The loop over the trouble codes respects the length. -/
theorem DM1.within_forEach_decodeDtcAt (offset length : ℕ) :
    (Method.forEach (dtcOffsets offset length) decodeDtcAt).Within length := by
  refine .forEach fun o ho => .bind (.advance (.onPart (DTC.within_decode ?_))) fun _ => .modify _
  have hle := add_dtcSize_le ho
  simp only [dtcSize] at hle
  omega

/-- A `DM1` reads the first two bytes whatever the length is. -/
theorem DM1.within_decodeData_iff {f : DM1} (h : f.HasLamps) (length : ℕ) (mem : Memory) :
    (∀ i ∈ (decodeData length).accessed f mem, i < length) ↔ 2 ≤ length := by
  have hlamps : (GenericFrame.decodeData f.toGenericFrame.getDataLength).accessed
      f.toGenericFrame mem = f.spns.values.flatMap SPN.byteIndices := by
    rw [GenericFrame.decodeData, Method.accessed_onPart]
    exact accessed_decodeSpns_fixed h.isString h.fits mem
  rw [decodeData, Method.accessed_get_bind, Method.accessed_bind, Method.accessed_onPart, hlamps]
  constructor
  · intro hwithin
    obtain ⟨spn, hspn, hoffset⟩ := h.exists_getOffset (by decide : 1 < 2)
    have hindex : 1 ∈ spn.byteIndices := by
      rw [SPN.byteIndices, (h.getOffset_lt spn hspn).2, hoffset]
      decide
    exact hwithin 1 (List.mem_append_left _ (List.mem_flatMap.mpr ⟨spn, hspn, hindex⟩))
  · intro htwo i hi
    rcases List.mem_append.mp hi with hi | hi
    · obtain ⟨spn, hspn, hindex⟩ := List.mem_flatMap.mp hi
      obtain ⟨hoffset, hsize⟩ := h.getOffset_lt spn hspn
      obtain ⟨k, hk, rfl⟩ := List.mem_map.mp hindex
      rw [hsize, List.mem_range] at hk
      have hk' : k < 1 := hk
      omega
    · split at hi
      · exact (Method.Within.onPart (within_forEach_decodeDtcAt _ length)) _ _ i hi
      · cases hi

/-! ### Any frame -/

/-- Decoding a payload of `length` bytes returns a frame or null or throws a
`J1939DecodeException`, and reads only bytes of the payload. -/
def DecodesSafely (factory : J1939Factory) (id : UInt32) (length : ℕ) (mem : Memory) : Prop :=
  ((∃ retFrame, (factory.getJ1939Frame id length).value mem = .ok retFrame) ∨
      ∃ e, (factory.getJ1939Frame id length).value mem = .error e ∧ e.isDecode = true) ∧
    ∀ i ∈ (factory.getJ1939Frame id length).accessed mem, i < length

/-- The accesses of a well-formed frame. -/
theorem Frame.within_decode_iff {frame : Frame} (h : frame.WellFormed) {id : UInt32}
    (hmatch : lookupPgn id = getPGN frame) (length : ℕ) (mem : Memory) :
    (∀ i ∈ (decode id length).accessed frame mem, i < length) ↔
      ∀ f, frame = .dm1 f → 2 ≤ length := by
  have hsafe : ∀ {F : Type} {f : F} {wrap : F → Frame}
      {m : Method F J1939Exception Unit}, m.Within length →
      ∀ i ∈ (call f wrap m).accessed mem, i < length := by
    intro F f wrap m hm i hi
    rw [accessed_call] at hi
    exact hm f mem i hi
  rw [accessed_decode, if_pos hmatch]
  cases frame with
  | tpcm f => exact iff_of_true (hsafe (TPCMFrame.within_decodeData length)) (by simp)
  | tpdt f => exact iff_of_true (hsafe (TPDTFrame.within_decodeData length)) (by simp)
  | fms1 f => exact iff_of_true (hsafe (FMS1Frame.within_decodeData length)) (by simp)
  | addressClaim f =>
    exact iff_of_true (hsafe (AddressClaimFrame.within_decodeData length)) (by simp)
  | request f => exact iff_of_true (hsafe (RequestFrame.within_decodeData length)) (by simp)
  | generic g => exact iff_of_true (hsafe (GenericFrame.within_decodeData length)) (by simp)
  | dm1 f =>
    have hcall : (decodeData length).accessed
        (withHeader (Frame.dm1 f) (receivedHeader (header (Frame.dm1 f)) id)) mem =
          (DM1.decodeData length).accessed
            (withHeader f (receivedHeader (header (Frame.dm1 f)) id)) mem :=
      accessed_call _ _ _ _
    have hiff := DM1.within_decodeData_iff (f := withHeader f
      (receivedHeader (header (Frame.dm1 f)) id)) h length mem
    rw [hcall, hiff]
    exact ⟨fun htwo _ _ => htwo, fun hdm1 => hdm1 f rfl⟩

/-- Decoding stays within the payload exactly when it is not a payload of fewer than two
bytes for a `DM1` frame. -/
theorem decodesSafely_iff {factory : J1939Factory} (h : factory.WellFormed) (id : UInt32)
    (length : ℕ) (mem : Memory) :
    DecodesSafely factory id length mem ↔
      ∀ f, factory.getFrameByPgn (lookupPgn id) = some (.dm1 f) → 2 ≤ length := by
  have houtcome := h.value_getJ1939Frame id length mem
  have hreads := J1939Factory.accessed_getJ1939Frame factory id length mem
  unfold DecodesSafely J1939Factory.getFrameByPgn
  rcases houtcome with ⟨hnone, hvalue⟩ | ⟨frame, hfind, hmatch, hvalue⟩
  · simp only [hnone] at hreads
    rw [hreads]
    refine iff_of_true ⟨Or.inl ⟨none, hvalue⟩, by simp⟩ fun f hf => ?_
    rw [hnone] at hf
    cases hf
  · simp only [hfind] at hreads
    rw [hreads, Frame.within_decode_iff (h.frames _ _ hfind) hmatch, hfind]
    simp only [Option.some.injEq]
    refine and_iff_right ?_
    rcases hvalue with ⟨-, retFrame, -, hvalue⟩ | ⟨-, e, hvalue, hdecode⟩
    · exact Or.inl ⟨_, hvalue⟩
    · exact Or.inr ⟨e, hvalue, hdecode⟩

/-- A DM1 payload of eight bytes decodes safely. -/
theorem dm1_decodesSafely :
    DecodesSafely J1939Factory.new 0x18FECA00 8 fun _ => 0 :=
  (decodesSafely_iff J1939Factory.wellFormed_new 0x18FECA00 8 _).mpr fun _ _ => by decide

/-- An empty DM1 payload is read nevertheless. -/
theorem emptyDm1_not_decodesSafely :
    ¬DecodesSafely J1939Factory.new 0x18FECA00 0 fun _ => 0 := by
  rintro ⟨-, hwithin⟩
  exact absurd (hwithin 0 (by decide)) (Nat.lt_irrefl 0)

end J1939
