import J1939.Filters
import J1939.FixedLayout
import J1939.Sniffer

/-!
# The filters of the sniffer

The sniffer has the receivers filter the frames of one PGN, and the transport frames that can
carry them. A filter compares the PGN bits of an identifier. The factory looks frames up under
these bits as well, but without those that are no part of the PGN in PDU format 1.
-/

namespace J1939

@[simp] def srcAddrOffset : UInt32 := 0

/-! ### What `main` installs -/

section Main

variable (options : SnifferOptions) (source : UInt8) (factory : J1939Factory)

/-- The frame that `main` searches by the given PGN or title. -/
def searchFrame : Option Frame :=
  if options.pgn ≠ 0 then factory.getFrameByPgn options.pgn
  else if options.title ≠ "" then factory.getFrameByName options.title
  else none

def filterAddr : UInt32 :=
  if source = invalidAddress then 0 else source.toUInt32 <<< srcAddrOffset

def filterAddrMask : UInt32 :=
  if source = invalidAddress then 0 else srcAddrMask <<< srcAddrOffset

def dataFilter (frame : Frame) : CanFilter :=
  ⟨(getPGN frame <<< pgnOffset) ||| filterAddr source,
    (pgnMask <<< pgnOffset) ||| filterAddrMask source, true, false⟩

/-- The filters of the transport frames compare the PDU format. -/
def transportFilter (pgn : UInt32) : CanFilter :=
  ⟨(pgn <<< pgnOffset) ||| filterAddr source,
    ((pduFmtMask <<< pduFmtOffset) <<< pgnOffset) ||| filterAddrMask source, true, false⟩

def tpcmFilter : CanFilter := transportFilter source tpCmPgn

def tpdtFilter : CanFilter := transportFilter source tpDtPgn

/-- The filters of the sniffer, when `main` finds the frame. The global `source` is
`invalidAddress` unless the option gives another address. -/
def snifferFilters : Option (List CanFilter) :=
  (searchFrame options factory).map fun frame =>
    [dataFilter source frame, tpcmFilter source, tpdtFilter source]

end Main

/-! ### What the filters are for -/

/-- The frames that the sniffer waits for: those of the PGN asked for, and the transport
frames for all nodes. -/
def AwaitedFrame (options : SnifferOptions) (factory : J1939Factory) (frame : Frame) : Prop :=
  (∃ asked ∈ searchFrame options factory, getPGN frame = getPGN asked) ∨
    getDstAddr frame = broadcastAddress ∧ (getPGN frame = tpCmPgn ∨ getPGN frame = tpDtPgn)

/-- The identifier has the source address asked for, if there is one. -/
def FromSource (source : UInt8) (id : UInt32) : Prop :=
  source ≠ invalidAddress → (id &&& srcAddrMask).toUInt8 = source

instance (source : UInt8) (id : UInt32) : Decidable (FromSource source id) :=
  inferInstanceAs (Decidable (_ → _))

/-! ### The bits that a filter compares -/

section Compared

variable {source : UInt8} {id : UInt32}

theorem filterAddr_and {mask : UInt32} (h : srcAddrMask &&& mask = 0) :
    filterAddr source &&& mask = 0 := by
  unfold filterAddr
  split_ifs
  · exact UInt32.zero_and
  · have hlow : source.toUInt32 <<< srcAddrOffset = source.toUInt32 &&& srcAddrMask := by
      apply UInt32.toNat_inj.mp
      have hlt := source.toNat_lt
      rw [Bits.toNat_low _ srcAddrMask (w := 8) rfl, UInt32.toNat_shiftLeft,
        UInt8.toNat_toUInt32]
      change source.toNat <<< 0 % 2 ^ 32 = _
      rw [Nat.shiftLeft_zero]
      omega
    rw [hlow, UInt32.and_assoc, h, UInt32.and_zero]

/-- A shifted PGN has no bits in the source address. -/
theorem shifted_and_filterAddrMask (pgn : UInt32) :
    (pgn <<< pgnOffset) &&& filterAddrMask source = 0 := by
  unfold filterAddrMask
  split_ifs
  · exact UInt32.and_zero
  · apply UInt32.toNat_inj.mp
    have hmask : (srcAddrMask <<< srcAddrOffset).toNat = 2 ^ 8 - 1 := rfl
    rw [Bits.toNat_low _ _ hmask, UInt32.toNat_shiftLeft]
    change pgn.toNat <<< 8 % 2 ^ 32 % 2 ^ 8 = 0
    rw [Nat.shiftLeft_eq]
    omega

/-- The address bits are those of the source asked for. -/
theorem filterAddr_passes_iff :
    filterAddr source &&& filterAddrMask source = id &&& filterAddrMask source ↔
      FromSource source id := by
  unfold filterAddr filterAddrMask FromSource
  by_cases hsource : source = invalidAddress
  · rw [if_pos hsource, if_pos hsource, UInt32.and_zero, UInt32.and_zero]
    exact iff_of_true rfl (absurd hsource)
  · have hlt := source.toNat_lt
    have hmask : (srcAddrMask <<< srcAddrOffset).toNat = 2 ^ 8 - 1 := rfl
    have haddr : (source.toUInt32 <<< srcAddrOffset).toNat = source.toNat := by
      rw [UInt32.toNat_shiftLeft, UInt8.toNat_toUInt32]
      change source.toNat <<< 0 % 2 ^ 32 = _
      rw [Nat.shiftLeft_zero]
      omega
    rw [if_neg hsource, if_neg hsource, ← UInt32.toNat_inj, ← UInt8.toNat_inj,
      Bits.toNat_low _ _ hmask, Bits.toNat_low _ _ hmask, haddr, UInt32.toNat_toUInt8,
      Bits.toNat_low id srcAddrMask (w := 8) rfl]
    constructor
    · intro h _
      omega
    · intro h
      have := h hsource
      omega

/-- The data filter passes the identifiers whose PGN bits are the PGN of the frame. -/
theorem dataFilter_passes_iff (frame : Frame) :
    (dataFilter source frame).id &&& (dataFilter source frame).mask =
        id &&& (dataFilter source frame).mask ↔
      getPGN frame &&& pgnMask = identifierPgn id ∧ FromSource source id := by
  have haddr : filterAddr source &&& (pgnMask <<< pgnOffset) = 0 := filterAddr_and (by decide)
  rw [← filterAddr_passes_iff, dataFilter,
    Bits.or_and_or_eq_iff id (shifted_and_filterAddrMask _) haddr,
    Bits.shifted_and_eq_iff _ _ pgnMask pgnOffset (by decide) (by decide)]
  exact Iff.rfl

/-- A transport filter passes the identifiers with the PDU format of its PGN. -/
theorem transportFilter_passes_iff (pgn : UInt32) :
    (transportFilter source pgn).id &&& (transportFilter source pgn).mask =
        id &&& (transportFilter source pgn).mask ↔
      pgn &&& (pduFmtMask <<< pduFmtOffset) =
          (id >>> pgnOffset) &&& (pduFmtMask <<< pduFmtOffset) ∧ FromSource source id := by
  have haddr : filterAddr source &&& ((pduFmtMask <<< pduFmtOffset) <<< pgnOffset) = 0 :=
    filterAddr_and (by decide)
  rw [← filterAddr_passes_iff, transportFilter,
    Bits.or_and_or_eq_iff id (shifted_and_filterAddrMask _) haddr,
    Bits.shifted_and_eq_iff _ _ (pduFmtMask <<< pduFmtOffset) pgnOffset (by decide) (by decide)]

end Compared

/-! ### The bits that the factory looks up -/

section LookedUp

variable {id : UInt32}

theorem lookupPgn_and_pgnMask (id : UInt32) : lookupPgn id &&& pgnMask = lookupPgn id := by
  apply UInt32.toNat_inj.mp
  rw [Bits.toNat_low _ pgnMask (w := 18) rfl, lookupPgn_toNat]
  split_ifs <;> omega

/-- The look-up keeps all PGN bits in PDU format 2, and when those that it drops are zero. -/
theorem lookupPgn_eq_identifierPgn_iff :
    lookupPgn id = identifierPgn id ↔
      getPDUFormatGroup (identifierPgn id) = .pduFormat2 ∨
        identifierPgn id < 0x10000 ∧ identifierPgn id &&& dstAddrMask = 0 := by
  have hbound : (0x10000 : UInt32).toNat = 65536 := rfl
  have hzero : (0 : UInt32).toNat = 0 := rfl
  rw [getPDUFormatGroup_eq_two_iff, UInt32.lt_iff_toNat_lt, ← UInt32.toNat_inj,
    ← UInt32.toNat_inj, Bits.toNat_low _ dstAddrMask (w := 8) rfl, lookupPgn_toNat,
    identifierPgn_toNat, hbound, hzero]
  split_ifs <;> omega

/-- For a PGN of PDU format 1 without page and destination, looking it up is comparing the
PDU format. -/
theorem lookupPgn_eq_iff {pgn : UInt32} (h240 : pgn.toNat / 256 < 240)
    (hdst : pgn.toNat % 256 = 0) :
    lookupPgn id = pgn ↔ pgn &&& (pduFmtMask <<< pduFmtOffset) =
      (id >>> pgnOffset) &&& (pduFmtMask <<< pduFmtOffset) := by
  have hmask : (pduFmtMask <<< pduFmtOffset).toNat = (2 ^ 8 - 1) * 2 ^ 8 := rfl
  have hshift : (id >>> pgnOffset).toNat = id.toNat / 256 := by
    rw [UInt32.toNat_shiftRight, Nat.shiftRight_eq_div_pow]
    rfl
  rw [← UInt32.toNat_inj, ← UInt32.toNat_inj, Bits.toNat_inPlace _ _ hmask,
    Bits.toNat_inPlace _ _ hmask, hshift, lookupPgn_toNat]
  split_ifs <;> omega

end LookedUp

/-! ### What the sniffer receives -/

section Filtering

variable {options : SnifferOptions} {source : UInt8} {factory : J1939Factory}
  {filters : List CanFilter} {id : UInt32}

/-- The filters pass the identifiers with the PGN bits of the frame asked for, and those of
the transport frames. -/
theorem snifferFilters_pass_iff (hfilters : snifferFilters options source factory = some filters)
    (hsource : FromSource source id) :
    filter filters id = true ↔
      (∃ asked ∈ searchFrame options factory, getPGN asked &&& pgnMask = identifierPgn id) ∨
        lookupPgn id = tpCmPgn ∨ lookupPgn id = tpDtPgn := by
  obtain ⟨asked, hasked, rfl⟩ := Option.map_eq_some_iff.mp hfilters
  have hcm : lookupPgn id = tpCmPgn ↔ _ := lookupPgn_eq_iff (by decide) (by decide)
  have hdt : lookupPgn id = tpDtPgn ↔ _ := lookupPgn_eq_iff (by decide) (by decide)
  rw [hasked, hcm, hdt]
  simp only [filter, List.cons_ne_nil, if_false, List.any_cons, List.any_nil, Bool.or_false,
    Bool.or_eq_true, decide_eq_true_eq, tpcmFilter, tpdtFilter, dataFilter_passes_iff,
    transportFilter_passes_iff, hsource, and_true, Option.mem_def, Option.some.injEq,
    exists_eq_left']

/-- A frame that the sniffer waits for passes the filters exactly when it is a transport frame,
has a PGN of PDU format 2, or comes without data page bits and destination address. -/
theorem awaitedFrame_passes_iff {length : ℕ} {mem : Memory} {frame : Frame}
    (hfilters : snifferFilters options source factory = some filters)
    (hvalue : (factory.getJ1939Frame id length).value mem = .ok (some frame))
    (hawaited : AwaitedFrame options factory frame) (hsource : FromSource source id) :
    filter filters id = true ↔
      (lookupPgn id = tpCmPgn ∨ lookupPgn id = tpDtPgn) ∨
        getPDUFormatGroup (identifierPgn id) = .pduFormat2 ∨
          identifierPgn id < 0x10000 ∧ identifierPgn id &&& dstAddrMask = 0 := by
  have hlookup := J1939Factory.getPGN_of_value hvalue
  rw [snifferFilters_pass_iff hfilters hsource, ← lookupPgn_eq_identifierPgn_iff, or_comm]
  by_cases htransport : lookupPgn id = tpCmPgn ∨ lookupPgn id = tpDtPgn
  · exact iff_of_true (.inl htransport) (.inl htransport)
  · apply or_congr_right
    -- the frame is one of the PGN asked for
    rcases hawaited with ⟨asked, hasked, hpgn⟩ | ⟨-, hpgn⟩
    · have hkept : getPGN asked &&& pgnMask = lookupPgn id := by
        rw [← hpgn, ← hlookup, lookupPgn_and_pgnMask]
      constructor
      · rintro ⟨other, hother, hbits⟩
        obtain rfl := Option.mem_unique hasked hother
        exact hkept.symm.trans hbits
      · intro hbits
        exact ⟨asked, hasked, hkept.trans hbits⟩
    · rw [← hlookup] at hpgn
      exact absurd hpgn htransport

/-- The engine frame comes through to a sniffer that asks for it from the engine. -/
theorem engineFrame_passes :
    ∃ filters frame,
      snifferFilters { pgn := 0xF004 } 0x00
        (J1939Factory.new.registerFrames [.generic engineFrame]) = some filters ∧
      ((J1939Factory.new.registerFrames [.generic engineFrame]).getJ1939Frame 0x0CF00400 5).value
        (Memory.ofList [0x25, 0, 0, 0xE0, 0x2E] fun _ => 0) = .ok (some frame) ∧
      filter filters 0x0CF00400 = true := by
  set factory := J1939Factory.new.registerFrames [.generic engineFrame]
  obtain ⟨frame, hvalue, hpgn⟩ : ∃ frame, (factory.getJ1939Frame 0x0CF00400 5).value
      (Memory.ofList [0x25, 0, 0, 0xE0, 0x2E] fun _ => 0) = .ok (some frame) ∧
      getPGN frame = 0xF004 := ⟨_, rfl, rfl⟩
  have hfound : searchFrame { pgn := 0xF004 } factory = some (.generic engineFrame) := rfl
  have hfilters : snifferFilters { pgn := 0xF004 } 0x00 factory =
      some [dataFilter 0x00 (.generic engineFrame), tpcmFilter 0x00, tpdtFilter 0x00] := by
    rw [snifferFilters, hfound, Option.map_some]
  have hawaited : AwaitedFrame { pgn := 0xF004 } factory frame := .inl ⟨_, hfound, hpgn⟩
  have hpasses := (awaitedFrame_passes_iff hfilters hvalue hawaited (by decide)).mpr (by decide)
  exact ⟨_, frame, hfilters, hvalue, hpasses⟩

/-- An address claim for all nodes comes with their address in the PGN bits, and a sniffer for
address claims does not receive it. -/
theorem addressClaim_not_passes :
    ∃ filters frame,
      snifferFilters { pgn := addressClaimPgn } invalidAddress J1939Factory.new = some filters ∧
      (J1939Factory.new.getJ1939Frame 0x18EEFF00 8).value
        (Memory.ofList [0, 0, 0, 0, 0, 0, 0, 0] fun _ => 0) = .ok (some frame) ∧
      AwaitedFrame { pgn := addressClaimPgn } J1939Factory.new frame ∧
      FromSource invalidAddress 0x18EEFF00 ∧ filter filters 0x18EEFF00 = false := by
  obtain ⟨frame, hvalue, hpgn⟩ : ∃ frame, (J1939Factory.new.getJ1939Frame 0x18EEFF00 8).value
      (Memory.ofList [0, 0, 0, 0, 0, 0, 0, 0] fun _ => 0) = .ok (some frame) ∧
      getPGN frame = addressClaimPgn := ⟨_, rfl, rfl⟩
  have hfound : searchFrame { pgn := addressClaimPgn } J1939Factory.new =
      some (.addressClaim AddressClaimFrame.new) := rfl
  have hfilters : snifferFilters { pgn := addressClaimPgn } invalidAddress J1939Factory.new =
      some [dataFilter invalidAddress (.addressClaim AddressClaimFrame.new),
        tpcmFilter invalidAddress, tpdtFilter invalidAddress] := by
    rw [snifferFilters, hfound, Option.map_some]
  exact ⟨_, frame, hfilters, hvalue, .inl ⟨_, hfound, hpgn⟩, by decide, by decide⟩

end Filtering

end J1939
