import J1939.Lib.Bits

/-!
# CAN filters

`SocketCanReceiver` has the kernel filter the frames, `CommonCanReceiver` compares the
identifiers itself. A filter says which identifiers it lets through, and whether it is for
standard frames, for extended frames or for both.
-/

namespace J1939

@[simp] def canEffFlag : UInt32 := 0x80000000
@[simp] def canEffMask : UInt32 := 0x1FFFFFFF
@[simp] def canSffMask : UInt32 := 0x7FF

/-- The identifier of a frame on the bus, of 11 or 29 bits. -/
structure ReceivedId where
  extendedFormat : Bool
  id : UInt32
  id_le : id ≤ if extendedFormat then canEffMask else canSffMask
  deriving DecidableEq

structure CanFilter where
  id : UInt32
  mask : UInt32
  filterExtFrame : Bool
  filterStdFrame : Bool
  deriving DecidableEq, Repr

/-- `can_filter` of SocketCAN. -/
structure KernelFilter where
  canId : UInt32
  canMask : UInt32
  deriving DecidableEq, Repr

namespace CanFilter

/-- The filter that `SocketCanReceiver::setFilters` installs for `iter`. -/
def kernelFilter (iter : CanFilter) : KernelFilter :=
  let canId := iter.id &&& canEffMask
  let canMask := iter.mask &&& canEffMask
  if iter.filterStdFrame = iter.filterExtFrame then ⟨canId, canMask &&& ~~~canEffFlag⟩
  else
    let canMask := canMask ||| canEffFlag
    if iter.filterExtFrame then ⟨canId ||| canEffFlag, canMask⟩
    else ⟨canId, canMask &&& canSffMask⟩

end CanFilter

/-- `SocketCanReceiver::setFilters` on an open socket: the filters handed to the kernel. -/
def setFilters (filters : List CanFilter) : Option (List KernelFilter) :=
  if filters = [] then none else some (filters.map CanFilter.kernelFilter)

namespace ReceivedId

/-- The identifier as the kernel sees it: bit 31 is set for an extended frame. -/
def canId (x : ReceivedId) : UInt32 :=
  if x.extendedFormat then x.id ||| canEffFlag else x.id

end ReceivedId

/-- A kernel filter matches a frame. -/
def KernelFilter.Matches (filter : KernelFilter) (x : ReceivedId) : Prop :=
  x.canId &&& filter.canMask = filter.canId &&& filter.canMask

instance (filter : KernelFilter) (x : ReceivedId) : Decidable (filter.Matches x) :=
  inferInstanceAs (Decidable (_ = _))

/-- The kernel passes a frame that one of the installed filters matches. -/
def KernelPasses (installed : List KernelFilter) (x : ReceivedId) : Prop :=
  ∃ filter ∈ installed, filter.Matches x

instance (installed : List KernelFilter) (x : ReceivedId) : Decidable (KernelPasses installed x) :=
  inferInstanceAs (Decidable (∃ filter ∈ installed, _))

/-- `CommonCanReceiver::filter`. -/
def filter (filters : List CanFilter) (id : UInt32) : Bool :=
  if filters = [] then true
  else filters.any fun filter => filter.id &&& filter.mask = id &&& filter.mask

/-! ### What filters are for -/

namespace CanFilter

/-- The identifiers are equal under the given bits of the mask. -/
def Agrees (f : CanFilter) (bits : UInt32) (x : ReceivedId) : Prop :=
  f.id &&& (f.mask &&& bits) = x.id &&& (f.mask &&& bits)

instance (f : CanFilter) (bits : UInt32) (x : ReceivedId) : Decidable (f.Agrees bits x) :=
  inferInstanceAs (Decidable (_ = _))

/-- The filter is for frames of this kind. -/
def AcceptsKind (f : CanFilter) (x : ReceivedId) : Prop :=
  f.filterStdFrame = f.filterExtFrame ∨
    if x.extendedFormat then f.filterExtFrame = true else f.filterStdFrame = true

instance (f : CanFilter) (x : ReceivedId) : Decidable (f.AcceptsKind x) :=
  inferInstanceAs (Decidable (_ ∨ _))

/-- The filter is meant to accept the frame. -/
def Accepts (f : CanFilter) (x : ReceivedId) : Prop :=
  f.id &&& f.mask = x.id &&& f.mask ∧ f.AcceptsKind x

instance (f : CanFilter) (x : ReceivedId) : Decidable (f.Accepts x) :=
  inferInstanceAs (Decidable (_ ∧ _))

/-- The bits of the mask that keep a frame out: the kernel compares 11 of a filter for
standard frames and 29 of the others, and only `CommonCanReceiver` passes a standard frame
to a filter for extended ones. -/
def comparedBits (f : CanFilter) (x : ReceivedId) : UInt32 :=
  if f.filterStdFrame = f.filterExtFrame then canEffMask
  else if f.filterExtFrame then if x.extendedFormat then canEffMask else 0xFFFFFFFF
  else canSffMask

end CanFilter

/-- Both backends accept the frame exactly when one of the filters is meant to. -/
structure Faithful (filters : List CanFilter) (x : ReceivedId) : Prop where
  kernel : ∀ installed ∈ setFilters filters,
    (KernelPasses installed x ↔ ∃ f ∈ filters, f.Accepts x)
  common : filter filters x.id = true ↔ ∃ f ∈ filters, f.Accepts x

section Backends

variable {f : CanFilter} {x : ReceivedId}

theorem ReceivedId.id_and_canEffMask (x : ReceivedId) : x.id &&& canEffMask = x.id := by
  have hle := UInt32.le_iff_toNat_le.mp x.id_le
  have hbound : (if x.extendedFormat then canEffMask else canSffMask).toNat ≤ 0x1FFFFFFF := by
    split_ifs <;> decide
  apply UInt32.toNat_inj.mp
  rw [Bits.toNat_low x.id canEffMask (w := 29) rfl]
  omega

theorem ReceivedId.id_and_canEffFlag (x : ReceivedId) : x.id &&& canEffFlag = 0 := by
  rw [← x.id_and_canEffMask, UInt32.and_assoc]
  exact UInt32.and_zero

/-- Below the flag the kernel sees the identifier. -/
theorem ReceivedId.canId_and (x : ReceivedId) {bits : UInt32} (h : canEffFlag &&& bits = 0) :
    x.canId &&& bits = x.id &&& bits := by
  unfold canId
  split_ifs
  · exact Bits.or_and_of_disjoint x.id h
  · rfl

theorem ReceivedId.canId_and_canEffFlag (x : ReceivedId) :
    x.canId &&& canEffFlag = if x.extendedFormat then canEffFlag else 0 := by
  unfold canId
  split_ifs
  · rw [UInt32.or_comm, Bits.or_and_of_disjoint canEffFlag x.id_and_canEffFlag, UInt32.and_self]
  · exact x.id_and_canEffFlag

/-- Below the flag a kernel filter compares the identifiers. -/
theorem matches_agrees {canId bits : UInt32} (hmask : canEffFlag &&& bits = 0)
    (hid : canId &&& (f.mask &&& bits) = f.id &&& (f.mask &&& bits)) :
    x.canId &&& (f.mask &&& bits) = canId &&& (f.mask &&& bits) ↔ f.Agrees bits x := by
  rw [x.canId_and (Bits.and_and_eq_zero f.mask hmask), hid]
  exact eq_comm

theorem kernelFilter_matches_of_equal (h : f.filterStdFrame = f.filterExtFrame) :
    f.kernelFilter.Matches x ↔ f.Agrees canEffMask x := by
  have hmask : f.mask &&& canEffMask &&& ~~~canEffFlag = f.mask &&& canEffMask := by
    rw [UInt32.and_assoc]
    rfl
  simp only [CanFilter.kernelFilter, if_pos h, KernelFilter.Matches, hmask]
  exact matches_agrees (by decide) (Bits.and_and_and_of_subset f.id (by decide))

/-- A filter for extended frames has the kernel compare the flag as well. -/
theorem kernelFilter_matches_of_ext (h : f.filterStdFrame ≠ f.filterExtFrame)
    (hext : f.filterExtFrame = true) :
    f.kernelFilter.Matches x ↔ x.extendedFormat = true ∧ f.Agrees canEffMask x := by
  have hid : (f.id &&& canEffMask ||| canEffFlag) &&& (f.mask &&& canEffMask) =
      f.id &&& (f.mask &&& canEffMask) := by
    rw [Bits.or_and_of_disjoint _ (Bits.and_and_eq_zero f.mask (by decide)),
      Bits.and_and_and_of_subset f.id (by decide)]
  have hflag : (f.id &&& canEffMask ||| canEffFlag) &&& canEffFlag = canEffFlag := by
    rw [UInt32.or_comm, Bits.or_and_of_disjoint canEffFlag (by
      rw [UInt32.and_assoc]; exact UInt32.and_zero), UInt32.and_self]
  simp only [CanFilter.kernelFilter, if_neg h, if_pos hext, KernelFilter.Matches]
  rw [Bits.and_or_eq_iff, matches_agrees (by decide) hid, x.canId_and_canEffFlag, hflag, and_comm]
  apply and_congr_left'
  cases x.extendedFormat <;> decide

/-- A filter for standard frames has lost the flag: extended frames pass it as well. -/
theorem kernelFilter_matches_of_std (h : f.filterStdFrame ≠ f.filterExtFrame)
    (hext : f.filterExtFrame = false) :
    f.kernelFilter.Matches x ↔ f.Agrees canSffMask x := by
  have hmask : (f.mask &&& canEffMask ||| canEffFlag) &&& canSffMask = f.mask &&& canSffMask := by
    rw [Bits.or_and_of_disjoint _ (by decide), UInt32.and_assoc]
    rfl
  have hne : ¬f.filterExtFrame = true := by simp [hext]
  simp only [CanFilter.kernelFilter, if_neg h, if_neg hne, KernelFilter.Matches, hmask]
  exact matches_agrees (by decide) (Bits.and_and_and_of_subset f.id (by decide))

theorem CanFilter.Agrees.mono {bits more : UInt32} (h : f.Agrees more x)
    (hsub : more &&& bits = bits) : f.Agrees bits x := by
  have hbits : f.mask &&& bits = f.mask &&& more &&& bits := by
    rw [UInt32.and_assoc, hsub]
  unfold Agrees at *
  rw [hbits, ← UInt32.and_assoc, h, UInt32.and_assoc]

theorem CanFilter.agrees_all : f.Agrees 0xFFFFFFFF x ↔ f.id &&& f.mask = x.id &&& f.mask := by
  have hmask : f.mask &&& 0xFFFFFFFF = f.mask := UInt32.and_neg_one
  rw [Agrees, hmask]

theorem CanFilter.Accepts.agrees (h : f.Accepts x) (bits : UInt32) : f.Agrees bits x := by
  apply (CanFilter.agrees_all.mpr h.1).mono
  rw [UInt32.and_comm]
  exact UInt32.and_neg_one

theorem CanFilter.Accepts.kernelFilter_matches (h : f.Accepts x) : f.kernelFilter.Matches x := by
  by_cases heq : f.filterStdFrame = f.filterExtFrame
  · exact (kernelFilter_matches_of_equal heq).mpr (h.agrees _)
  · cases hext : f.filterExtFrame with
    | false => exact (kernelFilter_matches_of_std heq hext).mpr (h.agrees _)
    | true =>
      refine (kernelFilter_matches_of_ext heq hext).mpr ⟨?_, h.agrees _⟩
      -- the filter is for extended frames only, so an accepted frame is one
      have hstd : f.filterStdFrame = false := by simpa [hext] using heq
      have hkind := h.2.resolve_left heq
      by_contra hx
      simp [hx, hstd] at hkind

/-- A filter lets a frame through one of the backends exactly when the compared bits agree. -/
theorem CanFilter.agrees_comparedBits_iff :
    f.Agrees (f.comparedBits x) x ↔
      f.kernelFilter.Matches x ∨ f.id &&& f.mask = x.id &&& f.mask := by
  rw [← agrees_all]
  unfold comparedBits
  by_cases heq : f.filterStdFrame = f.filterExtFrame
  · rw [if_pos heq, kernelFilter_matches_of_equal heq, or_iff_left_of_imp]
    exact fun h => h.mono (by decide)
  · rw [if_neg heq]
    cases hext : f.filterExtFrame with
    | false =>
      rw [if_neg (by simp), kernelFilter_matches_of_std heq hext, or_iff_left_of_imp]
      exact fun h => h.mono (by decide)
    | true =>
      rw [if_pos rfl, kernelFilter_matches_of_ext heq hext]
      cases x.extendedFormat with
      | false => simp
      | true =>
        simp only [if_true, true_and]
        rw [or_iff_left_of_imp]
        exact fun h => h.mono (by decide)

theorem filter_iff {filters : List CanFilter} (hne : filters ≠ []) :
    filter filters x.id = true ↔ ∃ f ∈ filters, f.id &&& f.mask = x.id &&& f.mask := by
  simp [filter, hne]

theorem kernelPasses_iff {filters : List CanFilter} :
    KernelPasses (filters.map CanFilter.kernelFilter) x ↔
      ∃ f ∈ filters, f.kernelFilter.Matches x := by
  simp [KernelPasses]

end Backends

/-- Both backends decide on a frame as the filters are meant to exactly when a filter is meant
to accept it, or every filter differs from it in a bit that some backend compares. -/
theorem filters_faithful_iff {filters : List CanFilter} (hne : filters ≠ []) (x : ReceivedId) :
    Faithful filters x ↔
      (∃ f ∈ filters, f.Accepts x) ∨ ∀ f ∈ filters, ¬f.Agrees (f.comparedBits x) x := by
  have hinstalled : setFilters filters = some (filters.map CanFilter.kernelFilter) := if_neg hne
  constructor
  · rintro ⟨hkernel, hcommon⟩
    by_cases haccepts : ∃ f ∈ filters, f.Accepts x
    · exact .inl haccepts
    · right
      intro f hf hagrees
      rcases CanFilter.agrees_comparedBits_iff.mp hagrees with hmatches | hid
      · exact haccepts ((hkernel _ hinstalled).mp (kernelPasses_iff.mpr ⟨f, hf, hmatches⟩))
      · exact haccepts (hcommon.mp ((filter_iff hne).mpr ⟨f, hf, hid⟩))
  · rintro (⟨f, hf, haccepts⟩ | hdiffer)
    · have hpasses : ∃ f ∈ filters, f.Accepts x := ⟨f, hf, haccepts⟩
      refine ⟨?_, iff_of_true ((filter_iff hne).mpr ⟨f, hf, haccepts.1⟩) hpasses⟩
      rintro installed hmem
      obtain rfl : filters.map CanFilter.kernelFilter = installed := by
        simpa [hinstalled] using hmem
      exact iff_of_true (kernelPasses_iff.mpr ⟨f, hf, haccepts.kernelFilter_matches⟩) hpasses
    · have hnone : ¬∃ f ∈ filters, f.Accepts x := by
        rintro ⟨f, hf, haccepts⟩
        exact hdiffer f hf (haccepts.agrees _)
      constructor
      · rintro installed hmem
        obtain rfl : filters.map CanFilter.kernelFilter = installed := by
          simpa [hinstalled] using hmem
        refine iff_of_false ?_ hnone
        rintro hpasses
        obtain ⟨f, hf, hmatches⟩ := kernelPasses_iff.mp hpasses
        exact hdiffer f hf (CanFilter.agrees_comparedBits_iff.mpr (.inl hmatches))
      · refine iff_of_false ?_ hnone
        intro hfilter
        obtain ⟨f, hf, hid⟩ := (filter_iff hne).mp hfilter
        exact hdiffer f hf (CanFilter.agrees_comparedBits_iff.mpr (.inr hid))

/-- The filters of the manual: the second and third byte of extended identifiers, and all
bits of standard ones. -/
def manualFilters : List CanFilter :=
  [⟨0x12ABCD34, 0x00FFFF00, true, false⟩, ⟨0x148, 0x7FF, false, true⟩]

theorem manualFilters_faithful :
    manualFilters ≠ [] ∧ Faithful manualFilters ⟨true, 0x12ABCD34, by decide⟩ :=
  ⟨by decide, (filters_faithful_iff (by decide) _).mpr (by decide)⟩

/-- An extended frame passes the filter for the standard frames with its low bits. -/
theorem manualFilters_not_faithful : ¬Faithful manualFilters ⟨true, 0x148, by decide⟩ := by
  intro h
  have hpasses := (h.kernel (manualFilters.map CanFilter.kernelFilter) (by decide)).mp (by decide)
  revert hpasses
  decide

end J1939
