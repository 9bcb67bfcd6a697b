import J1939.DataBaseReads

/-!
# Loading a database

What an assertion that fails or an exception needs, in terms of the entries of the file. The
checks of the parser leave five gaps: a PGN of PDU format 1 with a PDU specific byte, the
number of an SPN, strings among other SPNs, the sum of bit offset and bit size, which wraps,
and values without members where members are looked for.
-/

namespace J1939

variable {lib : JsonCpp}

/-! ### What the checks let through -/

/-- An SPN that has passed the checks of the parser. -/
inductive SpnEntry
  | numeric (e : NumericEntry)
  | status (e : StatusEntry)
  | string (e : StringEntry)

namespace SpnEntry

def number : SpnEntry → UInt32
  | numeric e => e.number
  | status e => e.number
  | string e => e.number

def isString : SpnEntry → Bool
  | string _ => true
  | _ => false

end SpnEntry

variable (lib) in
/-- The checks on an SPN. -/
def readSPN (spn : Json) : Except ParseEnd SpnEntry := do
  let type ← readType lib spn
  if type = spnNumericType then
    let e ← readNumericEntry lib spn
    return .numeric e
  else if type = spnStatusType then
    let e ← readStatusEntry lib spn
    return .status e
  else if type = spnStringType then
    let e ← readStringEntry lib spn
    return .string e
  else .error (.rejected .unknownSpnType)

variable (lib) in
/-- What the parser does with an SPN that has passed the checks. -/
def finishSPN (frame : GenericFrame) (spn : Json) : SpnEntry → Except ParseEnd GenericFrame
  | .numeric e => do
    let spnNum ← SPNNumeric.construct e.number e.name e.offset.toNat e.formatGain e.formatOffset
      e.byteSize.toUInt8 e.units
    frame.register (.numeric spnNum)
  | .status e => do
    let valueToDesc ← readDescriptions lib spn
    let spnStat ← SPNStatus.construct e.number e.name e.offset.toNat e.bitOffset.toUInt8
      e.bitSize.toUInt8 valueToDesc
    frame.register (.status spnStat)
  | .string e => do
    let spnStr ← SPNString.construct e.number e.name
    frame.register (.string spnStr)

theorem parseSPN_eq (frame : GenericFrame) (spn : Json) :
    parseSPN lib frame spn = readSPN lib spn >>= finishSPN lib frame spn := by
  unfold parseSPN readSPN
  cases readType lib spn with
  | error e => rfl
  | ok type =>
    simp only [ok_bind]
    split_ifs
    · unfold parseSPNNumeric
      cases readNumericEntry lib spn <;> rfl
    · unfold parseSPNStatus
      cases readStatusEntry lib spn <;> rfl
    · unfold parseSPNString
      cases readStringEntry lib spn <;> rfl
    · rfl

/-! ### Entries that do no harm -/

/-- The entry fits behind the first SPN of its frame. -/
def SpnEntry.Fits (first : Option SpnEntry) (entry : SpnEntry) : Prop :=
  entry.number < 0x80000 ∧ (∀ f ∈ first, f.isString = entry.isString) ∧
    match entry with
    | .status e => e.bitOffset.toNat + e.bitSize.toNat ≤ 8
    | _ => True

/-- The descriptions, if there are any, are an array of values that can be read as strings. -/
def DescriptionsReadable (spn : Json) : Prop :=
  ∀ ms d, spn.members? = some ms → ms.lookup statDescriptionsKey = some d → d.size ≠ 0 →
    ∃ es, d.elements? = some es ∧ ∀ e ∈ es, e.isScalar = true

variable (lib) in
/-- The SPN is an object or null, and when it passes the checks it fits and its descriptions
can be read. -/
structure SpnHarmless (first : Option SpnEntry) (spn : Json) : Prop where
  hasMembers : spn.members? ≠ none
  fits : ∀ e, readSPN lib spn = .ok e → e.Fits first
  readable : ∀ e, readSPN lib spn = .ok (.status e) → DescriptionsReadable spn

variable (lib) in
/-- The SPNs of a frame do no harm, up to the first that does not pass the checks. -/
def SpnsHarmless : Option SpnEntry → List Json → Prop
  | _, [] => True
  | first, spn :: spns => SpnHarmless lib first spn ∧
    ∀ e, readSPN lib spn = .ok e → SpnsHarmless (first.or (some e)) spns

variable (lib) in
/-- The frame is an object or null, and when it passes the checks its PGN and its SPNs do no
harm. -/
structure FrameHarmless (jsonFrame : Json) : Prop where
  hasMembers : jsonFrame.members? ≠ none
  pgn : ∀ pgn, readPgn lib jsonFrame = .ok pgn → constructorAssertion pgn
  spns : ∀ pgn spns, readPgn lib jsonFrame = .ok pgn → readSpns lib jsonFrame = .ok spns →
    SpnsHarmless lib none spns

variable (lib) in
/-- The frame passes the checks. -/
def FrameChecked (jsonFrame : Json) : Prop :=
  (∃ pgn, readPgn lib jsonFrame = .ok pgn) ∧
    ∃ spns, readSpns lib jsonFrame = .ok spns ∧ ∀ spn ∈ spns, ∃ e, readSPN lib spn = .ok e

variable (lib) in
/-- The frames do no harm, up to the first that does not pass the checks. -/
def FramesHarmless : List Json → Prop
  | [] => True
  | jsonFrame :: rest =>
    FrameHarmless lib jsonFrame ∧ (FrameChecked lib jsonFrame → FramesHarmless rest)

variable (lib) in
/-- A file that does no harm. -/
def JsonFile.Harmless : JsonFile → Prop
  | value (.array data) => FramesHarmless lib data
  | _ => True

/-! ### Safe loading -/

variable (lib) in
/-- The SPNs of a frame that the parser accepts. -/
def acceptedSPNs : GenericFrame → List Json → List Json
  | _, [] => []
  | frame, spn :: spns =>
    match parseSPN lib frame spn with
    | .ok frame' => spn :: acceptedSPNs frame' spns
    | .error _ => []

variable (lib) in
/-- The SPNs of a frame that the parser accepts, none if it does not come to them. -/
def acceptedInFrame (jsonFrame : Json) : List Json :=
  match startFrame lib jsonFrame with
  | .ok (frame, spns) => acceptedSPNs lib frame spns
  | .error _ => []

variable (lib) in
/-- The SPNs of the frames that the parser accepts. -/
def acceptedInFrames : List Json → List Json
  | [] => []
  | jsonFrame :: rest =>
    acceptedInFrame lib jsonFrame ++
      match parseFrame lib jsonFrame with
      | .ok _ => acceptedInFrames rest
      | .error _ => []

variable (lib) in
/-- The SPNs of a file that the parser accepts. -/
def JsonFile.accepted : JsonFile → List Json
  | value (.array data) => acceptedInFrames lib data
  | _ => []

variable (lib) in
/-- A status SPN has at least one bit, and its bits lie in one byte. -/
def StatusInRange (spn : Json) : Prop :=
  ∀ e, readSPN lib spn = .ok (.status e) →
    1 ≤ e.bitSize.toNat ∧ e.bitOffset.toNat + e.bitSize.toNat ≤ 8

variable (lib) in
/-- Loading the file returns, with an error code unless it succeeds, and every status SPN that
is accepted is in range. -/
structure LoadsSafely (db : J1939DataBase) (file : JsonFile) : Prop where
  returns : ∃ db' ret, parseJsonFile lib db file = .ok (db', ret) ∧
    (ret = true ∨ ret = false ∧ db'.errorCode ≠ .ok)
  inRange : ∀ spn ∈ file.accepted lib, StatusInRange lib spn

/-- The parser does not end the process. -/
def Survives {α : Type} (x : Except ParseEnd α) : Prop := ∀ a, x ≠ .error (.aborted a)

/-! ### One SPN -/

section Step

variable {frame : GenericFrame} {spn : Json} {first : Option SpnEntry}

/-- The first SPN of the frame is a string like the first entry. -/
def FirstIs (frame : GenericFrame) (first : Option SpnEntry) : Prop :=
  frame.spns.values.head?.map SPN.isString = first.map SpnEntry.isString

theorem registerAssertion_iff (h : FirstIs frame first) (spn : SPN) :
    frame.registerAssertion spn ↔ ∀ f ∈ first, f.isString = spn.isString := by
  unfold GenericFrame.registerAssertion
  unfold FirstIs at h
  cases hhead : frame.spns.values.head? with
  | none =>
    rw [hhead] at h
    cases first with
    | none => simp
    | some f => cases h
  | some s =>
    rw [hhead] at h
    cases first with
    | none => cases h
    | some f =>
      have hsame : s.isString = f.isString := Option.some.inj h
      simp [hsame]

/-- A frame with an SPN that has been registered begins with one of its kind. -/
theorem isString_head?_registerSPN {spn : SPN} (h : frame.registerAssertion spn) :
    (frame.registerSPN spn).spns.values.head?.map SPN.isString = some spn.isString := by
  obtain ⟨s, rest, hvalues⟩ := List.exists_cons_of_ne_nil
    (@registeredSpns_values_ne_nil frame spn)
  have hs : s.isString = spn.isString :=
    head?_registeredSpns h rfl s (by rw [hvalues]; rfl)
  rw [registerSPN_eq_ite]
  split_ifs
  · rw [SortedMap.values_setValues (length_recalculateStringOffsets _), hvalues]
    exact congrArg some hs
  · rw [hvalues]
    exact congrArg some hs

theorem FirstIs.register {entry : SpnEntry} {spn : SPN} (h : FirstIs frame first)
    (hsame : ∀ f ∈ first, f.isString = entry.isString) (hspn : spn.isString = entry.isString) :
    frame.register spn = .ok (frame.registerSPN spn) ∧
      FirstIs (frame.registerSPN spn) (first.or (some entry)) := by
  have hassertion : frame.registerAssertion spn := by
    rw [registerAssertion_iff h, hspn]
    exact hsame
  refine ⟨if_pos hassertion, ?_⟩
  rw [FirstIs, isString_head?_registerSPN hassertion, hspn]
  cases first with
  | none => rfl
  | some f => exact congrArg some (hsame f rfl).symm

/-- What the checks on an SPN have made sure of. -/
def SpnEntry.Checked : SpnEntry → Prop
  | .numeric e => e.byteSize ≤ 4 ∧ e.byteSize ≠ 0
  | .status e => e.bitSize ≠ 0 ∧ e.bitSize + e.bitOffset ≤ 8
  | .string _ => True

theorem readSPN_none (hdoc : lib.Documented) (hnone : spn.members? = none) :
    readSPN lib spn = .error (.aborted (.thrown .logicError)) := by
  rw [readSPN, readType, hasMembers_none hdoc hnone]
  rfl

/-- On a value with members the checks come to a result. -/
theorem readSPN_cases (hdoc : lib.Documented) {ms : List (String × Json)}
    (hms : spn.members? = some ms) :
    (∃ r, readSPN lib spn = .error (.rejected r)) ∨
      ∃ e, readSPN lib spn = .ok e ∧ e.Checked := by
  unfold readSPN
  rw [readType_eq hdoc hms]
  by_cases hhead : present ms [nameKey, numberKey, typeKey] = true ∧
      (memberOf ms nameKey).isString = true ∧ lib.isUInt (memberOf ms numberKey) = true ∧
        lib.isUInt (memberOf ms typeKey) = true
  · obtain ⟨name, -, hname⟩ := call_asString hdoc hhead.2.1
    rw [if_pos hhead, ok_bind]
    split_ifs
    · rcases readNumericEntry_cases hdoc hms hname with ⟨r, hr⟩ | ⟨e, he, hchecked⟩
      · exact .inl ⟨r, by rw [hr, error_bind]⟩
      · exact .inr ⟨.numeric e, by rw [he]; rfl, hchecked⟩
    · rcases readStatusEntry_cases hdoc hms hname with ⟨r, hr⟩ | ⟨e, he, hchecked⟩
      · exact .inl ⟨r, by rw [hr, error_bind]⟩
      · exact .inr ⟨.status e, by rw [he]; rfl, hchecked⟩
    · exact .inr ⟨.string _, by rw [readStringEntry_eq hdoc hms hname]; rfl, trivial⟩
    · exact .inl ⟨_, rfl⟩
  · rw [if_neg hhead]
    exact .inl ⟨_, rfl⟩

/-! ### The descriptions -/

/-- The description can be read. -/
def Readable (descriptions : Json) (i : ℕ) : Prop :=
  ∃ es, descriptions.elements? = some es ∧ (es[i]?.getD Json.null).isScalar = true

theorem readDescription_ok (hdoc : lib.Documented) {descriptions : Json} {i : ℕ}
    (h : Readable descriptions i) (valueToDesc : SortedMap UInt8 String) :
    ∃ valueToDesc', readDescription lib descriptions valueToDesc i = .ok valueToDesc' := by
  obtain ⟨es, hes, hscalar⟩ := h
  obtain ⟨text, htext⟩ := hdoc.asString_scalar _ hscalar
  rw [readDescription, hdoc.element_some _ es i hes, call_ok, ok_bind, htext, call_ok]
  split_ifs <;> exact ⟨_, rfl⟩

theorem readDescription_aborts (hdoc : lib.Documented) {descriptions : Json} {i : ℕ}
    (h : ¬Readable descriptions i) (valueToDesc : SortedMap UInt8 String) :
    readDescription lib descriptions valueToDesc i =
      .error (.aborted (.thrown .logicError)) := by
  cases hes : descriptions.elements? with
  | none =>
    rw [readDescription, hdoc.element_none _ i hes]
    rfl
  | some es =>
    have hscalar : (es[i]?.getD Json.null).isScalar = false := by
      rw [← Bool.not_eq_true]
      exact fun hscalar => h ⟨es, hes, hscalar⟩
    rw [readDescription, hdoc.element_some _ es i hes, call_ok, ok_bind,
      hdoc.asString_other _ hscalar]
    cases helement : es[i]?.getD Json.null with
    | array => rfl
    | object => rfl
    | _ =>
      rw [helement] at hscalar
      cases hscalar

theorem foldlM_readDescription (hdoc : lib.Documented) (descriptions : Json) (l : List ℕ)
    (valueToDesc : SortedMap UInt8 String) :
    ((∀ i ∈ l, Readable descriptions i) →
      ∃ m, l.foldlM (readDescription lib descriptions) valueToDesc = .ok m) ∧
    ((¬∀ i ∈ l, Readable descriptions i) →
      l.foldlM (readDescription lib descriptions) valueToDesc =
        .error (.aborted (.thrown .logicError))) := by
  induction l generalizing valueToDesc with
  | nil => exact ⟨fun _ => ⟨_, rfl⟩, fun h => absurd (by simp) h⟩
  | cons i l ih =>
    rw [List.forall_mem_cons, List.foldlM_cons]
    by_cases hi : Readable descriptions i
    · obtain ⟨valueToDesc', hread⟩ := readDescription_ok hdoc hi valueToDesc
      rw [hread, ok_bind]
      exact ⟨fun h => (ih valueToDesc').1 h.2, fun h => (ih valueToDesc').2 fun hl => h ⟨hi, hl⟩⟩
    · rw [readDescription_aborts hdoc hi, error_bind]
      exact ⟨fun h => absurd h.1 hi, fun _ => rfl⟩

/-- Reading the descriptions has a result, or throws. -/
theorem readDescriptions_cases (hdoc : lib.Documented) {ms : List (String × Json)}
    (hms : spn.members? = some ms) :
    (DescriptionsReadable spn → ∃ m, readDescriptions lib spn = .ok m) ∧
      (¬DescriptionsReadable spn →
        readDescriptions lib spn = .error (.aborted (.thrown .logicError))) := by
  rw [readDescriptions, call_isMember hdoc hms, call_member hdoc hms, ok_bind, ok_bind, memberOf]
  cases hd : ms.lookup statDescriptionsKey with
  | none =>
    refine ⟨fun _ => ⟨∅, rfl⟩, fun h => absurd (fun ms' d hms' hlookup => ?_) h⟩
    rw [Option.some.inj (hms'.symm.trans hms), hd] at hlookup
    cases hlookup
  | some d =>
    have hreadable : DescriptionsReadable spn ↔ ∀ i ∈ List.range d.size, Readable d i := by
      constructor
      · intro h i hi
        obtain ⟨es, hes, hscalar⟩ := h ms d hms hd (by
          have := List.mem_range.mp hi
          omega)
        refine ⟨es, hes, ?_⟩
        cases he : es[i]? with
        | none => rfl
        | some e => exact hscalar e (List.mem_of_getElem? he)
      · intro h ms' d' hms' hd' hsize
        obtain rfl := Option.some.inj (hms'.symm.trans hms)
        obtain rfl := Option.some.inj (hd'.symm.trans hd)
        obtain ⟨es, hes, -⟩ := h 0 (List.mem_range.mpr (Nat.pos_of_ne_zero hsize))
        refine ⟨es, hes, fun e he => ?_⟩
        obtain ⟨i, hi, rfl⟩ := List.mem_iff_getElem.mp he
        have hlength : es.length = d'.size := by
          cases d' with
          | array elements =>
            obtain rfl := Option.some.inj hes
            rfl
          | null => exact absurd rfl hsize
          | _ => cases hes
        obtain ⟨es', hes', hscalar⟩ := h i (List.mem_range.mpr (hlength ▸ hi))
        obtain rfl := Option.some.inj (hes'.symm.trans hes)
        rwa [List.getElem?_eq_getElem hi] at hscalar
    rw [hreadable]
    exact foldlM_readDescription hdoc d (List.range d.size) ∅

/-! ### The rest of an SPN -/

theorem SPNSpec.construct_of_lt {number : UInt32} (h : number < 0x80000) (name : String)
    (offset : ℕ) : SPNSpec.construct number name offset = .ok ⟨number, name, offset, h⟩ :=
  dif_pos h

theorem SPNSpec.construct_aborts {number : UInt32} (h : ¬number < 0x80000) (name : String)
    (offset : ℕ) : SPNSpec.construct number name offset = .error (.aborted .assertion) :=
  dif_neg h

/-- A byte size that has been checked passes the assertion. -/
theorem byteSize_toUInt8 {byteSize : UInt32} (h : byteSize ≤ 4 ∧ byteSize ≠ 0) :
    0 < byteSize.toUInt8.toNat ∧ byteSize.toUInt8.toNat ≤ spnNumericMaxByteSize := by
  have hle : byteSize.toNat ≤ 4 := UInt32.le_iff_toNat_le.mp h.1
  have hne : byteSize.toNat ≠ 0 := fun hzero => h.2 (UInt32.toNat_inj.mp hzero)
  rw [UInt32.toNat_toUInt8, spnNumericMaxByteSize]
  omega

theorem bits_toUInt8 {bitOffset bitSize : UInt32} (hsize : bitSize ≠ 0)
    (hbits : bitOffset.toNat + bitSize.toNat ≤ 8) :
    0 < bitSize.toUInt8.toNat ∧ bitOffset.toUInt8.toNat + bitSize.toUInt8.toNat ≤ 8 := by
  have hne : bitSize.toNat ≠ 0 := fun hzero => hsize (UInt32.toNat_inj.mp hzero)
  rw [UInt32.toNat_toUInt8, UInt32.toNat_toUInt8]
  omega

/-- An entry that fits is registered. -/
theorem finishSPN_of_fits (hdoc : lib.Documented) {ms : List (String × Json)}
    (hms : spn.members? = some ms) (hfirst : FirstIs frame first) {e : SpnEntry}
    (hchecked : e.Checked) (hfits : e.Fits first)
    (hreadable : ∀ e', e = .status e' → DescriptionsReadable spn) :
    ∃ frame', finishSPN lib frame spn e = .ok frame' ∧ FirstIs frame' (first.or (some e)) := by
  obtain ⟨hnumber, hsame, hbits⟩ := hfits
  cases e with
  | numeric e =>
    have hlt : e.number < 0x80000 := hnumber
    have hnumSpec :
        SPNNumericSpec.construct e.formatGain e.formatOffset e.byteSize.toUInt8 e.units =
          .ok ⟨e.formatGain, e.formatOffset, e.byteSize.toUInt8, e.units,
            (byteSize_toUInt8 hchecked).1, (byteSize_toUInt8 hchecked).2⟩ :=
      dif_pos (byteSize_toUInt8 hchecked)
    rw [finishSPN, SPNNumeric.construct, SPNSpec.construct_of_lt hlt, ok_bind, hnumSpec]
    obtain ⟨hregister, hfirst'⟩ := @FirstIs.register _ _ (.numeric e) (.numeric _) hfirst hsame rfl
    exact ⟨_, hregister, hfirst'⟩
  | status e =>
    have hlt : e.number < 0x80000 := hnumber
    obtain ⟨valueToDesc, hread⟩ := (readDescriptions_cases hdoc hms).1 (hreadable e rfl)
    have hstatSpec : SPNStatusSpec.construct e.bitOffset.toUInt8 e.bitSize.toUInt8 valueToDesc =
        .ok ⟨e.bitOffset.toUInt8, e.bitSize.toUInt8, valueToDesc, (bits_toUInt8 hchecked.1 hbits).1,
          (bits_toUInt8 hchecked.1 hbits).2⟩ := dif_pos (bits_toUInt8 hchecked.1 hbits)
    rw [finishSPN, hread, ok_bind, SPNStatus.construct, SPNSpec.construct_of_lt hlt, ok_bind,
      hstatSpec]
    obtain ⟨hregister, hfirst'⟩ := @FirstIs.register _ _ (.status e) (.status _) hfirst hsame rfl
    exact ⟨_, hregister, hfirst'⟩
  | string e =>
    have hlt : e.number < 0x80000 := hnumber
    rw [finishSPN, SPNString.construct, SPNSpec.construct_of_lt hlt]
    obtain ⟨hregister, hfirst'⟩ := @FirstIs.register _ _ (.string e) (.string _) hfirst hsame rfl
    exact ⟨_, hregister, hfirst'⟩

/-- Registering survives only for an SPN of the kind of the first one. -/
theorem FirstIs.of_register {entry : SpnEntry} {spn : SPN} (h : FirstIs frame first)
    (hspn : spn.isString = entry.isString) (hsurvives : Survives (frame.register spn)) :
    (∀ f ∈ first, f.isString = entry.isString) ∧ ∃ frame', frame.register spn = .ok frame' := by
  by_cases hsame : ∀ f ∈ first, f.isString = entry.isString
  · exact ⟨hsame, _, (h.register hsame hspn).1⟩
  · refine absurd (if_neg fun hassertion => hsame ?_) (hsurvives .assertion)
    rw [registerAssertion_iff h, hspn] at hassertion
    exact hassertion

/-- An entry whose number is too large, or that is not of the kind of the first one, or whose
descriptions cannot be read ends the process. -/
theorem fits_of_finishSPN (hdoc : lib.Documented) {ms : List (String × Json)}
    (hms : spn.members? = some ms) (hfirst : FirstIs frame first) {e : SpnEntry}
    (hsurvives : Survives (finishSPN lib frame spn e)) :
    e.number < 0x80000 ∧ (∀ f ∈ first, f.isString = e.isString) ∧
      (∀ e', e = .status e' → DescriptionsReadable spn) ∧
        ∃ frame', finishSPN lib frame spn e = .ok frame' := by
  cases e with
  | numeric e =>
    rw [finishSPN, SPNNumeric.construct] at hsurvives ⊢
    by_cases hnumber : e.number < 0x80000
    · rw [SPNSpec.construct_of_lt hnumber, ok_bind] at hsurvives ⊢
      by_cases hsize : 0 < e.byteSize.toUInt8.toNat ∧
          e.byteSize.toUInt8.toNat ≤ spnNumericMaxByteSize
      · rw [SPNNumericSpec.construct, dif_pos hsize] at hsurvives ⊢
        obtain ⟨hsame, hregister⟩ := @FirstIs.of_register _ _ (.numeric e) _ hfirst rfl hsurvives
        exact ⟨hnumber, hsame, fun e' h => (by cases h), hregister⟩
      · rw [SPNNumericSpec.construct, dif_neg hsize] at hsurvives
        exact absurd rfl (hsurvives .assertion)
    · rw [SPNSpec.construct_aborts hnumber] at hsurvives
      exact absurd rfl (hsurvives .assertion)
  | status e =>
    rw [finishSPN] at hsurvives ⊢
    by_cases hreadable : DescriptionsReadable spn
    · obtain ⟨valueToDesc, hread⟩ := (readDescriptions_cases hdoc hms).1 hreadable
      rw [hread, ok_bind, SPNStatus.construct] at hsurvives ⊢
      by_cases hnumber : e.number < 0x80000
      · rw [SPNSpec.construct_of_lt hnumber, ok_bind] at hsurvives ⊢
        by_cases hbits : 0 < e.bitSize.toUInt8.toNat ∧
            e.bitOffset.toUInt8.toNat + e.bitSize.toUInt8.toNat ≤ 8
        · rw [SPNStatusSpec.construct, dif_pos hbits] at hsurvives ⊢
          obtain ⟨hsame, hregister⟩ := @FirstIs.of_register _ _ (.status e) _ hfirst rfl hsurvives
          exact ⟨hnumber, hsame, fun _ _ => hreadable, hregister⟩
        · rw [SPNStatusSpec.construct, dif_neg hbits] at hsurvives
          exact absurd rfl (hsurvives .assertion)
      · rw [SPNSpec.construct_aborts hnumber] at hsurvives
        exact absurd rfl (hsurvives .assertion)
    · rw [(readDescriptions_cases hdoc hms).2 hreadable] at hsurvives
      exact absurd rfl (hsurvives (.thrown .logicError))
  | string e =>
    rw [finishSPN, SPNString.construct] at hsurvives ⊢
    by_cases hnumber : e.number < 0x80000
    · rw [SPNSpec.construct_of_lt hnumber] at hsurvives ⊢
      obtain ⟨hsame, hregister⟩ := @FirstIs.of_register _ _ (.string e) _ hfirst rfl hsurvives
      exact ⟨hnumber, hsame, fun e' h => (by cases h), hregister⟩
    · rw [SPNSpec.construct_aborts hnumber] at hsurvives
      exact absurd rfl (hsurvives .assertion)

/-- An SPN that does no harm is rejected or registered. -/
theorem SpnHarmless.parseSPN (hdoc : lib.Documented) (hfirst : FirstIs frame first)
    (h : SpnHarmless lib first spn) :
    (∃ r, readSPN lib spn = .error (.rejected r) ∧
      parseSPN lib frame spn = .error (.rejected r)) ∨
    ∃ e frame', readSPN lib spn = .ok e ∧ parseSPN lib frame spn = .ok frame' ∧
      FirstIs frame' (first.or (some e)) ∧ StatusInRange lib spn := by
  obtain ⟨ms, hms⟩ := Option.ne_none_iff_exists'.mp h.hasMembers
  rw [parseSPN_eq]
  rcases readSPN_cases hdoc hms with ⟨r, hr⟩ | ⟨e, he, hchecked⟩
  · exact .inl ⟨r, hr, by rw [hr, error_bind]⟩
  · obtain ⟨frame', hfinish, hfirst'⟩ := finishSPN_of_fits hdoc hms hfirst hchecked (h.fits e he)
      fun e' he' => h.readable e' (he' ▸ he)
    refine .inr ⟨e, frame', he, by rw [he, ok_bind, hfinish], hfirst', fun e' he' => ?_⟩
    obtain rfl : e = .status e' := Except.ok.inj (he.symm.trans he')
    have hsize : e'.bitSize.toNat ≠ 0 := fun hzero => hchecked.1 (UInt32.toNat_inj.mp hzero)
    exact ⟨Nat.pos_of_ne_zero hsize, (h.fits _ he).2.2⟩

/-- Only an SPN that does no harm survives and is in range when it is accepted. -/
theorem spnHarmless_of_survives (hdoc : lib.Documented) (hfirst : FirstIs frame first)
    (hsurvives : Survives (parseSPN lib frame spn))
    (hrange : ∀ frame', parseSPN lib frame spn = .ok frame' → StatusInRange lib spn) :
    SpnHarmless lib first spn := by
  rw [parseSPN_eq] at hsurvives hrange
  have hmembers : spn.members? ≠ none := by
    intro hnone
    rw [readSPN_none hdoc hnone] at hsurvives
    exact hsurvives (.thrown .logicError) rfl
  obtain ⟨ms, hms⟩ := Option.ne_none_iff_exists'.mp hmembers
  have hentry : ∀ e, readSPN lib spn = .ok e →
      e.Fits first ∧ ∀ e', e = .status e' → DescriptionsReadable spn := by
    intro e he
    rw [he, ok_bind] at hsurvives hrange
    obtain ⟨hnumber, hsame, hreadable, frame', hfinish⟩ :=
      fits_of_finishSPN hdoc hms hfirst hsurvives
    refine ⟨⟨hnumber, hsame, ?_⟩, hreadable⟩
    cases e with
    | status e' => exact (hrange frame' hfinish e' he).2
    | _ => trivial
  exact ⟨hmembers, fun e he => (hentry e he).1, fun e' he => (hentry _ he).2 e' rfl⟩

end Step

/-! ### All SPNs of a frame -/

/-- The loop over the SPNs survives and accepts status SPNs in range exactly when the SPNs do
no harm. -/
theorem parseSPNs_iff (hdoc : lib.Documented) {frame : GenericFrame} {first : Option SpnEntry}
    (hfirst : FirstIs frame first) (spns : List Json) :
    (Survives (parseSPNs lib frame spns) ∧
        ∀ spn ∈ acceptedSPNs lib frame spns, StatusInRange lib spn) ↔
      SpnsHarmless lib first spns := by
  induction spns generalizing frame first with
  | nil => exact ⟨fun _ => trivial, fun _ => ⟨fun a h => (by cases h), by simp [acceptedSPNs]⟩⟩
  | cons spn spns ih =>
    rw [parseSPNs, acceptedSPNs, SpnsHarmless]
    constructor
    · rintro ⟨hsurvives, hrange⟩
      have hharmless : SpnHarmless lib first spn := by
        refine spnHarmless_of_survives hdoc hfirst (fun a ha => ?_) fun frame' hframe' => ?_
        · rw [ha] at hsurvives
          exact hsurvives a rfl
        · rw [hframe'] at hrange
          exact hrange spn (List.mem_cons_self)
      refine ⟨hharmless, fun e he => ?_⟩
      rcases hharmless.parseSPN hdoc hfirst with ⟨r, hr, -⟩ | ⟨e', frame', he', hparse, hfirst', -⟩
      · rw [he] at hr
        cases hr
      · obtain rfl := Except.ok.inj (he.symm.trans he')
        rw [hparse] at hsurvives hrange
        exact (ih hfirst').mp ⟨hsurvives, fun x hx => hrange x (List.mem_cons_of_mem _ hx)⟩
    · rintro ⟨hharmless, hrest⟩
      rcases hharmless.parseSPN hdoc hfirst with
        ⟨r, -, hparse⟩ | ⟨e, frame', he, hparse, hfirst', hinRange⟩
      · rw [hparse]
        exact ⟨fun a h => (by cases h), by simp⟩
      · obtain ⟨hsurvives, hrange⟩ := (ih hfirst').mpr (hrest e he)
        rw [hparse]
        exact ⟨hsurvives, List.forall_mem_cons.mpr ⟨hinRange, hrange⟩⟩

/-- SPNs that do no harm are all accepted when they pass the checks. -/
theorem SpnsHarmless.accepted_iff (hdoc : lib.Documented) {frame : GenericFrame}
    {first : Option SpnEntry} (hfirst : FirstIs frame first) {spns : List Json}
    (h : SpnsHarmless lib first spns) :
    (∃ frame', parseSPNs lib frame spns = .ok frame') ↔
      ∀ spn ∈ spns, ∃ e, readSPN lib spn = .ok e := by
  induction spns generalizing frame first with
  | nil => simp [parseSPNs]
  | cons spn spns ih =>
    rw [parseSPNs, List.forall_mem_cons]
    rcases h.1.parseSPN hdoc hfirst with ⟨r, hr, hparse⟩ | ⟨e, frame', he, hparse, hfirst', -⟩
    · rw [hparse, hr]
      simp
    · rw [hparse, ok_bind, ih hfirst' (h.2 e he), he]
      simp

/-! ### One frame -/

section Frame

variable {jsonFrame : Json}

theorem readPgn_none (hdoc : lib.Documented) (hnone : jsonFrame.members? = none) :
    readPgn lib jsonFrame = .error (.aborted (.thrown .logicError)) := by
  rw [readPgn, hasMembers_none hdoc hnone]
  rfl

theorem readPgn_cases (hdoc : lib.Documented) {ms : List (String × Json)}
    (hms : jsonFrame.members? = some ms) :
    (∃ r, readPgn lib jsonFrame = .error (.rejected r)) ∨
      ∃ pgn, readPgn lib jsonFrame = .ok pgn := by
  simp only [readPgn, hasMembers_eq hdoc hms, call_member hdoc hms, ok_bind, check_bind]
  split_ifs
  · exact .inr ⟨_, rfl⟩
  · exact .inl ⟨_, rfl⟩
  · exact .inl ⟨_, rfl⟩
  · exact .inl ⟨_, rfl⟩

theorem readName_ok (hdoc : lib.Documented) {ms : List (String × Json)}
    (hms : jsonFrame.members? = some ms) : ∃ name, readName lib jsonFrame = .ok name := by
  rw [readName, call_isMember hdoc hms, call_member hdoc hms, ok_bind]
  split_ifs
  · rw [ok_bind]
    split_ifs with hstring
    · obtain ⟨text, htext, -⟩ := call_asString hdoc hstring
      exact ⟨some text, by rw [htext]; rfl⟩
    · exact ⟨none, rfl⟩
  · exact ⟨none, rfl⟩

theorem readLength_ok (hdoc : lib.Documented) {ms : List (String × Json)}
    (hms : jsonFrame.members? = some ms) : ∃ length, readLength lib jsonFrame = .ok length := by
  rw [readLength, call_isMember hdoc hms, call_member hdoc hms, ok_bind]
  split_ifs
  · rw [ok_bind]
    split_ifs <;> exact ⟨_, rfl⟩
  · exact ⟨none, rfl⟩

theorem readSpns_cases (hdoc : lib.Documented) {ms : List (String × Json)}
    (hms : jsonFrame.members? = some ms) :
    (∃ r, readSpns lib jsonFrame = .error (.rejected r)) ∨
      ∃ spns, readSpns lib jsonFrame = .ok spns := by
  rw [readSpns, call_isMember hdoc hms, call_member hdoc hms, ok_bind]
  split_ifs
  · rw [ok_bind]
    split
    · exact .inr ⟨_, rfl⟩
    · exact .inl ⟨_, rfl⟩
  · exact .inr ⟨_, rfl⟩

/-- A frame starts without SPNs. -/
theorem startFrame_of_checked (hdoc : lib.Documented) {ms : List (String × Json)}
    (hms : jsonFrame.members? = some ms) {pgn : UInt32} (hpgn : readPgn lib jsonFrame = .ok pgn)
    (hassertion : constructorAssertion pgn) {spns : List Json}
    (hspns : readSpns lib jsonFrame = .ok spns) :
    ∃ frame, startFrame lib jsonFrame = .ok (frame, spns) ∧ FirstIs frame none := by
  obtain ⟨name, hname⟩ := readName_ok hdoc hms
  obtain ⟨length, hlength⟩ := readLength_ok hdoc hms
  have hconstruct : GenericFrame.construct pgn = .ok { pgn := pgn } := if_pos hassertion
  rw [startFrame, hpgn, ok_bind, hconstruct, ok_bind, hname, ok_bind, hlength, ok_bind, hspns]
  exact ⟨_, rfl, rfl⟩

/-- A frame that does no harm is rejected or accepted, the latter exactly when it passes the
checks. -/
theorem FrameHarmless.parseFrame (hdoc : lib.Documented) (h : FrameHarmless lib jsonFrame) :
    Survives (parseFrame lib jsonFrame) ∧
      (∀ spn ∈ acceptedInFrame lib jsonFrame, StatusInRange lib spn) ∧
        ((∃ frame, parseFrame lib jsonFrame = .ok frame) ↔ FrameChecked lib jsonFrame) := by
  obtain ⟨ms, hms⟩ := Option.ne_none_iff_exists'.mp h.hasMembers
  rcases readPgn_cases hdoc hms with ⟨r, hr⟩ | ⟨pgn, hpgn⟩
  · have hstart : startFrame lib jsonFrame = .error (.rejected r) := by rw [startFrame, hr]; rfl
    rw [J1939.parseFrame, acceptedInFrame, hstart, FrameChecked, hr]
    exact ⟨fun a h => (by cases h), by simp, by simp⟩
  rcases readSpns_cases hdoc hms with ⟨r, hr⟩ | ⟨spns, hspns⟩
  · obtain ⟨name, hname⟩ := readName_ok hdoc hms
    obtain ⟨length, hlength⟩ := readLength_ok hdoc hms
    have hstart : startFrame lib jsonFrame = .error (.rejected r) := by
      have hconstruct : GenericFrame.construct pgn = .ok { pgn := pgn } := if_pos (h.pgn pgn hpgn)
      rw [startFrame, hpgn, ok_bind, hconstruct, ok_bind, hname, ok_bind, hlength, ok_bind, hr]
      rfl
    rw [J1939.parseFrame, acceptedInFrame, hstart, FrameChecked, hr]
    exact ⟨fun a h => (by cases h), by simp, by simp⟩
  · obtain ⟨frame, hstart, hfirst⟩ := startFrame_of_checked hdoc hms hpgn (h.pgn pgn hpgn) hspns
    have hharmless := h.spns pgn spns hpgn hspns
    obtain ⟨hsurvives, hrange⟩ := (parseSPNs_iff hdoc hfirst spns).mpr hharmless
    have hparse : J1939.parseFrame lib jsonFrame = parseSPNs lib frame spns := by
      rw [J1939.parseFrame, hstart]
      rfl
    rw [hparse, acceptedInFrame, hstart, hharmless.accepted_iff hdoc hfirst]
    refine ⟨hsurvives, hrange, fun hall => ⟨⟨pgn, hpgn⟩, spns, hspns, hall⟩, ?_⟩
    rintro ⟨-, spns', hspns', hall⟩
    obtain rfl := Except.ok.inj (hspns.symm.trans hspns')
    exact hall

/-- Only a frame that does no harm survives with its status SPNs in range. -/
theorem frameHarmless_of_survives (hdoc : lib.Documented)
    (hsurvives : Survives (parseFrame lib jsonFrame))
    (hrange : ∀ spn ∈ acceptedInFrame lib jsonFrame, StatusInRange lib spn) :
    FrameHarmless lib jsonFrame := by
  have hmembers : jsonFrame.members? ≠ none := by
    intro hnone
    rw [parseFrame, startFrame, readPgn_none hdoc hnone] at hsurvives
    exact hsurvives (.thrown .logicError) rfl
  obtain ⟨ms, hms⟩ := Option.ne_none_iff_exists'.mp hmembers
  have hpgn : ∀ pgn, readPgn lib jsonFrame = .ok pgn → constructorAssertion pgn := by
    intro pgn hpgn
    by_contra hassertion
    have hconstruct : GenericFrame.construct pgn = .error (.aborted .assertion) := if_neg hassertion
    rw [parseFrame, startFrame, hpgn, ok_bind, hconstruct] at hsurvives
    exact hsurvives .assertion rfl
  refine ⟨hmembers, hpgn, fun pgn spns hread hspns => ?_⟩
  obtain ⟨frame, hstart, hfirst⟩ := startFrame_of_checked hdoc hms hread (hpgn pgn hread) hspns
  rw [parseFrame, hstart] at hsurvives
  rw [acceptedInFrame, hstart] at hrange
  exact (parseSPNs_iff hdoc hfirst spns).mp ⟨hsurvives, hrange⟩

end Frame

/-! ### The file -/

/-- The loop over the frames survives and accepts status SPNs in range exactly when the frames
do no harm. -/
theorem parseFrames_iff (hdoc : lib.Documented) (frames : List GenericFrame) (data : List Json) :
    (Survives (parseFrames lib frames data).2 ∧
        ∀ spn ∈ acceptedInFrames lib data, StatusInRange lib spn) ↔
      FramesHarmless lib data := by
  induction data generalizing frames with
  | nil => exact ⟨fun _ => trivial, fun _ => ⟨fun a h => (by cases h), by simp [acceptedInFrames]⟩⟩
  | cons jsonFrame rest ih =>
    rw [parseFrames, acceptedInFrames, FramesHarmless, List.forall_mem_append]
    constructor
    · rintro ⟨hsurvives, hhere, hrange⟩
      have hharmless : FrameHarmless lib jsonFrame := by
        refine frameHarmless_of_survives hdoc (fun a ha => ?_) hhere
        rw [ha] at hsurvives
        exact hsurvives a rfl
      refine ⟨hharmless, fun hchecked => ?_⟩
      obtain ⟨-, -, hiff⟩ := hharmless.parseFrame hdoc
      obtain ⟨frame, hframe⟩ := hiff.mpr hchecked
      rw [hframe] at hsurvives hrange
      exact (ih _).mp ⟨hsurvives, hrange⟩
    · rintro ⟨hharmless, hrest⟩
      obtain ⟨hsurvives, hhere, hiff⟩ := hharmless.parseFrame hdoc
      cases hframe : parseFrame lib jsonFrame with
      | error e =>
        rw [hframe] at hsurvives
        exact ⟨fun a ha => hsurvives a (by cases ha; rfl), hhere, by simp⟩
      | ok frame =>
        obtain ⟨hsurvives', hrange⟩ :=
          (ih (frames ++ [frame])).mpr (hrest (hiff.mp ⟨frame, hframe⟩))
        exact ⟨hsurvives', hhere, hrange⟩

theorem Rejection.errorCode_ne_ok (r : Rejection) : r.errorCode ≠ .ok := by
  cases r <;> decide

/-- Loading a file never ends the process, reports an error unless it succeeds and lets no
status SPN out of range through exactly when, up to the first entry that the checks reject,
the frames and SPNs are objects or null, every PGN of PDU format 1 has no PDU specific byte,
every SPN number has 19 bits, strings are not mixed with other SPNs, no sum of bit offset and
bit size wraps, and descriptions can be read. -/
theorem loadsSafely_iff (hdoc : lib.Documented) (db : J1939DataBase) (file : JsonFile) :
    LoadsSafely lib db file ↔ file.Harmless lib := by
  have htrivial : (∃ code, code ≠ EErrorCode.ok ∧
      parseJsonFile lib db file = .ok ({ db with errorCode := code }, false)) →
        file.accepted lib = [] → LoadsSafely lib db file := by
    rintro ⟨code, hcode, hparse⟩ hnone
    exact ⟨⟨_, _, hparse, .inr ⟨rfl, hcode⟩⟩, by simp [hnone]⟩
  cases file with
  | notFound => exact iff_of_true (htrivial ⟨.fileNotFound, by decide, rfl⟩ rfl) trivial
  | syntaxError => exact iff_of_true (htrivial ⟨.jsonSyntax, by decide, rfl⟩ rfl) trivial
  | value value =>
    cases value with
    | array data =>
      have hiff := parseFrames_iff hdoc db.frames data
      rw [JsonFile.Harmless, ← hiff]
      cases hparse : parseFrames lib db.frames data with
      | mk frames ending =>
        constructor
        · rintro ⟨⟨db', ret, hreturned, -⟩, hrange⟩
          refine ⟨fun a ha => ?_, hrange⟩
          obtain rfl : ending = .error (.aborted a) := ha
          rw [parseJsonFile, hparse] at hreturned
          cases hreturned
        · rintro ⟨hsurvives, hrange⟩
          refine ⟨?_, hrange⟩
          rw [parseJsonFile, hparse]
          cases ending with
          | ok => exact ⟨_, _, rfl, .inl rfl⟩
          | error e =>
            cases e with
            | rejected r => exact ⟨_, _, rfl, .inr ⟨rfl, r.errorCode_ne_ok⟩⟩
            | aborted a => exact absurd rfl (hsurvives a)
    | _ => exact iff_of_true (htrivial ⟨.unexpectedTokens, by decide, rfl⟩ rfl) trivial

/-- A file of one frame with a numeric and a status SPN. -/
def engineFile : JsonFile := .value (.array [.object [
  (pgnKey, .int 0xF004), (nameKey, .string "EEC1"), (lengthKey, .int 8),
  (spnsKey, .array [
    .object [(typeKey, .int 0), (numberKey, .int 190), (nameKey, .string "Engine Speed"),
      (offsetKey, .int 3), (numByteSizeKey, .int 2), (numFormatGainKey, .real (1 / 8)),
      (numFormatOffsetKey, .real 0), (numUnitsKey, .string "rpm")],
    .object [(typeKey, .int 1), (numberKey, .int 899), (nameKey, .string "Torque Mode"),
      (offsetKey, .int 0), (statBitOffsetKey, .int 0), (statBitSizeKey, .int 4),
      (statDescriptionsKey, .array [.string "Low idle", .null, .string "Cruise control"])]])]])

theorem engineFile_loadsSafely :
    JsonCpp.reference.Documented ∧ LoadsSafely JsonCpp.reference {} engineFile := by
  have hharmless : engineFile.Harmless JsonCpp.reference := by
    refine ⟨⟨by simp [Json.members?], fun pgn hpgn => ?_, fun pgn spns _ hspns => ?_⟩,
      fun _ => trivial⟩
    · cases hpgn
      decide
    · cases hspns
      refine ⟨⟨by simp [Json.members?], fun e he => ?_, fun e he => ?_⟩, fun e he => ⟨⟨by
        simp [Json.members?], fun e' he' => ?_, fun e' he' => ?_⟩, fun _ _ => trivial⟩⟩
      · cases he
        exact ⟨by decide, by simp, trivial⟩
      · cases he
      · cases he
        cases he'
        exact ⟨by decide, by simp [SpnEntry.isString], by decide⟩
      · intro ms d hms hd _
        cases hms
        cases hd
        exact ⟨_, rfl, by simp [Json.isScalar]⟩
  exact ⟨JsonCpp.reference_documented,
    (loadsSafely_iff JsonCpp.reference_documented {} engineFile).mpr hharmless⟩

/-- A status SPN whose bit offset and bit size add up to 2^32 + 1. -/
def wrappedBits : JsonFile := .value (.array [.object [
  (pgnKey, .int 0xF004),
  (spnsKey, .array [
    .object [(typeKey, .int 1), (numberKey, .int 899), (nameKey, .string "Torque Mode"),
      (offsetKey, .int 0), (statBitOffsetKey, .int 0xFFFFFFFF), (statBitSizeKey, .int 2)]])]])

/-- The wrapped sum passes the check, and the constructor of the SPN ends the process. -/
theorem wrappedBits_not_loadsSafely : ¬LoadsSafely JsonCpp.reference {} wrappedBits := by
  rintro ⟨⟨db', ret, hreturned, -⟩, -⟩
  have haborted : parseJsonFile JsonCpp.reference {} wrappedBits = .error .assertion := rfl
  rw [haborted] at hreturned
  cases hreturned

end J1939
