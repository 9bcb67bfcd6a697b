import J1939.SPN

/-!
# Frames described by the database

A `GenericFrame` decodes and encodes its SPNs in the order of their numbers. The
offsets of string SPNs follow from the lengths of the strings before them and are
recomputed whenever one of them changes.
-/

namespace J1939

/-- `GenericFrame`: `mSPNs` maps the SPN numbers to the SPNs. -/
structure GenericFrame extends Header where
  pgn : UInt32
  length : ℕ := 0
  spns : SortedMap UInt32 SPN := ∅
  deriving DecidableEq

/-- The recomputation of the offsets behind an SPN that ends at `next`. -/
def recalculateFrom (next : ℕ) : List SPN → List SPN
  | [] => []
  | spn :: spns =>
    let moved := spn.setOffset next
    moved :: recalculateFrom (moved.getOffset + moved.getByteSize.toNat) spns

/-- `GenericFrame::recalculateStringOffsets` on the SPNs in order: the first one
keeps its offset. -/
def recalculateStringOffsets : List SPN → List SPN
  | [] => []
  | spn :: spns => spn :: recalculateFrom (spn.getOffset + spn.getByteSize.toNat) spns

@[simp] theorem length_recalculateFrom (next : ℕ) (spns : List SPN) :
    (recalculateFrom next spns).length = spns.length := by
  induction spns generalizing next with
  | nil => rfl
  | cons spn spns ih => simp [recalculateFrom, ih]

@[simp] theorem length_recalculateStringOffsets (spns : List SPN) :
    (recalculateStringOffsets spns).length = spns.length := by
  cases spns <;> simp [recalculateStringOffsets]

/-- One iteration of `GenericFrame::decodeData`. A string SPN that has been decoded
makes its owner recompute the offsets. -/
def decodeAt (length i : ℕ) : Method (List SPN) J1939Exception Unit := do
  let spns ← Method.get
  match spns[i]? with
  | none => pure ()
  | some spn =>
    Method.throwIf (spn.getOffset ≥ length) .spnOffset
    Method.advance spn.getOffset
      (Method.onPart (fun _ => spn) (fun spns spn' => spns.set i spn')
        (SPN.decode (length - spn.getOffset)))
    if spn.isString then Method.modify recalculateStringOffsets

/-- The loop of `GenericFrame::decodeData` over the SPNs in order. -/
def decodeSpns (length : ℕ) : Method (List SPN) J1939Exception Unit := do
  let spns ← Method.get
  Method.forEach (List.range spns.length) (decodeAt length)

/-- One iteration of `GenericFrame::encodeData`. -/
def encodeSpn (length : ℕ) (buffer : List UInt8) (spn : SPN) :
    Except J1939Exception (List UInt8) :=
  if spn.getOffset ≥ length then
    .error (.spnEncodeOffset spn.getSpnNumber spn.getOffset length)
  else spn.encode buffer spn.getOffset (length - spn.getOffset)

/-- The loop of `GenericFrame::encodeData` over the SPNs in order. -/
def encodeSpns (length : ℕ) : List UInt8 → List SPN → Except J1939Exception (List UInt8)
  | buffer, [] => .ok buffer
  | buffer, spn :: spns =>
    match encodeSpn length buffer spn with
    | .error e => .error e
    | .ok buffer' => encodeSpns length buffer' spns

/-- The loop of `GenericFrame::getDataLength` over the SPNs in reverse order: the
largest offset so far and the size of the last SPN that has it. -/
def lastSpn (acc : ℕ × ℕ) (spn : SPN) : ℕ × ℕ :=
  if acc.1 > spn.getOffset then acc else (spn.getOffset, spn.getByteSize.toNat)

namespace GenericFrame

/-- `GenericFrame::decodeData`. -/
def decodeData (length : ℕ) : Method GenericFrame J1939Exception Unit :=
  Method.onPart (fun f => f.spns.values) (fun f vs => { f with spns := f.spns.setValues vs })
    (decodeSpns length)

/-- `GenericFrame::encodeData`. -/
def encodeData (f : GenericFrame) (buffer : List UInt8) : Except J1939Exception (List UInt8) :=
  encodeSpns buffer.length buffer f.spns.values

/-- `GenericFrame::getDataLength`. -/
def getDataLength (f : GenericFrame) : ℕ :=
  let last := f.spns.values.reverse.foldl lastSpn (0, 1)
  max f.length (last.1 + last.2)

def setLength (f : GenericFrame) (length : ℕ) : GenericFrame := { f with length := length }

/-- The assertion of `registerSPN`: a frame has string SPNs only or none. -/
def registerAssertion (f : GenericFrame) (spn : SPN) : Prop :=
  ∀ first ∈ f.spns.values.head?, first.isString = spn.isString

instance (f : GenericFrame) (spn : SPN) : Decidable (f.registerAssertion spn) :=
  inferInstanceAs (Decidable (∀ first ∈ f.spns.values.head?, _))

/-- `GenericFrame::registerSPN`: a number that is taken keeps its SPN. -/
def registerSPN (f : GenericFrame) (spn : SPN) : GenericFrame :=
  let spns := match f.spns.find? spn.getSpnNumber with
    | none => f.spns.insert spn.getSpnNumber spn
    | some _ => f.spns
  if spn.isString then
    { f with spns := spns.setValues (recalculateStringOffsets spns.values) }
  else { f with spns := spns }

/-- `SPNString::setValue` on the string SPN with the given number: the owner
recomputes the offsets when the value was accepted. -/
def setStringValue (f : GenericFrame) (number : UInt32) (value : List UInt8) : GenericFrame :=
  match f.spns.find? number with
  | some (.string spn) =>
    if value.all SPNString.isAscii then
      let spns := f.spns.insert number (.string (spn.setValue value))
      { f with spns := spns.setValues (recalculateStringOffsets spns.values) }
    else f
  | _ => f

/-- A string of ASCII characters is assigned, and the offsets are computed again. Any other call
has no effect. -/
theorem setStringValue_cases (f : GenericFrame) (number : UInt32) (value : List UInt8) :
    f.setStringValue number value = f ∨
      ∃ s spns, f.spns.find? number = some (.string s) ∧ value.all SPNString.isAscii = true ∧
        spns = f.spns.insert number (.string { s with value := value }) ∧
        f.setStringValue number value =
          { f with spns := spns.setValues (recalculateStringOffsets spns.values) } := by
  rw [setStringValue]
  split
  · next s hfind =>
    by_cases hascii : value.all SPNString.isAscii = true
    · have hvalue : s.setValue value = { s with value := value } := if_pos hascii
      rw [if_pos hascii, hvalue]
      exact Or.inr ⟨s, _, hfind, hascii, rfl, rfl⟩
    · rw [if_neg hascii]
      exact Or.inl rfl
  · exact Or.inl rfl

theorem encodeSpn_length {length : ℕ} {buffer out : List UInt8} {spn : SPN}
    (h : encodeSpn length buffer spn = .ok out) : out.length = buffer.length := by
  unfold encodeSpn at h
  split_ifs at h
  cases spn with
  | numeric n =>
    simp only [SPN.encode, SPNNumeric.encode] at h
    split_ifs at h
    cases h
    simp
  | status s =>
    simp only [SPN.encode, SPNStatus.encode] at h
    split_ifs at h
    cases h
    simp
  | string s =>
    simp only [SPN.encode, SPNString.encode] at h
    split_ifs at h
    cases h
    simp

theorem encodeSpns_length {length : ℕ} {buffer out : List UInt8} {spns : List SPN}
    (h : encodeSpns length buffer spns = .ok out) : out.length = buffer.length := by
  induction spns generalizing buffer with
  | nil =>
    cases h
    rfl
  | cons spn spns ih =>
    unfold encodeSpns at h
    split at h
    · cases h
    · next buffer' hspn => rw [ih h, encodeSpn_length hspn]

instance : IsJ1939Frame GenericFrame where
  header := toHeader
  withHeader f h := { f with toHeader := h }
  getPGN := pgn
  decodeData := decodeData
  encodeData := encodeData
  getDataLength := getDataLength
  header_withHeader _ _ := rfl
  withHeader_header _ := rfl
  withHeader_withHeader _ _ _ := rfl
  getPGN_withHeader _ _ := rfl
  decodeData_header _ _ _ := by rw [decodeData, Method.run_onPart]
  decodeData_getPGN _ _ _ := by rw [decodeData, Method.run_onPart]
  encodeData_length _ _ _ h := encodeSpns_length h

end GenericFrame

/-! ### Registering -/

section Register

variable {frame : GenericFrame} {spn : SPN}

/-- The SPNs among which the new one has found its place. -/
def registeredSpns (spns : SortedMap UInt32 SPN) (spn : SPN) : SortedMap UInt32 SPN :=
  match spns.find? spn.getSpnNumber with
  | none => spns.insert spn.getSpnNumber spn
  | some _ => spns

theorem registeredSpns_of_none {spns : SortedMap UInt32 SPN}
    (h : spns.find? spn.getSpnNumber = none) :
    registeredSpns spns spn = spns.insert spn.getSpnNumber spn := by
  rw [registeredSpns, h]

theorem registeredSpns_of_some {spns : SortedMap UInt32 SPN} {old : SPN}
    (h : spns.find? spn.getSpnNumber = some old) : registeredSpns spns spn = spns := by
  rw [registeredSpns, h]

theorem registerSPN_eq_ite (frame : GenericFrame) (spn : SPN) :
    frame.registerSPN spn = if spn.isString then
      { frame with
        spns := (registeredSpns frame.spns spn).setValues
          (recalculateStringOffsets (registeredSpns frame.spns spn).values) }
      else { frame with spns := registeredSpns frame.spns spn } := rfl

/-- The first SPN comes from the frame or is the new one. -/
theorem head?_registeredSpns {P : SPN → Prop} (hold : ∀ x ∈ frame.spns.values.head?, P x)
    (hnew : P spn) : ∀ x ∈ (registeredSpns frame.spns spn).values.head?, P x := by
  unfold registeredSpns
  cases frame.spns.find? spn.getSpnNumber with
  | some _ => exact hold
  | none =>
    intro x hx
    simp only [SortedMap.values, SortedMap.insert, List.head?_map] at hx hold
    cases hentries : frame.spns.entries with
    | nil =>
      rw [hentries] at hx
      obtain rfl : spn = x := Option.some.inj hx
      exact hnew
    | cons e rest =>
      obtain ⟨j, s⟩ := e
      rw [hentries, SortedMap.insertIn] at hx
      rw [hentries] at hold
      split_ifs at hx
      · obtain rfl : spn = x := Option.some.inj hx
        exact hnew
      · obtain rfl : spn = x := Option.some.inj hx
        exact hnew
      · exact hold x hx

theorem registeredSpns_values_ne_nil : (registeredSpns frame.spns spn).values ≠ [] := by
  have hne : ∀ {m : SortedMap UInt32 SPN} {s : SPN}, m.find? spn.getSpnNumber = some s →
      m.values ≠ [] := by
    intro m s hfind
    exact List.ne_nil_of_mem (List.mem_map_of_mem (SortedMap.findIn_eq_some_mem hfind))
  unfold registeredSpns
  cases hfind : frame.spns.find? spn.getSpnNumber with
  | none =>
    apply hne
    rw [SortedMap.find?_insert]
    exact if_pos rfl
  | some s => exact hne hfind

end Register

end J1939
