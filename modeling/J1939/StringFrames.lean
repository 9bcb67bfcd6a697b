import J1939.Codec
import J1939.FixedLayout
import J1939.StringLayout

/-!
# Frames of strings

A frame of strings is restored from its payload exactly when its strings survive, that
is, when no string contains the terminator, NULs are harmless and no size wraps, up to
the coincidences that `StringsSurvive` describes.
-/

namespace J1939

open Buffer SPNString

/-- The offset of the first SPN, which no recomputation changes. -/
def firstOffset (spns : List SPN) : ℕ := (spns.head?.map SPN.getOffset).getD 0

/-- A frame of strings whose offsets are up to date. -/
structure StringFrame (f : GenericFrame) : Prop where
  settled : SettledFrom (firstOffset f.spns.values) f.spns.values
  ascii : ∀ spn ∈ f.spns.values, spn.text.all isAscii = true

theorem recalculateStringOffsets_settled {spns : List SPN}
    (hstring : ∀ spn ∈ spns, spn.isString = true) :
    SettledFrom (firstOffset spns) (recalculateStringOffsets spns) ∧
      firstOffset (recalculateStringOffsets spns) = firstOffset spns ∧
        (recalculateStringOffsets spns).map SPN.text = spns.map SPN.text := by
  cases spns with
  | nil => exact ⟨trivial, rfl, rfl⟩
  | cons spn spns =>
    rw [List.forall_mem_cons] at hstring
    cases spn with
    | numeric n => cases hstring.1
    | status s => cases hstring.1
    | string s =>
      obtain ⟨hsettled, htexts⟩ :=
        recalculateFrom_settled (s.offset + stringSize s.value) hstring.2
      exact ⟨⟨⟨s, rfl, rfl⟩, hsettled⟩, rfl, congrArg (s.value :: ·) htexts⟩

/-- The recomputation of the offsets makes a frame of ASCII strings well formed. -/
theorem stringFrame_recalculated (f : GenericFrame) {spns : SortedMap UInt32 SPN}
    (hstring : ∀ spn ∈ spns.values, spn.isString = true)
    (hascii : ∀ spn ∈ spns.values, spn.text.all isAscii = true) :
    StringFrame { f with spns := spns.setValues (recalculateStringOffsets spns.values) } := by
  obtain ⟨hsettled, hfirst, htexts⟩ := recalculateStringOffsets_settled hstring
  have hvalues : (spns.setValues (recalculateStringOffsets spns.values)).values =
      recalculateStringOffsets spns.values :=
    SortedMap.values_setValues (length_recalculateStringOffsets _)
  constructor
  · rw [hvalues, hfirst]
    exact hsettled
  · rw [hvalues]
    intro spn hspn
    have htext := List.mem_map_of_mem (f := SPN.text) hspn
    rw [htexts, List.mem_map] at htext
    obtain ⟨spn', hspn', heq⟩ := htext
    rw [← heq]
    exact hascii spn' hspn'

theorem StringFrame.isString {f : GenericFrame} (h : StringFrame f) :
    ∀ spn ∈ f.spns.values, spn.isString = true :=
  isString_of_settledFrom h.settled

/-- The frames before any SPN is registered. -/
theorem stringFrame_new (pgn : UInt32) : StringFrame { pgn := pgn } :=
  ⟨trivial, by simp [SortedMap.values]⟩

/-- What `insert` leaves in the map holds of the values if it held before and holds of
the new value. -/
theorem forall_values_insert {spns : SortedMap UInt32 SPN} {number : UInt32} {spn : SPN}
    {P : SPN → Prop} (hspns : ∀ x ∈ spns.values, P x) (hspn : P spn) :
    ∀ x ∈ (spns.insert number spn).values, P x := by
  intro x hx
  obtain ⟨e, he, rfl⟩ := List.mem_map.mp hx
  rcases SortedMap.mem_insertIn he with rfl | hmem
  · exact hspn
  · exact hspns _ (List.mem_map_of_mem hmem)

/-- Registering an ASCII string keeps a frame of strings well formed. -/
theorem StringFrame.registerSPN {f : GenericFrame} (h : StringFrame f) {s : SPNString}
    (hascii : s.value.all isAscii = true) : StringFrame (f.registerSPN (.string s)) := by
  rw [registerSPN_eq_ite, if_pos (show (SPN.string s).isString = true from rfl), registeredSpns]
  cases f.spns.find? (SPN.string s).getSpnNumber with
  | none =>
    exact stringFrame_recalculated f (forall_values_insert h.isString rfl)
      (forall_values_insert h.ascii hascii)
  | some _ => exact stringFrame_recalculated f h.isString h.ascii

/-- Assigning a value, of any characters and any length, keeps it well formed. -/
theorem StringFrame.setStringValue {f : GenericFrame} (h : StringFrame f) (number : UInt32)
    (value : List UInt8) : StringFrame (f.setStringValue number value) := by
  rcases f.setStringValue_cases number value with hsame | ⟨s, spns, hfind, hascii, rfl, hset⟩
  · rw [hsame]
    exact h
  · rw [hset]
    exact stringFrame_recalculated f (forall_values_insert h.isString rfl)
      (forall_values_insert h.ascii hascii)

section Length

theorem SettledFrom.end_le {start : ℕ} {spns : List SPN} (h : SettledFrom start spns) :
    ∀ spn ∈ spns, spn.getOffset + spn.getByteSize.toNat ≤ endOf start (spns.map SPN.text) := by
  induction spns generalizing start with
  | nil => simp
  | cons spn spns ih =>
    obtain ⟨⟨s, rfl, rfl⟩, hrest⟩ := h
    rw [List.forall_mem_cons]
    exact ⟨le_endOf (s.offset + stringSize s.value) _, ih hrest⟩

/-- When no size has wrapped, the string with the largest offset is the last one. -/
theorem SettledFrom.end_eq {start : ℕ} {spns : List SPN} (h : SettledFrom start spns)
    (hshort : ∀ v ∈ spns.map SPN.text, v.length ≤ 254) {last : SPN} (hlast : last ∈ spns)
    (hmax : ∀ spn ∈ spns, spn.getOffset ≤ last.getOffset) :
    last.getOffset + last.getByteSize.toNat = endOf start (spns.map SPN.text) := by
  induction spns generalizing start with
  | nil => cases hlast
  | cons spn spns ih =>
    obtain ⟨⟨s, rfl, rfl⟩, hrest⟩ := h
    rw [List.map_cons, List.forall_mem_cons] at hshort
    rw [List.forall_mem_cons] at hmax
    rcases List.mem_cons.mp hlast with rfl | hin
    · cases spns with
      | nil => rfl
      | cons next spns =>
        obtain ⟨⟨t, rfl, hnext⟩, -⟩ := hrest
        have hle : t.offset ≤ s.offset := hmax.2 _ (List.mem_cons_self ..)
        have hlength : s.value.length ≤ 254 := hshort.1
        have hsize : t.offset = s.offset + stringSize s.value := hnext
        rw [stringSize_eq, Nat.mod_eq_of_lt (by omega)] at hsize
        omega
    · exact ih hrest hshort.2 hin hmax.2

/-- The payload ends with the last string, or is longer, unless a size has wrapped. -/
theorem StringFrame.getDataLength_bounds {f : GenericFrame} (h : StringFrame f)
    (hne : f.spns.values ≠ []) :
    f.getDataLength ≤
        max f.length (endOf (firstOffset f.spns.values) (f.spns.values.map SPN.text)) ∧
      ((∀ v ∈ f.spns.values.map SPN.text, v.length ≤ 254) →
        endOf (firstOffset f.spns.values) (f.spns.values.map SPN.text) ≤ f.getDataLength) := by
  obtain ⟨last, hlast, hmax, hlength⟩ := exists_lastSpn hne
  have hle := h.settled.end_le last hlast
  refine ⟨by omega, fun hshort => ?_⟩
  have heq := h.settled.end_eq hshort hlast hmax
  omega

end Length

/-- The strings of a frame under their numbers. -/
def GenericFrame.texts (f : GenericFrame) : List (UInt32 × List UInt8) :=
  f.spns.entries.map fun e => (e.1, e.2.text)

theorem GenericFrame.texts_eq_zip (f : GenericFrame) :
    f.texts = (f.spns.entries.map Prod.fst).zip (f.spns.values.map SPN.text) := by
  rw [texts, SortedMap.values, List.map_map, List.zip_map']
  rfl

/-- Two frames of strings have the same SPN definitions under the same numbers. The
offset of the first string is part of them: all others follow from the values. -/
structure SameStrings (f g : GenericFrame) : Prop where
  specs : g.spns.entries.map (fun e => (e.1, e.2.spec)) =
    f.spns.entries.map fun e => (e.1, e.2.spec)
  isString : ∀ spn ∈ g.spns.values, spn.isString = true
  firstOffset : firstOffset g.spns.values = firstOffset f.spns.values

theorem SameStrings.refl {f : GenericFrame} (h : StringFrame f) : SameStrings f f :=
  ⟨rfl, h.isString, rfl⟩

theorem SameStrings.keys {f g : GenericFrame} (h : SameStrings f g) :
    g.spns.entries.map Prod.fst = f.spns.entries.map Prod.fst := by
  have hkeys := congrArg (List.map Prod.fst) h.specs
  simpa only [List.map_map, Function.comp_def] using hkeys

theorem SameStrings.length_values {f g : GenericFrame} (h : SameStrings f g) :
    g.spns.values.length = f.spns.values.length := by
  have hlength := congrArg List.length h.keys
  simpa using hlength

/-- Encoding into `getDataLength` bytes succeeds, and decoding them into any frame with
the same definitions yields the same strings. -/
def StringsRestored (f : GenericFrame) : Prop :=
  ∃ e, encode f (getDataLength f) = .ok e ∧
    ∀ g, SameStrings f g → ∀ beyond, ∃ g',
      (decodeData e.buffer.length).run g (Memory.ofList e.buffer beyond) = (.ok (), g') ∧
        g'.texts = f.texts

theorem getOffset_of_mem_head?_firstOffset (spns : List SPN) :
    ∀ spn ∈ spns.head?, spn.getOffset = firstOffset spns := by
  cases spns with
  | nil => simp
  | cons spn spns => simp [firstOffset]

/-- Decoding yields the strings that the payload parses to. -/
theorem decodeData_texts_iff {f g : GenericFrame} (hsame : SameStrings f g) {length : ℕ}
    {mem : Memory} :
    (∃ g', (GenericFrame.decodeData length).run g mem = (.ok (), g') ∧ g'.texts = f.texts) ↔
      parseStrings mem length (firstOffset f.spns.values) f.spns.values.length =
        some (f.spns.values.map SPN.text) := by
  have hrun := @run_decodeSpns_strings length _ _ hsame.isString
    (getOffset_of_mem_head?_firstOffset _) mem
  rw [hsame.firstOffset, hsame.length_values] at hrun
  rw [GenericFrame.decodeData, Method.run_onPart]
  rcases hrun with ⟨vs, spns', hparse, hrun, htexts, hlength⟩ | ⟨hparse, e, st, hrun, -⟩
  · have hvalues : (g.spns.setValues spns').values = spns' :=
      SortedMap.values_setValues (by rw [hlength, hsame.length_values])
    have hkeys : (g.spns.setValues spns').entries.map Prod.fst =
        f.spns.entries.map Prod.fst := by
      rw [← hsame.keys]
      exact SortedMap.map_fst_setValuesIn _ _
    have hdecoded : GenericFrame.texts { g with spns := g.spns.setValues spns' } =
        (f.spns.entries.map Prod.fst).zip vs := by
      rw [GenericFrame.texts_eq_zip]
      change (List.map Prod.fst (g.spns.setValues spns').entries).zip
        ((g.spns.setValues spns').values.map SPN.text) = _
      rw [hvalues, hkeys, htexts]
    rw [hrun, hparse]
    constructor
    · rintro ⟨g', hg', hsameTexts⟩
      obtain rfl := (Prod.ext_iff.mp hg').2
      rw [hdecoded, GenericFrame.texts_eq_zip] at hsameTexts
      have hsnd := congrArg (List.map Prod.snd) hsameTexts
      rw [List.map_snd_zip, List.map_snd_zip] at hsnd
      · rw [hsnd]
      · simp
      · simp [← htexts, hlength]
    · intro hvs
      refine ⟨_, rfl, ?_⟩
      rw [hdecoded, GenericFrame.texts_eq_zip, Option.some.inj hvs]
  · rw [hrun, hparse]
    constructor
    · rintro ⟨g', hg', -⟩
      cases (Prod.ext_iff.mp hg').1
    · rintro ⟨⟩

/-- Encoding a frame of strings writes them one after the other. -/
theorem encode_strings_iff {f : GenericFrame} (hf : StringFrame f) (hprio : getPriority f ≤ 7)
    {e : Encoded} :
    encode f (getDataLength f) = .ok e ↔
      encodeStrings f.getDataLength (List.replicate f.getDataLength 0xFF)
          (firstOffset f.spns.values) (f.spns.values.map SPN.text) = some e.buffer ∧
        e.identifier = getIdentifier f ∧ e.length = f.getDataLength := by
  have hdata : encodeData f (List.replicate (getDataLength f) 0xFF) = encodeSpns
      (List.replicate f.getDataLength (0xFF : UInt8)).length
        (List.replicate f.getDataLength 0xFF) f.spns.values := rfl
  rw [encode_eq_ok_iff, ← encodeSpns_settled hf.settled, hdata, List.length_replicate]
  have hsome : ∀ r : Except J1939Exception (List UInt8),
      r.toOption = some e.buffer ↔ r = .ok e.buffer := by
    intro r
    cases r <;> simp [Except.toOption]
  rw [hsome]
  constructor
  · rintro ⟨-, -, hout, hid, hlen⟩
    exact ⟨hout, hid, hlen⟩
  · rintro ⟨hout, hid, hlen⟩
    exact ⟨hprio, le_rfl, hout, hid, hlen⟩

/-- A frame of strings is restored from its payload exactly when its strings survive
the offsets that wrap, the copy that stops at a NUL and the search for the terminator. -/
theorem stringsRestored_iff {f : GenericFrame} (hf : StringFrame f)
    (hprio : getPriority f ≤ 7) :
    StringsRestored f ↔
      StringsSurvive f.length (firstOffset f.spns.values) (f.spns.values.map SPN.text) := by
  have hparsed : ∀ out : List UInt8, out.length = f.getDataLength → ∀ g, SameStrings f g →
      ∀ beyond, ((∃ g', (decodeData out.length).run g (Memory.ofList out beyond) = (.ok (), g') ∧
        g'.texts = f.texts) ↔
        parseStrings (Memory.ofList out beyond) f.getDataLength (firstOffset f.spns.values)
          (f.spns.values.map SPN.text).length = some (f.spns.values.map SPN.text)) := by
    intro out hout g hsame beyond
    rw [List.length_map, hout]
    exact decodeData_texts_iff hsame
  have hrestored : ∀ beyond : Memory,
      (∃ out, encodeStrings f.getDataLength (List.replicate f.getDataLength 0xFF)
          (firstOffset f.spns.values) (f.spns.values.map SPN.text) = some out ∧
        parseStrings (Memory.ofList out beyond) f.getDataLength (firstOffset f.spns.values)
          (f.spns.values.map SPN.text).length = some (f.spns.values.map SPN.text)) ↔
      StringsSurvive f.length (firstOffset f.spns.values) (f.spns.values.map SPN.text) := by
    intro beyond
    by_cases hne : f.spns.values = []
    · rw [hne]
      exact ⟨fun _ => trivial, fun _ => ⟨_, rfl, rfl⟩⟩
    obtain ⟨hend, hshort⟩ := hf.getDataLength_bounds hne
    refine strings_restored_iff beyond List.length_replicate (fun k _ hk => ?_) ?_
      (le_max_left ..) hend hshort
    · rw [List.getD_eq_getElem _ _ (by simpa using hk), List.getElem_replicate]
    · rw [List.forall_mem_map]
      exact hf.ascii
  have hlength : ∀ {out : List UInt8}, encodeStrings f.getDataLength
      (List.replicate f.getDataLength 0xFF) (firstOffset f.spns.values)
        (f.spns.values.map SPN.text) = some out → out.length = f.getDataLength :=
    fun hout => (encodeStrings_eq_some List.length_replicate hout).1
  constructor
  · rintro ⟨e, hencode, hdecode⟩
    obtain ⟨hout, -, -⟩ := (encode_strings_iff hf hprio).mp hencode
    have hself := hdecode f (SameStrings.refl hf) (fun _ => 0)
    exact (hrestored _).mp ⟨e.buffer, hout, (hparsed _ (hlength hout) f
      (SameStrings.refl hf) _).mp hself⟩
  · intro hsurvive
    obtain ⟨out, hout, -⟩ := (hrestored fun _ => 0).mpr hsurvive
    refine ⟨⟨getIdentifier f, out, f.getDataLength⟩,
      (encode_strings_iff hf hprio).mpr ⟨hout, rfl, rfl⟩, fun g hsame beyond => ?_⟩
    obtain ⟨out', hout', hparse⟩ := (hrestored beyond).mpr hsurvive
    rw [hout, Option.some.injEq] at hout'
    subst hout'
    exact (hparsed out (hlength hout) g hsame beyond).mpr hparse

/-- The number of a vehicle. -/
def vehicleNumber : SPNSpec := ⟨237, "Vehicle Identification Number", 0, by decide⟩

/-- Two strings of vehicle data, registered out of order. -/
def vehicleStrings (vin engine : List UInt8) : GenericFrame :=
  ((((GenericFrame.registerSPN { pgn := 0xFEEC } (.string
    { spec := ⟨588, "Engine Serial Number", 0, by decide⟩ })).registerSPN (.string
    { spec := vehicleNumber })).setStringValue 237
    vin).setStringValue 588 engine)

theorem stringFrame_vehicleStrings (vin engine : List UInt8) :
    StringFrame (vehicleStrings vin engine) :=
  ((((stringFrame_new _).registerSPN rfl).registerSPN rfl).setStringValue _ _).setStringValue _ _

/-- The strings "1C4" and "ISX" are restored. -/
theorem vehicleStrings_restored :
    StringsRestored (vehicleStrings [0x31, 0x43, 0x34] [0x49, 0x53, 0x58]) := by
  refine (stringsRestored_iff (stringFrame_vehicleStrings _ _) (by decide)).mpr ?_
  change StringsSurvive 0 0 [[0x31, 0x43, 0x34], [0x49, 0x53, 0x58]]
  refine ⟨by decide, ?_⟩
  rw [if_pos (by decide)]
  refine ⟨by decide, by decide, ?_⟩
  rw [if_pos (by decide)]
  exact ⟨by decide, trivial⟩

/-- The string "1*4" is read back as "1", and the next one as "4". -/
theorem vehicleStrings_not_restored :
    ¬StringsRestored (vehicleStrings [0x31, 0x2A, 0x34] [0x49, 0x53, 0x58]) := by
  rintro ⟨e, hencode, hdecode⟩
  have hbuffer : encode (vehicleStrings [0x31, 0x2A, 0x34] [0x49, 0x53, 0x58])
      (getDataLength (vehicleStrings [0x31, 0x2A, 0x34] [0x49, 0x53, 0x58])) =
        .ok ⟨getIdentifier (vehicleStrings [0x31, 0x2A, 0x34] [0x49, 0x53, 0x58]),
          [0x31, 0x2A, 0x34, 0x2A, 0x49, 0x53, 0x58, 0x2A], 8⟩ := by
    decide
  rw [hbuffer, Except.ok.injEq] at hencode
  subst hencode
  obtain ⟨g', hrun, htexts⟩ := hdecode _ (SameStrings.refl (stringFrame_vehicleStrings _ _))
    fun _ => 0
  have hread := congrArg (fun r => r.2.texts) hrun
  simp only [htexts] at hread
  revert hread
  decide

end J1939
