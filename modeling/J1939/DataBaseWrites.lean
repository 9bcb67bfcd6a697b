import J1939.DataBaseReads
import J1939.ParsedFrames

/-!
# Reading what has been written

The writer leaves out what the reader rebuilds: empty descriptions, the values that no
description belongs to and the offsets of strings. An SPN as a constructor leaves it passes
the checks of the reader and is registered again.
-/

namespace J1939

variable {lib : JsonCpp}

/-! ### Values that have been written -/

/-- The value is an object with these members. -/
def Holds (value : Json) (members : String → Option Json) : Prop :=
  ∃ ms, value = .object ms ∧ ∀ key, ms.lookup key = members key

theorem Holds.setMember (hdoc : lib.Documented) {value : Json} {members : String → Option Json}
    (h : Holds value members) (key : String) (x : Json) :
    Holds (lib.setMember value key x) fun k => if k = key then some x else members k := by
  obtain ⟨ms, rfl, hms⟩ := h
  obtain ⟨ms', heq, hlookup⟩ := hdoc.setMember_some (.object ms) ms key x rfl
  exact ⟨ms', heq, fun k => by rw [hlookup, hms]⟩

/-- The first member makes a null value an object. -/
theorem holds_setMember_null (hdoc : lib.Documented) (key : String) (x : Json) :
    Holds (lib.setMember .null key x) fun k => if k = key then some x else none := by
  obtain ⟨ms', heq, hlookup⟩ := hdoc.setMember_some .null [] key x rfl
  exact ⟨ms', heq, fun k => by rw [hlookup, List.lookup_nil]⟩

theorem isUInt_nat (hdoc : lib.Documented) {n : ℕ} (h : n < 2 ^ 32) :
    lib.isUInt (.int n) = true := by
  rw [hdoc.isUInt_int, decide_eq_true_eq]
  omega

theorem asUInt_nat (hdoc : lib.Documented) {n : ℕ} (h : n < 2 ^ 32) :
    lib.asUInt (.int n) = UInt32.ofNat n := by
  have hn : (UInt32.ofNat n).toNat = n := UInt32.toNat_ofNat_of_lt' h
  have hint := hdoc.asUInt_int (UInt32.ofNat n)
  rwa [hn] at hint

theorem toNat_asUInt_nat (hdoc : lib.Documented) {n : ℕ} (h : n < 2 ^ 32) :
    (lib.asUInt (.int n)).toNat = n := by
  rw [asUInt_nat hdoc h]
  exact UInt32.toNat_ofNat_of_lt' h

theorem asUInt_byte (hdoc : lib.Documented) (b : UInt8) :
    lib.asUInt (.int b.toNat) = b.toUInt32 := by
  have hlt := b.toNat_lt
  have hint := hdoc.asUInt_int b.toUInt32
  rwa [UInt8.toNat_toUInt32] at hint

/-- An array is filled element by element. -/
theorem elements?_writeAll (hdoc : lib.Documented) (values : List Json) :
    (writeAll lib values).elements? = some values ∧
      (values ≠ [] → writeAll lib values = .array values) := by
  have hfill : ∀ (values es : List Json) (data : Json), data.elements? = some es →
      ((values.zipIdx es.length).foldl (fun data e => lib.setElement data e.2 e.1)
          data).elements? = some (es ++ values) ∧
        (values ≠ [] → (values.zipIdx es.length).foldl
          (fun data e => lib.setElement data e.2 e.1) data = .array (es ++ values)) := by
    intro values
    induction values with
    | nil =>
      intro es data hdata
      exact ⟨by rw [List.append_nil]; exact hdata, fun h => absurd rfl h⟩
    | cons x values ih =>
      intro es data hdata
      have hset : lib.setElement data es.length x = .array (es ++ [x]) := by
        rw [hdoc.setElement_some data es es.length x hdata]
        simp
      have hlength : (es ++ [x]).length = es.length + 1 := by simp
      obtain ⟨helements, harray⟩ := ih (es ++ [x]) (lib.setElement data es.length x) (by
        rw [hset]
        rfl)
      rw [hlength, List.append_assoc] at helements harray
      rw [List.zipIdx_cons, List.foldl_cons]
      refine ⟨helements, fun _ => ?_⟩
      cases values with
      | nil => exact hset
      | cons y values => exact harray (List.cons_ne_nil _ _)
  exact hfill values [] .null rfl

/-! ### Descriptions -/

/-- The elements of an array of descriptions. -/
def DescribedBy (es : List Json) (find : UInt8 → Option String) : Prop :=
  es.length ≤ 256 ∧ ∀ k : UInt8, es[k.toNat]?.getD Json.null = ((find k).map Json.string).getD .null

theorem getElem?_setElement {es : List Json} {i : ℕ} (x : Json) (j : ℕ) :
    (((es ++ List.replicate (i + 1 - es.length) Json.null).set i x)[j]?).getD Json.null =
      if i = j then x else es[j]?.getD Json.null := by
  rw [List.getElem?_set]
  by_cases hij : i = j
  · have hlt : i < (es ++ List.replicate (i + 1 - es.length) Json.null).length := by
      rw [List.length_append, List.length_replicate]
      omega
    rw [if_pos hij, if_pos hij, if_pos hlt]
    rfl
  · rw [if_neg hij, if_neg hij]
    by_cases hj : j < es.length
    · rw [List.getElem?_append_left hj]
    · rw [List.getElem?_append_right (not_lt.mp hj), List.getElem?_replicate,
        List.getElem?_eq_none (not_lt.mp hj)]
      split_ifs <;> rfl

/-- A further description finds its place. -/
theorem DescribedBy.set {es : List Json} {find : UInt8 → Option String} (h : DescribedBy es find)
    (value : UInt8) (text : String) :
    DescribedBy ((es ++ List.replicate (value.toNat + 1 - es.length) Json.null).set value.toNat
      (.string text)) fun k => if k = value then some text else find k := by
  constructor
  · have hlt := value.toNat_lt
    have hle := h.1
    rw [List.length_set, List.length_append, List.length_replicate]
    omega
  · intro k
    beta_reduce
    rw [getElem?_setElement]
    by_cases hk : k = value
    · rw [if_pos (congrArg UInt8.toNat hk.symm), if_pos hk]
      rfl
    · rw [if_neg fun heq => hk (UInt8.toNat_inj.mp heq.symm), if_neg hk, h.2 k]

/-- Looking first into the remaining entries of a map finds the same. -/
theorem findIn_cons_or {value : UInt8} {text : String} {l : List (UInt8 × String)}
    (hbelow : ∀ e ∈ l, value < e.1) (find : UInt8 → Option String) :
    (fun k => (SortedMap.findIn k ((value, text) :: l)).or (find k)) =
      fun k => (SortedMap.findIn k l).or (if k = value then some text else find k) := by
  funext k
  rw [SortedMap.findIn]
  by_cases hk : value = k
  · subst hk
    have habsent : SortedMap.findIn value l = none := by
      cases hfind : SortedMap.findIn value l with
      | none => rfl
      | some x => exact absurd (hbelow _ (SortedMap.findIn_eq_some_mem hfind)) (lt_irrefl _)
    simp [habsent]
  · simp [hk, Ne.symm hk]

/-- The loop of `writeSPN` over descriptions in ascending order. -/
theorem describedBy_foldl (hdoc : lib.Documented) {l : List (UInt8 × String)}
    (hsorted : l.Pairwise fun a b => a.1 < b.1) {es : List Json} {data : Json}
    {find : UInt8 → Option String} (hdata : data.elements? = some es)
    (hdescribes : DescribedBy es find) :
    ∃ es', (l.foldl (fun description e =>
        lib.setElement description e.1.toNat (.string e.2)) data).elements? = some es' ∧
      DescribedBy es' (fun k => (SortedMap.findIn k l).or (find k)) ∧
        (l ≠ [] → l.foldl (fun description e =>
          lib.setElement description e.1.toNat (.string e.2)) data = .array es') := by
  induction l generalizing es data find with
  | nil => exact ⟨es, hdata, hdescribes, fun h => absurd rfl h⟩
  | cons e l ih =>
    obtain ⟨value, text⟩ := e
    rw [List.pairwise_cons] at hsorted
    have hset := hdoc.setElement_some data es value.toNat (.string text) hdata
    have helements' : (lib.setElement data value.toNat (.string text)).elements? = some _ :=
      congrArg Json.elements? hset
    obtain ⟨es', helements, hdescribes', harray⟩ :=
      ih hsorted.2 helements' (hdescribes.set value text)
    rw [List.foldl_cons]
    refine ⟨es', helements, ?_, fun _ => ?_⟩
    · rw [findIn_cons_or hsorted.1]
      exact hdescribes'
    · cases l with
      | nil =>
        rw [List.foldl_nil] at helements ⊢
        rw [hset] at helements ⊢
        exact congrArg Json.array (Option.some.inj helements)
      | cons d l => exact harray (List.cons_ne_nil _ _)

/-- The array of the descriptions has each one at its value. -/
theorem describedBy_writeDescriptions (hdoc : lib.Documented)
    (valueToDesc : SortedMap UInt8 String) :
    ∃ es, (writeDescriptions lib valueToDesc).elements? = some es ∧
      DescribedBy es valueToDesc.find? ∧
        (valueToDesc.entries ≠ [] → writeDescriptions lib valueToDesc = .array es) := by
  have hempty : DescribedBy [] fun _ => none := ⟨by simp, fun k => rfl⟩
  obtain ⟨es, helements, hdescribes, harray⟩ :=
    @describedBy_foldl lib hdoc valueToDesc.entries valueToDesc.sorted [] .null _ rfl hempty
  refine ⟨es, helements, ?_, harray⟩
  have hfind : (fun k => (SortedMap.findIn k valueToDesc.entries).or none) = valueToDesc.find? := by
    funext k
    exact Option.or_none
  rwa [hfind] at hdescribes

/-- The array of the descriptions is read back, element by element. -/
theorem foldlM_readDescription_describedBy (hdoc : lib.Documented) {es : List Json}
    {valueToDesc : SortedMap UInt8 String} (h : DescribedBy es valueToDesc.find?) {n : ℕ}
    (hn : n ≤ 256) :
    ∃ read : SortedMap UInt8 String,
      (List.range n).foldlM (readDescription lib (.array es)) ∅ = .ok read ∧
        ∀ k, read.find? k = if k.toNat < n then valueToDesc.find? k else none := by
  induction n with
  | zero => exact ⟨∅, rfl, fun k => by simp⟩
  | succ n ih =>
    obtain ⟨read, hread, hfind⟩ := ih (by omega)
    have hk : (UInt8.ofNat n).toNat = n := UInt8.toNat_ofNat_of_lt' (show n < 256 by omega)
    have helement := h.2 (UInt8.ofNat n)
    rw [hk] at helement
    have hbelow : ∀ k : UInt8, k.toNat < n + 1 ↔ k.toNat < n ∨ k = UInt8.ofNat n := by
      intro k
      rw [← UInt8.toNat_inj, hk]
      omega
    rw [List.range_succ, List.foldlM_append, hread, ok_bind, List.foldlM_cons, readDescription,
      hdoc.element_some (.array es) es n rfl, call_ok, ok_bind, helement]
    cases hdesc : valueToDesc.find? (UInt8.ofNat n) with
    | none =>
      refine ⟨read, rfl, fun k => ?_⟩
      rw [hfind k]
      by_cases hlt : k.toNat < n
      · rw [if_pos hlt, if_pos ((hbelow k).mpr (.inl hlt))]
      · rw [if_neg hlt]
        split_ifs with hlt'
        · obtain rfl := ((hbelow k).mp hlt').resolve_left hlt
          exact hdesc.symm
        · rfl
    | some text =>
      refine ⟨read.insert (UInt8.ofNat n) text, ?_, fun k => ?_⟩
      · simp only [Option.map_some, Option.getD_some, Json.isNull, hdoc.asString_string, call_ok]
        rfl
      · rw [SortedMap.find?_insert, hfind k]
        by_cases heq : k = UInt8.ofNat n
        · subst heq
          rw [if_pos rfl, if_pos ((hbelow _).mpr (.inr rfl)), hdesc]
        · rw [if_neg heq]
          exact if_congr ⟨fun hlt => (hbelow k).mpr (.inl hlt),
            fun hlt => ((hbelow k).mp hlt).resolve_right heq⟩ rfl rfl

theorem readDescriptions_written (hdoc : lib.Documented) {spn : Json}
    {members : String → Option Json} (h : Holds spn members) {valueToDesc : SortedMap UInt8 String}
    (hmember : members statDescriptionsKey =
      if valueToDesc.entries = [] then none else some (writeDescriptions lib valueToDesc)) :
    readDescriptions lib spn = .ok valueToDesc := by
  obtain ⟨ms, rfl, hms⟩ := h
  rw [readDescriptions, call_isMember hdoc rfl, ok_bind, hms, hmember]
  by_cases hempty : valueToDesc.entries = []
  · rw [if_pos hempty]
    exact congrArg Except.ok (SortedMap.ext_entries hempty.symm)
  · obtain ⟨es, -, hdescribes, harray⟩ := describedBy_writeDescriptions hdoc valueToDesc
    obtain ⟨read, hread, hfind⟩ := foldlM_readDescription_describedBy hdoc hdescribes hdescribes.1
    have hsame : read = valueToDesc := by
      refine SortedMap.ext_find? fun k => ?_
      rw [hfind k]
      split_ifs with hlt
      · rfl
      · have hnone := hdescribes.2 k
        rw [List.getElem?_eq_none (not_lt.mp hlt)] at hnone
        cases hdesc : valueToDesc.find? k with
        | none => rfl
        | some text =>
          rw [hdesc] at hnone
          cases hnone
    rw [if_neg hempty, Option.isSome_some, if_pos rfl, call_member hdoc rfl, ok_bind, memberOf, hms,
      hmember, if_neg hempty, Option.getD_some, harray hempty]
    exact hread.trans (congrArg Except.ok hsame)

/-! ### SPNs -/

/-- What the members that all SPNs have are. -/
def spnMembers (spn : SPN) (key : String) : Option Json :=
  if key = offsetKey then some (.int spn.getOffset)
  else if key = nameKey then some (.string spn.spec.name)
  else if key = numberKey then some (.int spn.getSpnNumber.toNat)
  else if key = typeKey then some (.int spn.getType.toNat)
  else none

theorem holds_spnMembers (hdoc : lib.Documented) (spn : SPN) :
    Holds (lib.setMember (lib.setMember (lib.setMember (lib.setMember .null typeKey
      (.int spn.getType.toNat)) numberKey (.int spn.getSpnNumber.toNat)) nameKey
      (.string spn.spec.name)) offsetKey (.int spn.getOffset)) (spnMembers spn) :=
  (((holds_setMember_null hdoc _ _).setMember hdoc _ _).setMember hdoc _ _).setMember hdoc _ _

/-- The members that all SPNs have are found again. -/
structure Written (spn : SPN) (ms : List (String × Json)) : Prop where
  type : ms.lookup typeKey = some (.int spn.getType.toNat)
  number : ms.lookup numberKey = some (.int spn.getSpnNumber.toNat)
  name : ms.lookup nameKey = some (.string spn.spec.name)
  offset : ms.lookup offsetKey = some (.int spn.getOffset)

namespace Written

variable {spn : SPN} {ms : List (String × Json)}

theorem memberOf_name (h : Written spn ms) : memberOf ms nameKey = .string spn.spec.name := by
  rw [memberOf, h.name, Option.getD_some]

theorem memberOf_number (h : Written spn ms) :
    memberOf ms numberKey = .int spn.getSpnNumber.toNat := by
  rw [memberOf, h.number, Option.getD_some]

theorem memberOf_offset (h : Written spn ms) : memberOf ms offsetKey = .int spn.getOffset := by
  rw [memberOf, h.offset, Option.getD_some]

theorem readType (hdoc : lib.Documented) (h : Written spn ms) :
    readType lib (.object ms) = .ok spn.getType := by
  have htype : memberOf ms typeKey = .int spn.getType.toNat := by
    rw [memberOf, h.type, Option.getD_some]
  have hpresent : present ms [nameKey, numberKey, typeKey] = true := by
    simp only [present, List.all_cons, List.all_nil, h.name, h.number, h.type, Option.isSome_some,
      Bool.and_self]
  rw [readType_eq hdoc rfl, h.memberOf_name, h.memberOf_number, htype, hdoc.asUInt_int,
    if_pos ⟨hpresent, rfl, isUInt_nat hdoc (UInt32.toNat_lt _),
      isUInt_nat hdoc (UInt32.toNat_lt _)⟩]

/-- The type leads to the parser of the kind of SPN. -/
theorem parseSPN (hdoc : lib.Documented) (h : Written spn ms) (frame : GenericFrame) :
    parseSPN lib frame (.object ms) =
      match spn with
      | .numeric _ => parseSPNNumeric lib frame (.object ms)
      | .status _ => parseSPNStatus lib frame (.object ms)
      | .string _ => parseSPNString lib frame (.object ms) := by
  rw [J1939.parseSPN, h.readType hdoc, ok_bind]
  cases spn <;> rfl

end Written

theorem SPNSpec.construct_self (spec : SPNSpec) :
    SPNSpec.construct spec.spnNumber spec.name spec.offset = .ok spec :=
  dif_pos spec.spnNumber_lt

theorem SPNNumericSpec.construct_self (numSpec : SPNNumericSpec) :
    SPNNumericSpec.construct numSpec.formatGain numSpec.formatOffset numSpec.byteSize
      numSpec.units = .ok numSpec :=
  dif_pos ⟨numSpec.byteSize_pos, numSpec.byteSize_le⟩

theorem SPNStatusSpec.construct_self (statSpec : SPNStatusSpec) :
    SPNStatusSpec.construct statSpec.bitOffset statSpec.bitSize statSpec.valueToDesc =
      .ok statSpec :=
  dif_pos ⟨statSpec.bitSize_pos, statSpec.bits_le⟩

theorem parseSPN_writeSPN_string (hdoc : lib.Documented) (frame : GenericFrame) {s : SPNString}
    (h : (SPN.string s).Fresh) :
    parseSPN lib frame (writeSPN lib (.string s)) =
      frame.register ((SPN.string s).setOffset 0) := by
  obtain ⟨ms, hvalue, hms⟩ := holds_spnMembers hdoc (.string s)
  have hwritten : Written (.string s) ms := by
    constructor <;> rw [hms] <;> rfl
  have hconstruct : SPNString.construct s.spec.spnNumber s.spec.name =
      .ok { spec := s.spec } := by
    rw [SPNString.construct, ← h.1, SPNSpec.construct_self]
    rfl
  have hempty : s.value = [] := by rw [h.2]
  rw [writeSPN, hvalue, hwritten.parseSPN hdoc, parseSPNString,
    readStringEntry_eq hdoc rfl hwritten.memberOf_name, hwritten.memberOf_number, hdoc.asUInt_int,
    ok_bind, SPN.setOffset, hempty]
  exact congrArg (· >>= fun s => frame.register (.string s)) hconstruct

theorem parseSPN_writeSPN_numeric (hdoc : lib.Documented) (frame : GenericFrame) {n : SPNNumeric}
    (h : (SPN.numeric n).Fresh) :
    parseSPN lib frame (writeSPN lib (.numeric n)) = frame.register (.numeric n) := by
  obtain ⟨ms, hvalue, hms⟩ := ((((holds_spnMembers hdoc (.numeric n)).setMember hdoc
    numByteSizeKey (.int n.getByteSize.toNat)).setMember hdoc numFormatGainKey
      (.real n.numSpec.formatGain)).setMember hdoc numFormatOffsetKey
        (.real n.numSpec.formatOffset)).setMember hdoc numUnitsKey (.string n.numSpec.units)
  have hwritten : Written (.numeric n) ms := by
    constructor <;> rw [hms] <;> rfl
  have hpresent : present ms [numFormatGainKey, numFormatOffsetKey, numByteSizeKey, numUnitsKey,
      offsetKey] = true := by
    simp [present, hms, spnMembers]
  have hgain : memberOf ms numFormatGainKey = .real n.numSpec.formatGain := by
    rw [memberOf, hms]
    rfl
  have hformatOffset : memberOf ms numFormatOffsetKey = .real n.numSpec.formatOffset := by
    rw [memberOf, hms]
    rfl
  have hbyteSize : memberOf ms numByteSizeKey = .int n.numSpec.byteSize.toNat := by
    rw [memberOf, hms]
    rfl
  have hunits : memberOf ms numUnitsKey = .string n.numSpec.units := by
    rw [memberOf, hms]
    rfl
  have hpos := n.numSpec.byteSize_pos
  have hle : n.numSpec.byteSize.toNat ≤ 4 := n.numSpec.byteSize_le
  have hrange : n.numSpec.byteSize.toUInt32 ≤ 4 ∧ n.numSpec.byteSize.toUInt32 ≠ 0 := by
    rw [UInt32.le_iff_toNat_le, ne_eq, ← UInt32.toNat_inj, UInt8.toNat_toUInt32]
    exact ⟨hle, hpos.ne'⟩
  rw [writeSPN, writeSPNNumeric, hvalue, hwritten.parseSPN hdoc, parseSPNNumeric,
    readNumericEntry_eq hdoc rfl hwritten.memberOf_name, hwritten.memberOf_number,
    hwritten.memberOf_offset, hgain, hformatOffset, hbyteSize, hunits, if_pos hpresent]
  simp only
  rw [if_pos ⟨hdoc.isDouble_real _, hdoc.isDouble_real _,
      isUInt_nat hdoc (lt_of_le_of_lt hle (by decide)), isUInt_nat hdoc h.1⟩,
    asUInt_byte hdoc, if_pos hrange, ok_bind, hdoc.asUInt_int, hdoc.asDouble_real,
    hdoc.asDouble_real, UInt8.toUInt8_toUInt32]
  have hoffset : (lib.asUInt (.int (SPN.numeric n).getOffset)).toNat = n.spec.offset :=
    toNat_asUInt_nat hdoc h.1
  have hconstruct : SPNNumeric.construct n.spec.spnNumber n.spec.name
      (lib.asUInt (.int (SPN.numeric n).getOffset)).toNat n.numSpec.formatGain
      n.numSpec.formatOffset n.numSpec.byteSize n.numSpec.units = .ok n := by
    rw [hoffset, SPNNumeric.construct, SPNSpec.construct_self, ok_bind,
      SPNNumericSpec.construct_self]
    exact congrArg Except.ok h.2.symm
  exact congrArg (· >>= fun n => frame.register (.numeric n)) hconstruct

theorem parseSPN_writeSPN_status (hdoc : lib.Documented) (frame : GenericFrame) {s : SPNStatus}
    (h : (SPN.status s).Fresh) :
    parseSPN lib frame (writeSPN lib (.status s)) = frame.register (.status s) := by
  have hbase := ((holds_spnMembers hdoc (.status s)).setMember hdoc statBitOffsetKey
    (.int s.getBitOffset.toNat)).setMember hdoc statBitSizeKey (.int s.getBitSize.toNat)
  -- the descriptions are added only when there are some
  obtain ⟨members, hholds, hmembers, hdescriptions⟩ : ∃ members : String → Option Json,
      Holds (writeSPN lib (.status s)) members ∧
        (∀ key, key ≠ statDescriptionsKey → members key =
          if key = statBitSizeKey then some (.int s.getBitSize.toNat)
          else if key = statBitOffsetKey then some (.int s.getBitOffset.toNat)
          else spnMembers (.status s) key) ∧
        members statDescriptionsKey = if s.statSpec.valueToDesc.entries = [] then none
          else some (writeDescriptions lib s.statSpec.valueToDesc) := by
    rw [writeSPN, writeSPNStatus]
    split_ifs
    · exact ⟨_, hbase, fun _ _ => rfl, rfl⟩
    · exact ⟨_, hbase.setMember hdoc statDescriptionsKey _, fun key hkey => if_neg hkey, rfl⟩
  have hread := readDescriptions_written hdoc hholds hdescriptions
  obtain ⟨ms, hvalue, hms⟩ := hholds
  rw [hvalue] at hread
  have hwritten : Written (.status s) ms := by
    constructor <;> rw [hms, hmembers _ (by decide)] <;> rfl
  have hpresent : present ms [statBitOffsetKey, statBitSizeKey, offsetKey] = true := by
    simp only [present, List.all_cons, List.all_nil, hms, hmembers statBitOffsetKey (by decide),
      hmembers statBitSizeKey (by decide), hmembers offsetKey (by decide)]
    rfl
  have hbitOffset : memberOf ms statBitOffsetKey = .int s.statSpec.bitOffset.toNat := by
    rw [memberOf, hms, hmembers _ (by decide)]
    rfl
  have hbitSize : memberOf ms statBitSizeKey = .int s.statSpec.bitSize.toNat := by
    rw [memberOf, hms, hmembers _ (by decide)]
    rfl
  have hpos := s.statSpec.bitSize_pos
  have hle := s.statSpec.bits_le
  have hrange : s.statSpec.bitSize.toUInt32 ≠ 0 ∧
      s.statSpec.bitSize.toUInt32 + s.statSpec.bitOffset.toUInt32 ≤ 8 := by
    rw [UInt32.le_iff_toNat_le, ne_eq, ← UInt32.toNat_inj, UInt32.toNat_add, UInt8.toNat_toUInt32,
      UInt8.toNat_toUInt32]
    change ¬s.statSpec.bitSize.toNat = 0 ∧ _ ≤ 8
    omega
  rw [hvalue, hwritten.parseSPN hdoc, parseSPNStatus,
    readStatusEntry_eq hdoc rfl hwritten.memberOf_name, hwritten.memberOf_number, hwritten.memberOf_offset, hbitOffset, hbitSize,
    if_pos ⟨hpresent, isUInt_nat hdoc (by omega), isUInt_nat hdoc (by omega), isUInt_nat hdoc h.1⟩,
    asUInt_byte hdoc, asUInt_byte hdoc, if_pos hrange, ok_bind, hread, ok_bind, hdoc.asUInt_int,
    UInt8.toUInt8_toUInt32, UInt8.toUInt8_toUInt32]
  have hoffset : (lib.asUInt (.int (SPN.status s).getOffset)).toNat = s.spec.offset :=
    toNat_asUInt_nat hdoc h.1
  have hconstruct : SPNStatus.construct s.spec.spnNumber s.spec.name
      (lib.asUInt (.int (SPN.status s).getOffset)).toNat s.statSpec.bitOffset s.statSpec.bitSize
      s.statSpec.valueToDesc = .ok s := by
    rw [hoffset, SPNStatus.construct, SPNSpec.construct_self, ok_bind, SPNStatusSpec.construct_self]
    exact congrArg Except.ok h.2.symm
  exact congrArg (· >>= fun s => frame.register (.status s)) hconstruct

/-- An SPN is read back where it was written, but for its place. -/
theorem parseSPN_writeSPN (hdoc : lib.Documented) (frame : GenericFrame) {spn : SPN}
    (h : spn.Fresh) : parseSPN lib frame (writeSPN lib spn) = frame.register (spn.setOffset 0) := by
  cases spn with
  | numeric n => exact parseSPN_writeSPN_numeric hdoc frame h
  | status s => exact parseSPN_writeSPN_status hdoc frame h
  | string s => exact parseSPN_writeSPN_string hdoc frame h

theorem parseSPNs_map_writeSPN (hdoc : lib.Documented) (frame : GenericFrame) {spns : List SPN}
    (h : ∀ spn ∈ spns, spn.Fresh) :
    parseSPNs lib frame (spns.map (writeSPN lib)) =
      (spns.map fun spn => spn.setOffset 0).foldlM GenericFrame.register frame := by
  induction spns generalizing frame with
  | nil => rfl
  | cons spn spns ih =>
    rw [List.forall_mem_cons] at h
    rw [List.map_cons, parseSPNs, parseSPN_writeSPN hdoc frame h.1, List.map_cons,
      List.foldlM_cons]
    exact bind_congr fun frame' => ih frame' h.2

end J1939
