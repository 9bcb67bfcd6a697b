import J1939.DataBaseSafety
import J1939.DataBaseWrites

/-!
# Writing a database and reading it again

A frame that the parser has put together is written with the length that its SPNs need, and
read back as it was. Only a database without frames is lost: its file holds no array.
-/

namespace J1939

variable {lib : JsonCpp}

/-! ### Frames from the parser -/

/-- A frame that the parser has put together. -/
structure Parsed (frame : GenericFrame) : Prop where
  pgn : constructorAssertion frame.pgn
  pgn_ne : frame.pgn ≠ dm1Pgn
  length : frame.length < 2 ^ 32
  uniform : frame.Uniform
  spns : ParsedSpns frame.spns

/-- What a parser binds has come to a result. -/
theorem exists_of_bind {α β : Type} {x : Except ParseEnd α} {f : α → Except ParseEnd β} {b : β}
    (h : x >>= f = .ok b) : ∃ a, x = .ok a ∧ f a = .ok b := by
  cases x with
  | error e => cases h
  | ok a => exact ⟨a, rfl, h⟩

theorem of_construct {number : UInt32} {name : String} {offset : ℕ} {spec : SPNSpec}
    (h : SPNSpec.construct number name offset = .ok spec) : spec.offset = offset := by
  unfold SPNSpec.construct at h
  split_ifs at h
  cases h
  rfl

/-- An SPN that is accepted is registered as its constructor leaves it. -/
theorem parseSPN_ok {frame frame' : GenericFrame} {value : Json}
    (h : parseSPN lib frame value = .ok frame') :
    ∃ spn : SPN, spn.Fresh ∧ spn.setOffset 0 = spn ∧ frame.register spn = .ok frame' := by
  rw [parseSPN_eq] at h
  obtain ⟨entry, -, hfinish⟩ := exists_of_bind h
  cases entry with
  | numeric e =>
    obtain ⟨n, hconstruct, hregister⟩ := exists_of_bind hfinish
    obtain ⟨spec, hspec, hrest⟩ := exists_of_bind hconstruct
    obtain ⟨numSpec, -, hn⟩ := exists_of_bind hrest
    obtain rfl := Except.ok.inj hn
    refine ⟨.numeric _, ⟨?_, rfl⟩, rfl, hregister⟩
    rw [of_construct hspec]
    exact e.offset.toNat_lt
  | status e =>
    obtain ⟨valueToDesc, -, hrest⟩ := exists_of_bind hfinish
    obtain ⟨s, hconstruct, hregister⟩ := exists_of_bind hrest
    obtain ⟨spec, hspec, hrest⟩ := exists_of_bind hconstruct
    obtain ⟨statSpec, -, hs⟩ := exists_of_bind hrest
    obtain rfl := Except.ok.inj hs
    refine ⟨.status _, ⟨?_, rfl⟩, rfl, hregister⟩
    rw [of_construct hspec]
    exact e.offset.toNat_lt
  | string e =>
    obtain ⟨s, hconstruct, hregister⟩ := exists_of_bind hfinish
    obtain ⟨spec, hspec, hs⟩ := exists_of_bind hconstruct
    obtain rfl := Except.ok.inj hs
    exact ⟨.string _, ⟨of_construct hspec, rfl⟩, rfl, hregister⟩

theorem Parsed.register {frame frame' : GenericFrame} (h : Parsed frame) {spn : SPN}
    (hfresh : spn.Fresh) (hunplaced : spn.setOffset 0 = spn)
    (hregister : frame.register spn = .ok frame') : Parsed frame' := by
  unfold GenericFrame.register at hregister
  split_ifs at hregister with hassert
  obtain rfl := Except.ok.inj hregister
  have hrest : (frame.registerSPN spn).pgn = frame.pgn ∧
      (frame.registerSPN spn).length = frame.length := by
    rw [registerSPN_eq h.uniform hassert]
    exact ⟨rfl, rfl⟩
  constructor
  · rw [hrest.1]
    exact h.pgn
  · rw [hrest.1]
    exact h.pgn_ne
  · rw [hrest.2]
    exact h.length
  · exact h.uniform.registerSPN hassert
  · exact h.spns.registerSPN h.uniform hassert hfresh hunplaced

theorem Parsed.parseSPNs {frame frame' : GenericFrame} (h : Parsed frame) {spns : List Json}
    (hparse : parseSPNs lib frame spns = .ok frame') : Parsed frame' := by
  induction spns generalizing frame with
  | nil =>
    obtain rfl := Except.ok.inj hparse
    exact h
  | cons value spns ih =>
    obtain ⟨next, hvalue, hrest⟩ := exists_of_bind hparse
    obtain ⟨spn, hfresh, hunplaced, hregister⟩ := parseSPN_ok hvalue
    exact ih (h.register hfresh hunplaced hregister) hrest

theorem parsed_startFrame {jsonFrame : Json} {frame : GenericFrame} {spns : List Json}
    (h : startFrame lib jsonFrame = .ok (frame, spns)) : Parsed frame := by
  obtain ⟨pgn, hpgn, hrest⟩ := exists_of_bind h
  obtain ⟨start, hconstruct, hrest⟩ := exists_of_bind hrest
  obtain ⟨name, -, hrest⟩ := exists_of_bind hrest
  obtain ⟨length, -, hrest⟩ := exists_of_bind hrest
  obtain ⟨spns', -, hrest⟩ := exists_of_bind hrest
  obtain ⟨rfl, -⟩ := Prod.mk.inj (Except.ok.inj hrest)
  unfold GenericFrame.construct at hconstruct
  split_ifs at hconstruct with hassert
  obtain rfl := Except.ok.inj hconstruct
  have hpgn_ne : pgn ≠ dm1Pgn := by
    obtain ⟨found, -, hrest⟩ := exists_of_bind hpgn
    obtain ⟨_, -, hrest⟩ := exists_of_bind hrest
    obtain ⟨value, -, hrest⟩ := exists_of_bind hrest
    obtain ⟨_, -, hrest⟩ := exists_of_bind hrest
    obtain ⟨_, hcheck, hreturn⟩ := exists_of_bind hrest
    obtain rfl := Except.ok.inj hreturn
    unfold check at hcheck
    split_ifs at hcheck with hne
    exact of_decide_eq_true hne
  refine ⟨hassert, hpgn_ne, ?_, GenericFrame.uniform_new pgn, parsedSpns_empty⟩
  cases length with
  | none => exact Nat.two_pow_pos 32
  | some length => exact length.toNat_lt

theorem parsed_parseFrame {jsonFrame : Json} {frame : GenericFrame}
    (h : parseFrame lib jsonFrame = .ok frame) : Parsed frame := by
  obtain ⟨⟨start, spns⟩, hstart, hspns⟩ := exists_of_bind h
  exact (parsed_startFrame hstart).parseSPNs hspns

theorem parsed_parseFrames {frames : List GenericFrame} {data : List Json}
    (h : ∀ frame ∈ frames, Parsed frame) :
    ∀ frame ∈ (parseFrames lib frames data).1, Parsed frame := by
  induction data generalizing frames with
  | nil => exact h
  | cons jsonFrame rest ih =>
    rw [parseFrames]
    cases hparse : parseFrame lib jsonFrame with
    | error e => exact h
    | ok frame =>
      apply ih
      intro x hx
      rcases List.mem_append.mp hx with hx | hx
      · exact h x hx
      · rw [List.mem_singleton.mp hx]
        exact parsed_parseFrame hparse

/-! ### One frame -/

/-- What the reader knows of a written frame before it comes to the SPNs. A length that is
no `unsigned int` is left out. -/
def restart (frame : GenericFrame) : GenericFrame :=
  { pgn := frame.pgn
    name := frame.name
    length := if frame.getDataLength < 2 ^ 32 then frame.getDataLength else 0 }

/-- What the members of a written frame are. -/
def frameMembers (frame : GenericFrame) (key : String) : Option Json :=
  if key = lengthKey then some (.int frame.getDataLength)
  else if key = nameKey then some (.string frame.name)
  else if key = pgnKey then some (.int frame.pgn.toNat)
  else none

theorem holds_writeFrame (hdoc : lib.Documented) (frame : GenericFrame) :
    ∃ members : String → Option Json, Holds (writeFrame lib frame) members ∧
      (∀ key, key ≠ spnsKey → members key = frameMembers frame key) ∧
        members spnsKey = if frame.spns.values = [] then none
          else some (.array (frame.spns.values.map (writeSPN lib))) := by
  have hbase : Holds (lib.setMember (lib.setMember (lib.setMember .null pgnKey
      (.int frame.pgn.toNat)) nameKey (.string frame.name)) lengthKey
      (.int frame.getDataLength)) (frameMembers frame) :=
    ((holds_setMember_null hdoc _ _).setMember hdoc _ _).setMember hdoc _ _
  rw [writeFrame]
  by_cases hempty : frame.spns.values = []
  · rw [if_pos hempty, if_pos hempty]
    exact ⟨_, hbase, fun _ _ => rfl, rfl⟩
  · have hne : frame.spns.values.map (writeSPN lib) ≠ [] := by simpa using hempty
    rw [if_neg hempty, if_neg hempty, (elements?_writeAll hdoc _).2 hne]
    exact ⟨_, hbase.setMember hdoc spnsKey _, fun key hkey => if_neg hkey, rfl⟩

theorem startFrame_writeFrame (hdoc : lib.Documented) {frame : GenericFrame} (h : Parsed frame) :
    startFrame lib (writeFrame lib frame) =
      .ok (restart frame, frame.spns.values.map (writeSPN lib)) := by
  obtain ⟨members, ⟨ms, hvalue, hms⟩, hmembers, hspns⟩ := holds_writeFrame hdoc frame
  have hpgnKey : ms.lookup pgnKey = some (.int frame.pgn.toNat) := by
    rw [hms, hmembers _ (by decide)]
    rfl
  have hnameKey : ms.lookup nameKey = some (.string frame.name) := by
    rw [hms, hmembers _ (by decide)]
    rfl
  have hlengthKey : ms.lookup lengthKey = some (.int frame.getDataLength) := by
    rw [hms, hmembers _ (by decide)]
    rfl
  have hreadPgn : readPgn lib (.object ms) = .ok frame.pgn := by
    have hpresent : present ms [pgnKey] = true := by
      rw [present, List.all_cons, hpgnKey]
      rfl
    rw [readPgn, hasMembers_eq hdoc rfl, hpresent, ok_bind, check_true, ok_bind,
      call_member hdoc rfl, ok_bind, memberOf, hpgnKey, Option.getD_some,
      isUInt_nat hdoc frame.pgn.toNat_lt, check_true, ok_bind, hdoc.asUInt_int,
      decide_eq_true h.pgn_ne]
    rfl
  have hreadName : readName lib (.object ms) = .ok (some frame.name) := by
    rw [readName, call_isMember hdoc rfl, ok_bind, call_member hdoc rfl, memberOf, hnameKey,
      Option.isSome_some, if_pos rfl, Option.getD_some, ok_bind, hdoc.asString_string]
    rfl
  have hreadLength : readLength lib (.object ms) = .ok (if frame.getDataLength < 2 ^ 32 then
      some (UInt32.ofNat frame.getDataLength) else none) := by
    rw [readLength, call_isMember hdoc rfl, ok_bind, call_member hdoc rfl, memberOf, hlengthKey,
      Option.isSome_some, if_pos rfl, Option.getD_some, ok_bind]
    by_cases hlt : frame.getDataLength < 2 ^ 32
    · rw [isUInt_nat hdoc hlt, asUInt_nat hdoc hlt, if_pos rfl, if_pos hlt]
      rfl
    · have hnot : lib.isUInt (.int frame.getDataLength) = false := by
        rw [hdoc.isUInt_int, decide_eq_false_iff_not]
        omega
      rw [hnot, if_neg hlt]
      rfl
  have hreadSpns : readSpns lib (.object ms) = .ok (frame.spns.values.map (writeSPN lib)) := by
    rw [readSpns, call_isMember hdoc rfl, ok_bind, call_member hdoc rfl, memberOf, hms, hspns]
    by_cases hempty : frame.spns.values = []
    · rw [if_pos hempty, hempty]
      rfl
    · rw [if_neg hempty]
      rfl
  have hlength : ((if frame.getDataLength < 2 ^ 32 then some (UInt32.ofNat frame.getDataLength)
      else none).map UInt32.toNat).getD 0 = (restart frame).length := by
    unfold restart
    split_ifs with hlt
    · exact UInt32.toNat_ofNat_of_lt' hlt
    · rfl
  rw [hvalue, startFrame, hreadPgn, ok_bind, GenericFrame.construct, if_pos h.pgn, ok_bind,
    hreadName, ok_bind, hreadLength, ok_bind, hreadSpns, ok_bind, hlength]
  rfl

/-- A frame is read back with its SPNs. -/
theorem parseFrame_writeFrame (hdoc : lib.Documented) {frame : GenericFrame} (h : Parsed frame) :
    parseFrame lib (writeFrame lib frame) = .ok { restart frame with spns := frame.spns } := by
  rw [parseFrame, startFrame_writeFrame hdoc h, ok_bind]
  exact (parseSPNs_map_writeSPN hdoc (restart frame) h.spns.fresh).trans
    (h.spns.foldlM_register h.uniform rfl)

/-- The SPNs agree in what the file says of them. -/
structure SameSPN (a b : SPN) : Prop where
  type : a.getType = b.getType
  name : a.spec.name = b.spec.name
  offset : a.getOffset = b.getOffset
  byteSize : a.getByteSize = b.getByteSize
  numeric : ∀ m n, a = .numeric m → b = .numeric n →
    m.numSpec.formatGain = n.numSpec.formatGain ∧
      m.numSpec.formatOffset = n.numSpec.formatOffset ∧ m.numSpec.units = n.numSpec.units
  status : ∀ s t, a = .status s → b = .status t →
    s.getBitOffset = t.getBitOffset ∧ s.getBitSize = t.getBitSize ∧
      s.statSpec.valueToDesc = t.statSpec.valueToDesc

theorem SameSPN.refl (spn : SPN) : SameSPN spn spn := by
  refine ⟨rfl, rfl, rfl, rfl, fun m n hm hn => ?_, fun s t hs ht => ?_⟩
  · obtain rfl := SPN.numeric.inj (hm.symm.trans hn)
    exact ⟨rfl, rfl, rfl⟩
  · obtain rfl := SPN.status.inj (hs.symm.trans ht)
    exact ⟨rfl, rfl, rfl⟩

/-- The frames agree in what the file says of them. -/
structure SameFrame (f g : GenericFrame) : Prop where
  pgn : f.pgn = g.pgn
  name : f.name = g.name
  dataLength : f.getDataLength = g.getDataLength
  numbers : f.spns.entries.map Prod.fst = g.spns.entries.map Prod.fst
  spns : ∀ number a b, f.spns.find? number = some a → g.spns.find? number = some b → SameSPN a b

/-- A length that is left out is the one that the SPNs need. -/
theorem getDataLength_restart {frame : GenericFrame} (h : frame.length < 2 ^ 32) :
    GenericFrame.getDataLength { restart frame with spns := frame.spns } = frame.getDataLength := by
  obtain ⟨needed, hneeded⟩ : ∃ needed, needed =
      (frame.spns.values.reverse.foldl lastSpn (0, 1)).1 +
        (frame.spns.values.reverse.foldl lastSpn (0, 1)).2 := ⟨_, rfl⟩
  have hlength : frame.getDataLength = max frame.length needed := by
    rw [hneeded]
    rfl
  have hrestart : GenericFrame.getDataLength { restart frame with spns := frame.spns } =
      max (if frame.getDataLength < 2 ^ 32 then frame.getDataLength else 0) needed := by
    rw [hneeded]
    rfl
  rw [hrestart, hlength]
  split_ifs <;> omega

theorem sameFrame_restart {frame : GenericFrame} (h : Parsed frame) :
    SameFrame frame { restart frame with spns := frame.spns } := by
  refine ⟨rfl, rfl, (getDataLength_restart h.length).symm, rfl, fun number a b ha hb => ?_⟩
  obtain rfl : a = b := Option.some.inj (ha.symm.trans hb)
  exact SameSPN.refl a

/-! ### All frames -/

theorem parseFrames_map_writeFrame (hdoc : lib.Documented) {frames : List GenericFrame}
    (h : ∀ frame ∈ frames, Parsed frame) (before : List GenericFrame) :
    ∃ read, parseFrames lib before (frames.map (writeFrame lib)) = (before ++ read, .ok ()) ∧
      List.Forall₂ SameFrame frames read := by
  induction frames generalizing before with
  | nil => exact ⟨[], by rw [List.append_nil]; rfl, .nil⟩
  | cons frame frames ih =>
    rw [List.forall_mem_cons] at h
    obtain ⟨read, hread, hsame⟩ :=
      ih h.2 (before ++ [{ restart frame with spns := frame.spns }])
    refine ⟨{ restart frame with spns := frame.spns } :: read, ?_,
      .cons (sameFrame_restart h.1) hsame⟩
    rw [List.map_cons, parseFrames, parseFrame_writeFrame hdoc h.1]
    simp only
    rw [hread, List.append_assoc]
    rfl

variable (lib) in
/-- A database that files have been parsed into. -/
inductive Loaded : J1939DataBase → Prop
  | new : Loaded {}
  | parse {db db' : J1939DataBase} {file : JsonFile} {ret : Bool} (h : Loaded db)
      (hparse : parseJsonFile lib db file = .ok (db', ret)) : Loaded db'

theorem Loaded.parsed {db : J1939DataBase} (h : Loaded lib db) :
    ∀ frame ∈ db.frames, Parsed frame := by
  induction h with
  | new => exact fun _ h => absurd h List.not_mem_nil
  | @parse db db' file ret _ hparse ih =>
    unfold parseJsonFile at hparse
    split at hparse
    · cases hparse
      exact ih
    · cases hparse
      exact ih
    · rename_i data
      have hall := @parsed_parseFrames lib db.frames data ih
      split at hparse
      · rename_i heq
        cases hparse
        rwa [heq] at hall
      · rename_i heq
        cases hparse
        rwa [heq] at hall
      · cases hparse
    · cases hparse
      exact ih

variable (lib) in
/-- What the database writes is parsed by a new one, and gives the same frames in order. -/
def RoundTrips (db : J1939DataBase) : Prop :=
  ∃ db', parseJsonFile lib {} (.value (writeJsonFile lib db)) = .ok (db', true) ∧
    List.Forall₂ SameFrame db.frames db'.frames

/-- A database is read back unless it is empty: then `null` is written, which is no array. -/
theorem roundTrips_iff (hdoc : lib.Documented) {db : J1939DataBase} (hloaded : Loaded lib db) :
    RoundTrips lib db ↔ db.frames ≠ [] := by
  constructor
  · rintro ⟨db', hparse, -⟩ hempty
    have hnull : writeJsonFile lib db = .null := by
      rw [writeJsonFile, hempty]
      rfl
    rw [hnull] at hparse
    cases hparse
  · intro hne
    have hmap : db.frames.map (writeFrame lib) ≠ [] := by simpa using hne
    have hwritten : writeJsonFile lib db = .array (db.frames.map (writeFrame lib)) :=
      (elements?_writeAll hdoc _).2 hmap
    obtain ⟨read, hread, hsame⟩ := parseFrames_map_writeFrame hdoc hloaded.parsed []
    refine ⟨⟨read, .ok⟩, ?_, hsame⟩
    rw [hwritten, parseJsonFile, hread]
    rfl

/-- A file that is parsed, written and parsed again. -/
theorem engineFile_roundTrips : ∃ db, JsonCpp.reference.Documented ∧
    parseJsonFile JsonCpp.reference {} engineFile = .ok (db, true) ∧
      Loaded JsonCpp.reference db ∧ db.frames ≠ [] ∧ RoundTrips JsonCpp.reference db := by
  obtain ⟨db, hparse, hne⟩ : ∃ db,
      parseJsonFile JsonCpp.reference {} engineFile = .ok (db, true) ∧ db.frames ≠ [] :=
    ⟨_, rfl, List.cons_ne_nil _ _⟩
  have hloaded : Loaded JsonCpp.reference db := .parse .new hparse
  exact ⟨db, JsonCpp.reference_documented, hparse, hloaded, hne,
    (roundTrips_iff JsonCpp.reference_documented hloaded).mpr hne⟩

/-- A file of no frames. -/
def emptyFile : JsonFile := .value (.array [])

/-- The frames of an empty file are written as `null`, which the parser rejects. -/
theorem emptyFile_not_roundTrips : ∃ db,
    parseJsonFile JsonCpp.reference {} emptyFile = .ok (db, true) ∧
      parseJsonFile JsonCpp.reference {} (.value (writeJsonFile JsonCpp.reference db)) =
        .ok ({ errorCode := .unexpectedTokens }, false) ∧
      ¬RoundTrips JsonCpp.reference db := by
  refine ⟨{}, rfl, rfl, ?_⟩
  rintro ⟨db', hparse, -⟩
  cases hparse

end J1939
