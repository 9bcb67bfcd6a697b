import J1939.DataBase

/-!
# Reading the members of a JSON value

On a value with members every read of the parser has a result. What the checks of the
parser find is then a matter of looking up the keys.
-/

namespace J1939

variable {lib : JsonCpp} {value : Json} {ms : List (String × Json)}

/-- The member under a key, null without it. -/
def memberOf (ms : List (String × Json)) (key : String) : Json := (ms.lookup key).getD Json.null

/-- There are members under all keys. -/
def present (ms : List (String × Json)) (keys : List String) : Bool :=
  keys.all fun key => (ms.lookup key).isSome

@[simp] theorem call_ok {α : Type} (a : α) :
    call (.ok a : Except JsonException α) = (.ok a : Except ParseEnd α) := rfl

section Members

variable (hdoc : lib.Documented) (hms : value.members? = some ms)

include hdoc hms

theorem call_isMember (key : String) :
    call (lib.isMember value key) = .ok (ms.lookup key).isSome := by
  rw [hdoc.isMember_some value ms key hms, call_ok]

theorem call_member (key : String) : call (lib.member value key) = .ok (memberOf ms key) := by
  rw [hdoc.member_some value ms key hms, call_ok, memberOf]

theorem hasMembers_eq (keys : List String) :
    hasMembers lib value keys = .ok (present ms keys) := by
  induction keys with
  | nil => rfl
  | cons key keys ih =>
    rw [hasMembers, call_isMember hdoc hms, present, List.all_cons]
    cases (ms.lookup key).isSome
    · rfl
    · exact ih

end Members

/-- A value without members makes the first question for a key throw. -/
theorem hasMembers_none (hdoc : lib.Documented) (hnone : value.members? = none) (key : String)
    (keys : List String) :
    hasMembers lib value (key :: keys) = .error (.aborted (.thrown .logicError)) := by
  rw [hasMembers, hdoc.isMember_none value key hnone]
  rfl

theorem call_asString (hdoc : lib.Documented) {s : Json} (h : s.isString = true) :
    ∃ text, call (lib.asString s) = .ok text ∧ s = .string text := by
  cases s with
  | string text => exact ⟨text, by rw [hdoc.asString_string, call_ok], rfl⟩
  | _ => cases h

@[simp] theorem check_true (r : Rejection) : check true r = .ok () := rfl

@[simp] theorem check_false (r : Rejection) : check false r = .error (.rejected r) := rfl

@[simp] theorem ok_bind {α β : Type} (a : α) (f : α → Except ParseEnd β) :
    (Except.ok a >>= f) = f a := rfl

@[simp] theorem error_bind {α β : Type} (e : ParseEnd) (f : α → Except ParseEnd β) :
    ((Except.error e : Except ParseEnd α) >>= f) = .error e := rfl

theorem check_bind {β : Type} (passed : Bool) (r : Rejection) (f : Unit → Except ParseEnd β) :
    (check passed r >>= f) = if passed = true then f () else .error (.rejected r) := by
  cases passed <;> rfl

/-! ### The checks on an SPN -/

section SPN

variable (hdoc : lib.Documented) (hms : value.members? = some ms)

include hdoc hms

theorem readType_eq : readType lib value =
    if present ms [nameKey, numberKey, typeKey] = true ∧ (memberOf ms nameKey).isString = true ∧
        lib.isUInt (memberOf ms numberKey) = true ∧ lib.isUInt (memberOf ms typeKey) = true then
      .ok (lib.asUInt (memberOf ms typeKey))
    else .error (.rejected .unexpectedTokens) := by
  simp only [readType, hasMembers_eq hdoc hms, call_member hdoc hms, ok_bind, check_bind,
    Bool.and_eq_true, and_assoc]
  rw [← ite_and]
  rfl

variable {name : String} (hname : memberOf ms nameKey = .string name)

include hname

theorem readNumericEntry_eq : readNumericEntry lib value =
    if present ms [numFormatGainKey, numFormatOffsetKey, numByteSizeKey, numUnitsKey,
        offsetKey] = true then
      match memberOf ms numUnitsKey with
      | .string units =>
        if lib.isDouble (memberOf ms numFormatGainKey) = true ∧
            lib.isDouble (memberOf ms numFormatOffsetKey) = true ∧
            lib.isUInt (memberOf ms numByteSizeKey) = true ∧
            lib.isUInt (memberOf ms offsetKey) = true then
          if lib.asUInt (memberOf ms numByteSizeKey) ≤ 4 ∧
              lib.asUInt (memberOf ms numByteSizeKey) ≠ 0 then
            .ok {
              number := lib.asUInt (memberOf ms numberKey)
              name := name
              offset := lib.asUInt (memberOf ms offsetKey)
              formatGain := lib.asDouble (memberOf ms numFormatGainKey)
              formatOffset := lib.asDouble (memberOf ms numFormatOffsetKey)
              byteSize := lib.asUInt (memberOf ms numByteSizeKey)
              units := units }
          else .error (.rejected .outOfRange)
        else .error (.rejected .unexpectedTokens)
      | _ => .error (.rejected .unexpectedTokens)
    else .error (.rejected .unexpectedTokens) := by
  simp only [readNumericEntry, hasMembers_eq hdoc hms, call_member hdoc hms, ok_bind, check_bind,
    hname, hdoc.asString_string, call_ok]
  by_cases hpresent : present ms [numFormatGainKey, numFormatOffsetKey, numByteSizeKey,
    numUnitsKey, offsetKey] = true
  · rw [if_pos hpresent, if_pos hpresent]
    cases hunits : memberOf ms numUnitsKey with
    | string units =>
      simp only [Json.isString, hdoc.asString_string, call_ok, ok_bind, Bool.and_eq_true,
        and_true, and_assoc, Bool.not_eq_true', Bool.or_eq_false_iff, decide_eq_false_iff_not,
        gt_iff_lt, not_lt, ne_eq]
      rfl
    | _ => simp [Json.isString]
  · rw [if_neg hpresent, if_neg hpresent]

theorem readNumericEntry_cases : (∃ r, readNumericEntry lib value = .error (.rejected r)) ∨
    ∃ e, readNumericEntry lib value = .ok e ∧ e.byteSize ≤ 4 ∧ e.byteSize ≠ 0 := by
  rw [readNumericEntry_eq hdoc hms hname]
  by_cases hpresent : present ms [numFormatGainKey, numFormatOffsetKey, numByteSizeKey,
    numUnitsKey, offsetKey] = true
  · rw [if_pos hpresent]
    cases memberOf ms numUnitsKey with
    | string units =>
      simp only
      split_ifs with hchecks hrange
      · exact .inr ⟨_, rfl, hrange⟩
      · exact .inl ⟨_, rfl⟩
      · exact .inl ⟨_, rfl⟩
    | _ => exact .inl ⟨_, rfl⟩
  · rw [if_neg hpresent]
    exact .inl ⟨_, rfl⟩

theorem readStatusEntry_eq : readStatusEntry lib value =
    if present ms [statBitOffsetKey, statBitSizeKey, offsetKey] = true ∧
        lib.isUInt (memberOf ms statBitOffsetKey) = true ∧
        lib.isUInt (memberOf ms statBitSizeKey) = true ∧
        lib.isUInt (memberOf ms offsetKey) = true then
      if lib.asUInt (memberOf ms statBitSizeKey) ≠ 0 ∧
          lib.asUInt (memberOf ms statBitSizeKey) + lib.asUInt (memberOf ms statBitOffsetKey) ≤ 8
      then
        .ok {
          number := lib.asUInt (memberOf ms numberKey)
          name := name
          offset := lib.asUInt (memberOf ms offsetKey)
          bitOffset := lib.asUInt (memberOf ms statBitOffsetKey)
          bitSize := lib.asUInt (memberOf ms statBitSizeKey) }
      else .error (.rejected .outOfRange)
    else .error (.rejected .unexpectedTokens) := by
  simp only [readStatusEntry, hasMembers_eq hdoc hms, call_member hdoc hms, ok_bind, check_bind,
    hname, hdoc.asString_string, call_ok, Bool.and_eq_true, and_assoc, Bool.not_eq_true',
    Bool.or_eq_false_iff, decide_eq_false_iff_not, gt_iff_lt, not_lt, ne_eq]
  rw [← ite_and]
  rfl

theorem readStatusEntry_cases : (∃ r, readStatusEntry lib value = .error (.rejected r)) ∨
    ∃ e, readStatusEntry lib value = .ok e ∧ e.bitSize ≠ 0 ∧ e.bitSize + e.bitOffset ≤ 8 := by
  rw [readStatusEntry_eq hdoc hms hname]
  split_ifs with hchecks hrange
  · exact .inr ⟨_, rfl, hrange⟩
  · exact .inl ⟨_, rfl⟩
  · exact .inl ⟨_, rfl⟩

theorem readStringEntry_eq : readStringEntry lib value =
    .ok { number := lib.asUInt (memberOf ms numberKey), name := name } := by
  simp only [readStringEntry, call_member hdoc hms, ok_bind, hname, hdoc.asString_string, call_ok]
  rfl

end SPN

end J1939
