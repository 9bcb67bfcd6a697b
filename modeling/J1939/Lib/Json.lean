import Mathlib.Algebra.Group.Int.Defs
import Mathlib.Algebra.Ring.Rat
import Mathlib.Data.List.Basic
import Mathlib.Tactic.Common

/-!
# JSON values

The trees that `Json::Value` of jsoncpp holds. What the library does with a tree is a
parameter: `JsonCpp` has the operations, and `JsonCpp.Documented` what their documentation
says. A violated precondition is answered by a `Json::LogicError`.
-/

/-- `Json::Value`. -/
inductive Json
  | null
  | bool (b : Bool)
  | int (n : ℤ)
  | real (x : ℚ)
  | string (s : String)
  | array (elements : List Json)
  | object (members : List (String × Json))

/-- The exceptions of jsoncpp. -/
inductive JsonException
  | logicError
  deriving DecidableEq, Repr

namespace Json

def isNull : Json → Bool
  | null => true
  | _ => false

def isString : Json → Bool
  | string _ => true
  | _ => false

/-- The members of a value that can have members: a null value has none. -/
def members? : Json → Option (List (String × Json))
  | null => some []
  | object members => some members
  | _ => none

/-- The elements of a value that can have elements. -/
def elements? : Json → Option (List Json)
  | null => some []
  | array elements => some elements
  | _ => none

/-- The value can be read as a string. -/
def isScalar : Json → Bool
  | array _ => false
  | object _ => false
  | _ => true

/-- `Json::Value::size`. -/
def size : Json → ℕ
  | array elements => elements.length
  | object members => members.length
  | _ => 0

end Json

/-- The operations of jsoncpp. -/
structure JsonCpp where
  isUInt : Json → Bool
  asUInt : Json → UInt32
  isDouble : Json → Bool
  asDouble : Json → ℚ
  asString : Json → Except JsonException String
  isMember : Json → String → Except JsonException Bool
  /-- `value[key]`, read. -/
  member : Json → String → Except JsonException Json
  /-- `value[index]`, read. -/
  element : Json → ℕ → Except JsonException Json
  /-- `value[key] = x`. -/
  setMember : Json → String → Json → Json
  /-- `value[index] = x`. -/
  setElement : Json → ℕ → Json → Json

namespace JsonCpp

/-- The documented behaviour. -/
structure Documented (lib : JsonCpp) : Prop where
  isUInt_int : ∀ n : ℤ, lib.isUInt (.int n) = decide (0 ≤ n ∧ n < 2 ^ 32)
  asUInt_int : ∀ n : UInt32, lib.asUInt (.int n.toNat) = n
  isDouble_real : ∀ x, lib.isDouble (.real x) = true
  asDouble_real : ∀ x, lib.asDouble (.real x) = x
  asString_string : ∀ s, lib.asString (.string s) = .ok s
  asString_scalar : ∀ v : Json, v.isScalar = true → ∃ s, lib.asString v = .ok s
  asString_other : ∀ v : Json, v.isScalar = false → lib.asString v = .error .logicError
  isMember_some : ∀ (v : Json) ms key, v.members? = some ms →
    lib.isMember v key = .ok (ms.lookup key).isSome
  isMember_none : ∀ (v : Json) key, v.members? = none → lib.isMember v key = .error .logicError
  member_some : ∀ (v : Json) ms key, v.members? = some ms →
    lib.member v key = .ok ((ms.lookup key).getD Json.null)
  element_some : ∀ (v : Json) es i, v.elements? = some es →
    lib.element v i = .ok (es[i]?.getD Json.null)
  element_none : ∀ (v : Json) i, v.elements? = none → lib.element v i = .error .logicError
  /-- A null value becomes an object. -/
  setMember_some : ∀ (v : Json) ms key x, v.members? = some ms →
    ∃ ms', lib.setMember v key x = .object ms' ∧
      ∀ key', ms'.lookup key' = if key' = key then some x else ms.lookup key'
  /-- A null value becomes an array, and the elements before the new one are null. -/
  setElement_some : ∀ (v : Json) es i x, v.elements? = some es →
    lib.setElement v i x =
      .array ((es ++ List.replicate (i + 1 - es.length) Json.null).set i x)

/-- An implementation. Strings of numbers are left empty. -/
def reference : JsonCpp where
  isUInt
    | .int n => decide (0 ≤ n ∧ n < 2 ^ 32)
    | .real x => decide (0 ≤ x ∧ x < 2 ^ 32 ∧ x.den = 1)
    | _ => false
  asUInt
    | .int n => UInt32.ofNat n.toNat
    | .real x => UInt32.ofNat x.num.toNat
    | _ => 0
  isDouble
    | .int _ => true
    | .real _ => true
    | _ => false
  asDouble
    | .int n => n
    | .real x => x
    | _ => 0
  asString
    | .string s => .ok s
    | .array _ => .error .logicError
    | .object _ => .error .logicError
    | .bool true => .ok "true"
    | .bool false => .ok "false"
    | _ => .ok ""
  isMember v key :=
    match v.members? with
    | some ms => .ok (ms.lookup key).isSome
    | none => .error .logicError
  member v key :=
    match v.members? with
    | some ms => .ok ((ms.lookup key).getD Json.null)
    | none => .error .logicError
  element v i :=
    match v.elements? with
    | some es => .ok (es[i]?.getD Json.null)
    | none => .error .logicError
  setMember v key x := .object ((key, x) :: (v.members?.getD []))
  setElement v i x :=
    .array (((v.elements?.getD []) ++
      List.replicate (i + 1 - (v.elements?.getD []).length) Json.null).set i x)

theorem reference_documented : reference.Documented where
  isUInt_int _ := rfl
  asUInt_int n := by
    change UInt32.ofNat (n.toNat : ℤ).toNat = n
    rw [Int.toNat_natCast, UInt32.ofNat_toNat]
  isDouble_real _ := rfl
  asDouble_real _ := rfl
  asString_string _ := rfl
  asString_scalar v h := by
    cases v with
    | bool b => cases b <;> exact ⟨_, rfl⟩
    | array => cases h
    | object => cases h
    | _ => exact ⟨_, rfl⟩
  asString_other v h := by
    cases v with
    | array => rfl
    | object => rfl
    | _ => cases h
  isMember_some v ms key h := by simp only [reference, h]
  isMember_none v key h := by simp only [reference, h]
  member_some v ms key h := by simp only [reference, h]
  element_some v es i h := by simp only [reference, h]
  element_none v i h := by simp only [reference, h]
  setMember_some v ms key x h := by
    refine ⟨_, rfl, fun key' => ?_⟩
    rw [h, Option.getD_some, List.lookup_cons]
    by_cases hkey : key' = key
    · simp [hkey]
    · simp [hkey, beq_eq_false_iff_ne.mpr hkey]
  setElement_some v es i x h := by simp only [reference, h, Option.getD_some]

end JsonCpp
