import Mathlib.Algebra.Order.Ring.Int
import Mathlib.Tactic.Common

/-!
# Numbers in texts

The conversions of the standard library of C++ from the beginning of a text to an integer, with
the exceptions that they throw. What follows the digits is ignored.
-/

/-- What the conversions throw. -/
inductive ConversionError
  | invalidArgument
  | outOfRange
  deriving DecidableEq, Repr

namespace Conversion

/-- `std::isspace`. -/
def isSpace (c : Char) : Bool := c = ' ' || '\t' ≤ c && c ≤ '\r'

/-- The value of a digit. Letters of either case follow `'9'`. -/
def digit (c : Char) : ℕ :=
  if '0' ≤ c ∧ c ≤ '9' then c.toNat - '0'.toNat
  else if 'a' ≤ c ∧ c ≤ 'z' then c.toNat - 'a'.toNat + 10
  else if 'A' ≤ c ∧ c ≤ 'Z' then c.toNat - 'A'.toNat + 10
  else 36

/-- Whether there is a minus sign, and the text behind the sign. -/
def sign : List Char → Bool × List Char
  | '-' :: cs => (true, cs)
  | '+' :: cs => (false, cs)
  | cs => (false, cs)

/-- The text begins with `0x` and a hexadecimal digit. -/
def hexPrefix : List Char → Bool
  | '0' :: x :: c :: _ => (x = 'x' || x = 'X') && digit c < 16
  | _ => false

/-- The radix that a base stands for, and the text behind the prefix. Base 0 leaves the choice to
the text. -/
def radix (base : ℕ) (cs : List Char) : ℕ × List Char :=
  if (base = 0 ∨ base = 16) ∧ hexPrefix cs then (16, cs.drop 2)
  else if base = 0 then (if cs.head? = some '0' then 8 else 10, cs)
  else (base, cs)

/-- The sign and the digits that the text begins with, if there are any. -/
def scan (base : ℕ) (cs : List Char) : Option (Bool × ℕ) :=
  let (negative, cs) := sign (cs.dropWhile isSpace)
  let (r, cs) := radix base cs
  let digits := cs.takeWhile fun c => digit c < r
  if digits = [] then none
  else some (negative, digits.foldl (fun n c => n * r + digit c) 0)

/-- `std::stoul`. A negative number is negated as an unsigned one. -/
def stoul (base : ℕ) (cs : List Char) : Except ConversionError UInt64 :=
  match scan base cs with
  | none => .error .invalidArgument
  | some (negative, n) =>
    if n < 2 ^ 64 then .ok (if negative then -UInt64.ofNat n else UInt64.ofNat n)
    else .error .outOfRange

/-- `std::stoi`. -/
def stoi (base : ℕ) (cs : List Char) : Except ConversionError ℤ :=
  match scan base cs with
  | none => .error .invalidArgument
  | some (negative, n) =>
    let value : ℤ := if negative then -n else n
    if -2 ^ 31 ≤ value ∧ value < 2 ^ 31 then .ok value else .error .outOfRange

end Conversion
