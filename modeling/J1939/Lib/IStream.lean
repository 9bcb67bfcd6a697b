import Mathlib.Data.List.TakeWhile
import Mathlib.Tactic.Common
import Mathlib.Tactic.IntervalCases

/-!
# Character streams and numbers

An input stream over the characters of a file, and the formatted input and output of numbers,
as the standard library of C++ documents them. What the characters of a floating point number
stand for is a parameter.
-/

/-! ### Numbers as characters -/

/-- `std::dec` and `std::hex`. -/
inductive NumberBase
  | dec
  | hex
  deriving DecidableEq, Repr

namespace NumberBase

def radix : NumberBase → ℕ
  | dec => 10
  | hex => 16

/-- The characters that are digits. -/
def isDigit (b : NumberBase) (c : Char) : Bool :=
  '0' ≤ c && c ≤ '9' || b == hex && ('A' ≤ c && c ≤ 'F' || 'a' ≤ c && c ≤ 'f')

/-- The value of a digit. -/
def digitValue (c : Char) : ℕ :=
  if c ≤ '9' then c.toNat - '0'.toNat
  else if c ≤ 'F' then c.toNat - 'A'.toNat + 10
  else c.toNat - 'a'.toNat + 10

/-- The value of the digits, the first one being the most significant. -/
def readDigits (b : NumberBase) (cs : List Char) : ℕ :=
  cs.foldl (fun n c => n * b.radix + digitValue c) 0

/-- A digit is printed in upper case. -/
def printDigit (b : NumberBase) (d : ℕ) : Char :=
  match b with
  | dec => d.digitChar
  | hex => d.digitChar.toUpper

/-- An unsigned number as `operator<<` prints it. -/
def print (b : NumberBase) (n : ℕ) : List Char :=
  match b with
  | dec => Nat.toDigits 10 n
  | hex => (Nat.toDigits 16 n).map Char.toUpper

theorem print_eq (b : NumberBase) (n : ℕ) :
    b.print n = if n < b.radix then [b.printDigit n]
      else b.print (n / b.radix) ++ [b.printDigit (n % b.radix)] := by
  cases b with
  | dec => exact Nat.toDigits_eq_if (by decide)
  | hex =>
    rw [print, Nat.toDigits_eq_if (by decide)]
    change List.map Char.toUpper (if n < 16 then _ else _) = if n < 16 then _ else _
    split_ifs
    · rfl
    · rw [List.map_append]
      rfl

theorem isDigit_printDigit (b : NumberBase) {d : ℕ} (h : d < b.radix) :
    b.isDigit (b.printDigit d) = true := by
  cases b with
  | dec =>
    change d < 10 at h
    interval_cases d <;> rfl
  | hex =>
    change d < 16 at h
    interval_cases d <;> rfl

theorem digitValue_printDigit (b : NumberBase) {d : ℕ} (h : d < b.radix) :
    digitValue (b.printDigit d) = d := by
  cases b with
  | dec =>
    change d < 10 at h
    interval_cases d <;> rfl
  | hex =>
    change d < 16 at h
    interval_cases d <;> rfl

theorem radix_pos (b : NumberBase) : 1 < b.radix := by
  cases b <;> decide

theorem isDigit_of_mem_print {b : NumberBase} {n : ℕ} {c : Char} (h : c ∈ b.print n) :
    b.isDigit c = true := by
  induction n using Nat.strong_induction_on with
  | _ n ih =>
    rw [print_eq] at h
    split_ifs at h with hlt
    · rw [List.mem_singleton.mp h]
      exact b.isDigit_printDigit hlt
    · rcases List.mem_append.mp h with h | h
      · exact ih _ (Nat.div_lt_self (by have := b.radix_pos; omega) b.radix_pos) h
      · rw [List.mem_singleton.mp h]
        exact b.isDigit_printDigit (Nat.mod_lt _ (by have := b.radix_pos; omega))

theorem readDigits_append_singleton (b : NumberBase) (cs : List Char) (c : Char) :
    b.readDigits (cs ++ [c]) = b.readDigits cs * b.radix + digitValue c := by
  rw [readDigits, List.foldl_append]
  rfl

/-- A number is read as it was printed. -/
theorem readDigits_print (b : NumberBase) (n : ℕ) : b.readDigits (b.print n) = n := by
  induction n using Nat.strong_induction_on with
  | _ n ih =>
    have hradix := b.radix_pos
    rw [print_eq]
    split_ifs with hlt
    · change 0 * b.radix + digitValue (b.printDigit n) = n
      rw [b.digitValue_printDigit hlt]
      omega
    · rw [readDigits_append_singleton, ih _ (Nat.div_lt_self (by omega) hradix),
        b.digitValue_printDigit (Nat.mod_lt _ (by omega))]
      exact Nat.div_add_mod' n b.radix

theorem print_ne_nil (b : NumberBase) (n : ℕ) : b.print n ≠ [] := by
  rw [print_eq]
  split_ifs <;> simp

theorem length_print_le_iff (b : NumberBase) (n : ℕ) {k : ℕ} (h : 0 < k) :
    (b.print n).length ≤ k ↔ n < b.radix ^ k := by
  cases b with
  | dec => exact Nat.length_toDigits_le_iff (by decide) h
  | hex =>
    rw [print, List.length_map]
    exact Nat.length_toDigits_le_iff (by decide) h

end NumberBase

/-- `std::right`, `std::setw` and `std::setfill`. -/
def setw (width : ℕ) (fill : Char) (cs : List Char) : List Char :=
  List.replicate (width - cs.length) fill ++ cs

theorem length_setw (width : ℕ) (fill : Char) (cs : List Char) :
    (setw width fill cs).length = max width cs.length := by
  rw [setw, List.length_append, List.length_replicate]
  omega

/-- Leading zeros do not count. -/
theorem readDigits_setw (b : NumberBase) (width : ℕ) (cs : List Char) :
    b.readDigits (setw width '0' cs) = b.readDigits cs := by
  have hzeros : ∀ n, (List.replicate n '0').foldl
      (fun n c => n * b.radix + NumberBase.digitValue c) 0 = 0 := by
    intro n
    induction n with
    | zero => rfl
    | succ n ih =>
      rw [List.replicate_succ, List.foldl_cons, Nat.zero_mul]
      exact ih
  rw [NumberBase.readDigits, setw, List.foldl_append, hzeros]
  rfl

theorem isDigit_of_mem_setw {b : NumberBase} {width : ℕ} {cs : List Char}
    (h : ∀ c ∈ cs, b.isDigit c = true) : ∀ c ∈ setw width '0' cs, b.isDigit c = true := by
  intro c hc
  rcases List.mem_append.mp hc with hc | hc
  · rw [List.eq_of_mem_replicate hc]
    cases b <;> rfl
  · exact h c hc

/-! ### Input streams -/

/-- An `std::ifstream` on a file that is read without errors: the position of the next
character and the state. -/
structure IStream where
  content : List Char
  pos : ℕ := 0
  eofbit : Bool := false
  failbit : Bool := false
  base : NumberBase := .dec

namespace IStream

/-- What is still to be read. -/
def rest (s : IStream) : List Char := s.content.drop s.pos

def good (s : IStream) : Bool := !s.eofbit && !s.failbit

def advance (s : IStream) (n : ℕ) : IStream := { s with pos := s.pos + n }

def clear (s : IStream) : IStream := { s with eofbit := false, failbit := false }

def setBase (s : IStream) (b : NumberBase) : IStream := { s with base := b }

/-- `get`: without a character the argument keeps its value. -/
def get (s : IStream) : Option Char × IStream :=
  if s.good then
    match s.rest with
    | c :: _ => (some c, s.advance 1)
    | [] => (none, { s with eofbit := true, failbit := true })
  else (none, { s with failbit := true })

/-- `ignore` up to and with a delimiter. -/
def ignoreUntil (delim : Char) (s : IStream) : IStream :=
  if s.good then
    let skipped := s.rest.takeWhile (· ≠ delim)
    if skipped.length < s.rest.length then s.advance (skipped.length + 1)
    else { s.advance skipped.length with eofbit := true }
  else { s with failbit := true }

def tellg (s : IStream) : ℤ × IStream :=
  if s.good then (s.pos, s) else (-1, { s with failbit := true })

def seekg (pos : ℤ) (s : IStream) : IStream :=
  if s.failbit then { s with eofbit := false }
  else if pos < 0 then { s with eofbit := false, failbit := true }
  else { s with eofbit := false, pos := pos.toNat }

/-- `std::isspace`. -/
def isSpace (c : Char) : Bool :=
  c == ' ' || c == '\t' || c == '\n' || c == '\x0b' || c == '\x0c' || c == '\r'

/-- The sentry of formatted input skips white space. -/
def sentry (s : IStream) : IStream :=
  if s.good then
    let s' := s.advance (s.rest.takeWhile isSpace).length
    if s'.rest = [] then { s' with eofbit := true, failbit := true } else s'
  else { s with failbit := true }

/-- Take a field: the end of the file shows when it comes right behind. -/
def take (field : List Char) (s : IStream) : IStream :=
  let s' := s.advance field.length
  if s'.rest = [] then { s' with eofbit := true } else s'

/-- The sign of a number. -/
def signField : List Char → List Char
  | '+' :: _ => ['+']
  | '-' :: _ => ['-']
  | _ => []

/-- The prefix of a hexadecimal number. -/
def prefixField : NumberBase → List Char → List Char
  | .hex, '0' :: 'x' :: _ => ['0', 'x']
  | .hex, '0' :: 'X' :: _ => ['0', 'X']
  | _, _ => []

/-- `operator>>` for a `u32`: what is stored, if anything is. -/
def extractUInt (s : IStream) : Option UInt32 × IStream :=
  let s := s.sentry
  if s.good then
    let sign := signField s.rest
    let start := prefixField s.base (s.rest.drop sign.length)
    let digits := (s.rest.drop (sign.length + start.length)).takeWhile s.base.isDigit
    let s' := s.take (sign ++ start ++ digits)
    let n := s.base.readDigits digits
    if digits = [] then (some 0, { s' with failbit := true })
    else if n ≥ 2 ^ 32 then (some 0xFFFFFFFF, { s' with failbit := true })
    else (some (if sign = ['-'] then -UInt32.ofNat n else UInt32.ofNat n), s')
  else (none, s)

/-- The exponent of a floating point number. -/
def exponentField : List Char → List Char
  | c :: cs =>
    if c = 'e' ∨ c = 'E' then
      let sign := signField cs
      c :: sign ++ (cs.drop sign.length).takeWhile NumberBase.dec.isDigit
    else []
  | [] => []

/-- The fraction of a floating point number. -/
def fractionField : List Char → List Char
  | '.' :: cs => '.' :: cs.takeWhile NumberBase.dec.isDigit
  | _ => []

/-- The characters of a floating point number. -/
def doubleField (cs : List Char) : List Char :=
  let sign := signField cs
  let whole := (cs.drop sign.length).takeWhile NumberBase.dec.isDigit
  let fraction := fractionField (cs.drop (sign.length + whole.length))
  let exponent :=
    if whole = [] ∧ fraction.length ≤ 1 then []
    else exponentField (cs.drop (sign.length + whole.length + fraction.length))
  sign ++ whole ++ fraction ++ exponent

/-- `operator>>` for a `double`, whose field `read` converts. -/
def extractDouble {α : Type} (read : List Char → Option α) (s : IStream) : Option α × IStream :=
  let s := s.sentry
  if s.good then
    let field := doubleField s.rest
    match read field with
    | some x => (some x, s.take field)
    | none => (none, { s.take field with failbit := true })
  else (none, s)

/-! ### Streams in a good state -/

@[simp] theorem good_advance (s : IStream) (n : ℕ) : (s.advance n).good = s.good := rfl

@[simp] theorem good_setBase (s : IStream) (b : NumberBase) : (s.setBase b).good = s.good := rfl

@[simp] theorem rest_advance (s : IStream) (n : ℕ) : (s.advance n).rest = s.rest.drop n := by
  rw [rest, rest, List.drop_drop]
  rfl

@[simp] theorem rest_setBase (s : IStream) (b : NumberBase) : (s.setBase b).rest = s.rest := rfl

@[simp] theorem pos_advance (s : IStream) (n : ℕ) : (s.advance n).pos = s.pos + n := rfl

@[simp] theorem advance_advance (s : IStream) (m n : ℕ) :
    (s.advance m).advance n = s.advance (m + n) := by
  rw [advance, advance, advance, Nat.add_assoc]

@[simp] theorem pos_setBase (s : IStream) (b : NumberBase) : (s.setBase b).pos = s.pos := rfl

@[simp] theorem base_setBase (s : IStream) (b : NumberBase) : (s.setBase b).base = b := rfl

@[simp] theorem base_advance (s : IStream) (n : ℕ) : (s.advance n).base = s.base := rfl

@[simp] theorem setBase_advance (s : IStream) (b : NumberBase) (n : ℕ) :
    (s.advance n).setBase b = (s.setBase b).advance n := rfl

@[simp] theorem setBase_setBase (s : IStream) (b b' : NumberBase) :
    (s.setBase b).setBase b' = s.setBase b' := rfl

section Good

variable {s : IStream} (hgood : s.good = true)

include hgood

theorem get_cons {c : Char} {cs : List Char} (hrest : s.rest = c :: cs) :
    s.get = (some c, s.advance 1) := by
  rw [get, if_pos hgood, hrest]

theorem get_nil (hrest : s.rest = []) :
    s.get = (none, { s with eofbit := true, failbit := true }) := by
  rw [get, if_pos hgood, hrest]

theorem ignoreUntil_append {delim : Char} {line cs : List Char}
    (hrest : s.rest = line ++ delim :: cs)
    (hline : ∀ c ∈ line, c ≠ delim) : s.ignoreUntil delim = s.advance (line.length + 1) := by
  have htake : s.rest.takeWhile (· ≠ delim) = line := by
    rw [hrest, List.takeWhile_append_of_pos (by simpa using hline), List.takeWhile_cons_of_neg
      (by simp), List.append_nil]
  have hlt : line.length < s.rest.length := by
    rw [hrest, List.length_append, List.length_cons]
    omega
  rw [ignoreUntil, if_pos hgood]
  simp only [htake]
  rw [if_pos hlt]

/-- There is nothing to skip in front of a field. -/
theorem sentry_cons {c : Char} {cs : List Char} (hrest : s.rest = c :: cs)
    (hc : isSpace c = false) : s.sentry = s := by
  have htake : s.rest.takeWhile isSpace = [] := by
    rw [hrest, List.takeWhile_cons_of_neg (by rw [hc]; decide)]
  rw [sentry, if_pos hgood, htake, List.length_nil, if_neg]
  · rfl
  · rw [rest_advance, hrest]
    exact List.cons_ne_nil _ _

omit hgood in
theorem take_append {field cs : List Char} (hrest : s.rest = field ++ cs) (hcs : cs ≠ []) :
    s.take field = s.advance field.length := by
  rw [take, if_neg]
  rwa [rest_advance, hrest, List.drop_left]

end Good

theorem signField_of_isDigit {c : Char} (b : NumberBase) (h : b.isDigit c = true)
    (cs : List Char) : signField (c :: cs) = [] := by
  unfold signField
  split
  · rename_i heq
    cases heq
    cases b <;> cases h
  · rename_i heq
    cases heq
    cases b <;> cases h
  · rfl

theorem prefixField_of_isDigit {d : Char} (b : NumberBase)
    (hd : d ≠ 'x' ∧ d ≠ 'X') (c : Char) (cs : List Char) : prefixField b (c :: d :: cs) = [] := by
  unfold prefixField
  split
  · rename_i heq
    cases heq
    exact absurd rfl hd.1
  · rename_i heq
    cases heq
    exact absurd rfl hd.2
  · rfl

theorem isSpace_of_isDigit {c : Char} {b : NumberBase} (h : b.isDigit c = true) :
    isSpace c = false := by
  unfold isSpace
  simp only [Bool.or_eq_false_iff, beq_eq_false_iff_ne, ne_eq]
  refine ⟨⟨⟨⟨⟨?_, ?_⟩, ?_⟩, ?_⟩, ?_⟩, ?_⟩ <;> rintro rfl <;> cases b <;> cases h

section Extract

variable {s : IStream} (hgood : s.good = true)

include hgood

/-- A number is taken up to the first character that is no digit. -/
theorem extractUInt_digits {digits cs : List Char} {c : Char} (hrest : s.rest = digits ++ c :: cs)
    (hne : digits ≠ []) (hdigits : ∀ d ∈ digits, s.base.isDigit d = true)
    (hc : s.base.isDigit c = false) (hx : c ≠ 'x' ∧ c ≠ 'X')
    (hlt : s.base.readDigits digits < 2 ^ 32) :
    s.extractUInt =
      (some (UInt32.ofNat (s.base.readDigits digits)), s.advance digits.length) := by
  obtain ⟨d, ds, rfl⟩ := List.exists_cons_of_ne_nil hne
  have hd := hdigits d List.mem_cons_self
  have hsentry : s.sentry = s := sentry_cons hgood hrest (isSpace_of_isDigit hd)
  have hsign : signField s.rest = [] := by
    rw [hrest]
    exact signField_of_isDigit s.base hd _
  have hprefix : prefixField s.base s.rest = [] := by
    rw [hrest]
    cases ds with
    | nil => exact prefixField_of_isDigit s.base hx d cs
    | cons d' ds =>
      have hd' := hdigits d' (List.mem_cons_of_mem _ List.mem_cons_self)
      refine prefixField_of_isDigit s.base ⟨?_, ?_⟩ d _ <;> rintro rfl <;>
        cases hbase : s.base <;> rw [hbase] at hd' <;> cases hd'
  have htake : s.rest.takeWhile s.base.isDigit = d :: ds := by
    rw [hrest, List.takeWhile_append_of_pos hdigits, List.takeWhile_cons_of_neg (by simp [hc]),
      List.append_nil]
  rw [extractUInt, hsentry, if_pos hgood, hsign]
  simp only [List.length_nil, List.drop_zero, Nat.zero_add, List.nil_append, hprefix, htake]
  rw [if_neg hne, if_neg (not_le.mpr hlt), if_neg (by simp),
    take_append hrest (List.cons_ne_nil _ _)]

/-- A number with a decimal point is taken up to the next white space. -/
theorem extractDouble_fixed {α : Type} {read : List Char → Option α} {whole fraction cs : List Char}
    {c : Char} (hrest : s.rest = whole ++ '.' :: fraction ++ c :: cs) (hne : whole ≠ [])
    (hwhole : ∀ d ∈ whole, NumberBase.dec.isDigit d = true)
    (hfraction : ∀ d ∈ fraction, NumberBase.dec.isDigit d = true) (hc : isSpace c = true) {x : α}
    (hread : read (whole ++ '.' :: fraction) = some x) :
    s.extractDouble read = (some x, s.advance (whole ++ '.' :: fraction).length) := by
  obtain ⟨d, ds, rfl⟩ := List.exists_cons_of_ne_nil hne
  have hd := hwhole d List.mem_cons_self
  have hsentry : s.sentry = s := by
    have hcons : s.rest = d :: (ds ++ '.' :: fraction ++ c :: cs) := by
      rw [hrest]
      simp
    exact sentry_cons hgood hcons (isSpace_of_isDigit hd)
  have hspace : NumberBase.dec.isDigit c = false ∧ ¬(c = 'e' ∨ c = 'E') := by
    unfold isSpace at hc
    simp only [Bool.or_eq_true, beq_iff_eq] at hc
    rcases hc with ((((rfl | rfl) | rfl) | rfl) | rfl) | rfl <;> decide
  have hfield : doubleField s.rest = d :: ds ++ '.' :: fraction := by
    have hrest' : s.rest = d :: ds ++ '.' :: (fraction ++ c :: cs) := by
      rw [hrest]
      simp
    have hsign : signField s.rest = [] := by
      rw [hrest']
      exact signField_of_isDigit .dec hd _
    have hwholeField : s.rest.takeWhile NumberBase.dec.isDigit = d :: ds := by
      rw [hrest', List.takeWhile_append_of_pos hwhole, List.takeWhile_cons_of_neg (by decide),
        List.append_nil]
    have hfractionField : fractionField ('.' :: (fraction ++ c :: cs)) = '.' :: fraction := by
      rw [fractionField, List.takeWhile_append_of_pos hfraction,
        List.takeWhile_cons_of_neg (by simp [hspace.1]), List.append_nil]
    have hexponent : exponentField (c :: cs) = [] := if_neg hspace.2
    have hdropWhole : s.rest.drop (d :: ds).length = '.' :: (fraction ++ c :: cs) := by
      rw [hrest', List.drop_left]
    have hdropFraction : s.rest.drop ((d :: ds).length + ('.' :: fraction).length) = c :: cs := by
      rw [← List.drop_drop, hdropWhole, ← List.cons_append, List.drop_left]
    rw [doubleField, hsign]
    simp only [List.length_nil, List.drop_zero, Nat.zero_add, List.nil_append, hwholeField,
      hdropWhole, hfractionField, hdropFraction, hexponent]
    rw [ite_self, List.append_nil]
  rw [extractDouble, hsentry, if_pos hgood]
  simp only [hfield, hread]
  rw [take_append hrest (List.cons_ne_nil _ _)]

end Extract

/-! ### Streams in a failed state -/

/-- Nothing but `clear` ends a failure. -/
def Failed (s : IStream) : Prop := s.failbit = true ∧ s.eofbit = false

namespace Failed

variable {s : IStream} (h : s.Failed)

include h

theorem good : s.good = false := by
  rw [IStream.good, h.1, h.2]
  rfl

theorem get : s.get.1 = none ∧ s.get.2.Failed := by
  rw [IStream.get, if_neg (by rw [h.good]; decide)]
  exact ⟨rfl, rfl, h.2⟩

theorem sentry : s.sentry.Failed := by
  rw [IStream.sentry, if_neg (by rw [h.good]; decide)]
  exact ⟨rfl, h.2⟩

theorem setBase (b : NumberBase) : (s.setBase b).Failed := h

theorem extractUInt : s.extractUInt.2.Failed := by
  rw [IStream.extractUInt]
  simp only
  rw [if_neg (by rw [h.sentry.good]; decide)]
  exact h.sentry

theorem extractDouble {α : Type} (read : List Char → Option α) :
    (s.extractDouble read).2.Failed := by
  rw [IStream.extractDouble]
  simp only
  rw [if_neg (by rw [h.sentry.good]; decide)]
  exact h.sentry

end Failed

end IStream
