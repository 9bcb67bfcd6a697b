import J1939.TRC
import Mathlib.Order.Basic

/-!
# Time stamps

A time stamp stands for a number of microseconds when its second field is below a second. The
sums carry and the differences borrow by hand. A sum of exactly one second of microseconds is
not carried.
-/

namespace J1939

namespace TimeStamp

/-- `TimeStamp::TimeStamp`. -/
def zero : TimeStamp := ⟨0, 0⟩

/-- The first test of `operator-`: `retVal` with a second borrowed when that is needed, `none`
for the early return. -/
def borrow (t other : TimeStamp) : Option TimeStamp :=
  if other.microSec > t.microSec then
    if other.seconds ≥ t.seconds then none
    else some ⟨t.seconds - 1, t.microSec + 1000000⟩
  else some t

/-- `TimeStamp::operator-`. -/
def sub (t other : TimeStamp) : TimeStamp :=
  match t.borrow other with
  | none => zero
  | some retVal =>
    if other.seconds > retVal.seconds then zero
    else ⟨retVal.seconds - other.seconds, retVal.microSec - other.microSec⟩

/-- `TimeStamp::operator+`. -/
def add (t other : TimeStamp) : TimeStamp :=
  let retVal : TimeStamp := ⟨t.seconds + other.seconds, t.microSec + other.microSec⟩
  if retVal.microSec > 1000000 then ⟨retVal.seconds + 1, retVal.microSec - 1000000⟩ else retVal

/-- `aux` in the operators on milliseconds. -/
def ofMillis (millis : UInt32) : TimeStamp := ⟨millis / 1000, millis % 1000 * 1000⟩

/-- `TimeStamp::operator-` of milliseconds. -/
def subMillis (t : TimeStamp) (millis : UInt32) : TimeStamp := t.sub (ofMillis millis)

/-- `TimeStamp::operator+` of milliseconds. -/
def addMillis (t : TimeStamp) (millis : UInt32) : TimeStamp := t.add (ofMillis millis)

/-- `TimeStamp::operator==`. -/
def eq (t other : TimeStamp) : Bool := t.seconds = other.seconds && t.microSec = other.microSec

/-- `TimeStamp::operator>`. -/
def gt (t other : TimeStamp) : Bool :=
  if t.seconds > other.seconds then true
  else if t.seconds = other.seconds ∧ t.microSec > other.microSec then true
  else false

/-- `TimeStamp::operator<`. -/
def lt (t other : TimeStamp) : Bool :=
  if t.seconds < other.seconds then true
  else if t.seconds = other.seconds ∧ t.microSec < other.microSec then true
  else false

/-- `TimeStamp::operator<=`. -/
def le (t other : TimeStamp) : Bool := !t.gt other

/-- `TimeStamp::operator>=`. -/
def ge (t other : TimeStamp) : Bool := !t.lt other

/-! ### The microseconds a time stamp stands for -/

/-- The number of microseconds. -/
def micros (t : TimeStamp) : ℕ := t.seconds.toNat * 1000000 + t.microSec.toNat

/-- The microseconds do not make up a second. -/
def Normalised (t : TimeStamp) : Prop := t.microSec.toNat < 1000000

/-- The seconds of the sum do not overflow. -/
def Fits (t other : TimeStamp) : Prop := t.micros + other.micros < 2 ^ 32 * 1000000

instance (t : TimeStamp) : Decidable t.Normalised := inferInstanceAs (Decidable (_ < _))

instance (t other : TimeStamp) : Decidable (t.Fits other) := inferInstanceAs (Decidable (_ < _))

variable {t other : TimeStamp}

@[simp] theorem micros_zero : zero.micros = 0 := rfl

theorem seconds_ofMillis (millis : UInt32) :
    (ofMillis millis).seconds.toNat = millis.toNat / 1000 := UInt32.toNat_div ..

theorem microSec_ofMillis (millis : UInt32) :
    (ofMillis millis).microSec.toNat = millis.toNat % 1000 * 1000 := by
  have hrest : millis.toNat % 1000 < 1000 := Nat.mod_lt _ (by omega)
  have hmod : (millis % 1000).toNat = millis.toNat % 1000 := UInt32.toNat_mod ..
  have hthousand : (1000 : UInt32).toNat = 1000 := rfl
  rw [ofMillis, UInt32.toNat_mul, hmod, hthousand]
  omega

theorem normalised_ofMillis (millis : UInt32) : (ofMillis millis).Normalised := by
  rw [Normalised, microSec_ofMillis]
  omega

theorem micros_ofMillis (millis : UInt32) : (ofMillis millis).micros = millis.toNat * 1000 := by
  rw [micros, seconds_ofMillis, microSec_ofMillis]
  omega

/-! ### Comparisons -/

theorem lt_iff : t.lt other = true ↔
    t.seconds.toNat < other.seconds.toNat ∨
      t.seconds.toNat = other.seconds.toNat ∧ t.microSec.toNat < other.microSec.toNat := by
  unfold lt
  simp only [UInt32.lt_iff_toNat_lt, ← UInt32.toNat_inj]
  split_ifs <;> simp_all

theorem eq_of_toNat (hseconds : t.seconds.toNat = other.seconds.toNat)
    (hmicro : t.microSec.toNat = other.microSec.toNat) : t = other :=
  congrArg₂ mk (UInt32.toNat_inj.mp hseconds) (UInt32.toNat_inj.mp hmicro)

/-- The fields one behind the other. -/
def fields (t : TimeStamp) : ℕ := t.seconds.toNat * 2 ^ 32 + t.microSec.toNat

theorem fields_injective : Function.Injective fields := by
  intro t other h
  have hmicro := t.microSec.toNat_lt
  have hother := other.microSec.toNat_lt
  rw [fields, fields] at h
  exact eq_of_toNat (by omega) (by omega)

/-- The order of the comparison operators: first the seconds count, then the microseconds. -/
instance : LinearOrder TimeStamp := LinearOrder.lift' fields fields_injective

theorem lt_iff_lt : t.lt other = true ↔ t < other := by
  have hmicro := t.microSec.toNat_lt
  have hother := other.microSec.toNat_lt
  change t.lt other = true ↔ t.fields < other.fields
  rw [lt_iff, fields, fields]
  omega

theorem gt_eq_lt (t other : TimeStamp) : t.gt other = other.lt t := by
  simp only [gt, lt, gt_iff_lt, eq_comm]

theorem le_iff : t.le other = true ↔ ¬other.lt t = true := by
  rw [le, gt_eq_lt, Bool.not_eq_true', Bool.not_eq_true]

theorem le_iff_le : t.le other = true ↔ t ≤ other := by
  rw [le_iff, lt_iff_lt, not_lt]

theorem ge_iff : t.ge other = true ↔ other.le t = true := by
  rw [ge, le_iff, Bool.not_eq_true', Bool.not_eq_true]

theorem eq_iff : t.eq other = true ↔ t = other := by
  cases t
  cases other
  simp [eq]

/-- The order of normalised time stamps is that of their microseconds. -/
theorem lt_iff_micros (ht : t.Normalised) (hother : other.Normalised) :
    t.lt other = true ↔ t.micros < other.micros := by
  rw [Normalised] at ht hother
  rw [lt_iff, micros, micros]
  omega

theorem micros_inj (ht : t.Normalised) (hother : other.Normalised) :
    t.micros = other.micros ↔ t = other := by
  rw [Normalised] at ht hother
  refine ⟨fun h => ?_, fun h => h ▸ rfl⟩
  rw [micros, micros] at h
  exact eq_of_toNat (by omega) (by omega)

/-! ### Sums -/

theorem toNat_microSec_add (h : t.microSec.toNat + other.microSec.toNat < 2 ^ 32) :
    (t.microSec + other.microSec).toNat = t.microSec.toNat + other.microSec.toNat := by
  rw [UInt32.toNat_add, Nat.mod_eq_of_lt h]

theorem carries_iff (h : t.microSec.toNat + other.microSec.toNat < 2 ^ 32) :
    t.microSec + other.microSec > 1000000 ↔
      t.microSec.toNat + other.microSec.toNat > 1000000 := by
  rw [gt_iff_lt, UInt32.lt_iff_toNat_lt, toNat_microSec_add h]
  rfl

/-- The microseconds of a sum: what is more than a second is carried. -/
theorem microSec_add (h : t.microSec.toNat + other.microSec.toNat < 2 ^ 32) :
    (t.add other).microSec.toNat =
      if t.microSec.toNat + other.microSec.toNat > 1000000 then
        t.microSec.toNat + other.microSec.toNat - 1000000
      else t.microSec.toNat + other.microSec.toNat := by
  by_cases hgt : t.microSec.toNat + other.microSec.toNat > 1000000
  · have hle : (1000000 : UInt32) ≤ t.microSec + other.microSec := ((carries_iff h).mpr hgt).le
    rw [add, if_pos ((carries_iff h).mpr hgt), if_pos hgt]
    simp only [UInt32.toNat_sub_of_le _ _ hle, toNat_microSec_add h]
    rfl
  · rw [add, if_neg ((carries_iff h).not.mpr hgt), if_neg hgt, toNat_microSec_add h]

/-- The seconds of a sum, which wrap around. -/
theorem seconds_add (h : t.microSec.toNat + other.microSec.toNat < 2 ^ 32) :
    (t.add other).seconds.toNat =
      (t.seconds.toNat + other.seconds.toNat +
        if t.microSec.toNat + other.microSec.toNat > 1000000 then 1 else 0) % 2 ^ 32 := by
  by_cases hgt : t.microSec.toNat + other.microSec.toNat > 1000000
  · have hone : (1 : UInt32).toNat = 1 := rfl
    rw [add, if_pos ((carries_iff h).mpr hgt), if_pos hgt, UInt32.toNat_add, UInt32.toNat_add,
      Nat.mod_add_mod, hone]
  · rw [add, if_neg ((carries_iff h).not.mpr hgt), if_neg hgt, UInt32.toNat_add, Nat.add_zero]

/-- A sum that does not overflow stands for the sum. -/
theorem micros_add (h : t.microSec.toNat + other.microSec.toNat < 2 ^ 32)
    (hfits : t.Fits other) : (t.add other).micros = t.micros + other.micros := by
  rw [Fits, micros, micros] at hfits
  rw [micros, micros, micros, microSec_add h, seconds_add h]
  split
  · rw [Nat.mod_eq_of_lt (by omega)]
    omega
  · rw [Nat.mod_eq_of_lt (by omega)]
    omega

/-- The sum of normalised time stamps is normalised unless its microseconds make up exactly a
second. -/
theorem normalised_add_iff (ht : t.Normalised) (hother : other.Normalised) :
    (t.add other).Normalised ↔ t.microSec.toNat + other.microSec.toNat ≠ 1000000 := by
  rw [Normalised] at ht hother
  rw [Normalised, microSec_add (by omega)]
  split <;> omega

/-! ### Differences -/

/-- Borrowing ends at once when there are no seconds left. Otherwise it keeps the microseconds
that are stood for, and has enough of them in their field. -/
theorem borrow_cases (hother : other.Normalised) (t : TimeStamp) :
    (t.lt other = true ∧ t.borrow other = none) ∨
      ∃ retVal, t.borrow other = some retVal ∧ retVal.micros = t.micros ∧
        other.microSec.toNat ≤ retVal.microSec.toNat ∧
        (¬t.lt other = true ↔ other.seconds.toNat ≤ retVal.seconds.toNat) ∧
        retVal.microSec.toNat = t.microSec.toNat +
          if other.microSec.toNat > t.microSec.toNat then 1000000 else 0 := by
  rw [Normalised] at hother
  simp only [lt_iff, micros]
  by_cases hborrow : other.microSec > t.microSec
  · have hmicro : t.microSec.toNat < other.microSec.toNat := UInt32.lt_iff_toNat_lt.mp hborrow
    by_cases hless : other.seconds ≥ t.seconds
    · have hseconds : t.seconds.toNat ≤ other.seconds.toNat := UInt32.le_iff_toNat_le.mp hless
      exact Or.inl ⟨by omega, by rw [borrow, if_pos hborrow, if_pos hless]⟩
    · have hseconds : other.seconds.toNat < t.seconds.toNat := by
        rw [ge_iff_le, UInt32.le_iff_toNat_le] at hless
        omega
      have hone : (1 : UInt32).toNat = 1 := rfl
      have hmillion : (1000000 : UInt32).toNat = 1000000 := rfl
      have hpred : (t.seconds - 1).toNat = t.seconds.toNat - 1 := by
        rw [UInt32.toNat_sub_of_le _ _ (by rw [UInt32.le_iff_toNat_le, hone]; omega), hone]
      have hcarry : (t.microSec + 1000000).toNat = t.microSec.toNat + 1000000 := by
        rw [UInt32.toNat_add, hmillion, Nat.mod_eq_of_lt (by omega)]
      refine Or.inr ⟨⟨t.seconds - 1, t.microSec + 1000000⟩, ?_, ?_⟩
      · rw [borrow, if_pos hborrow, if_neg hless]
      · simp only [hpred, hcarry, if_pos hmicro]
        exact ⟨by omega, by omega, ⟨fun _ => by omega, fun _ => by omega⟩, trivial⟩
  · have hmicro : other.microSec.toNat ≤ t.microSec.toNat := by
      rw [gt_iff_lt, UInt32.lt_iff_toNat_lt] at hborrow
      omega
    refine Or.inr ⟨t, by rw [borrow, if_neg hborrow], rfl, hmicro, by omega, ?_⟩
    rw [if_neg (by omega), Nat.add_zero]

/-- A difference is zero when there is less to subtract from. Otherwise it stands for the
difference, and its microseconds show whether a second was borrowed. -/
theorem sub_cases (hother : other.Normalised) (t : TimeStamp) :
    (t.lt other = true ∧ t.sub other = zero) ∨
      (¬t.lt other = true ∧ (t.sub other).micros + other.micros = t.micros ∧
        (t.sub other).microSec.toNat = t.microSec.toNat +
          (if other.microSec.toNat > t.microSec.toNat then 1000000 else 0) -
            other.microSec.toNat) := by
  rcases borrow_cases hother t with ⟨hlt, hnone⟩ | ⟨retVal, hsome, hmicros, hle, hseconds, hfield⟩
  · exact Or.inl ⟨hlt, by rw [sub, hnone]⟩
  by_cases hless : other.seconds > retVal.seconds
  · refine Or.inl ⟨?_, by simp only [sub, hsome, if_pos hless]⟩
    rw [gt_iff_lt, UInt32.lt_iff_toNat_lt] at hless
    by_contra hge
    have henough := hseconds.mp hge
    omega
  · have henough : other.seconds.toNat ≤ retVal.seconds.toNat := by
      rw [gt_iff_lt, UInt32.lt_iff_toNat_lt] at hless
      omega
    refine Or.inr ⟨hseconds.mpr henough, ?_⟩
    simp only [sub, hsome, if_neg hless]
    rw [← hmicros, ← hfield, micros, micros, micros,
      UInt32.toNat_sub_of_le _ _ (UInt32.le_iff_toNat_le.mpr hle),
      UInt32.toNat_sub_of_le _ _ (UInt32.le_iff_toNat_le.mpr henough)]
    omega

/-- A difference of normalised time stamps is normalised. -/
theorem normalised_sub (ht : t.Normalised) (hother : other.Normalised) :
    (t.sub other).Normalised := by
  rcases sub_cases hother t with ⟨-, hzero⟩ | ⟨-, -, hmicro⟩
  · rw [hzero]
    decide
  · rw [Normalised] at ht hother ⊢
    rw [hmicro]
    split <;> omega

/-- A difference of normalised time stamps stands for the difference, or for zero. -/
theorem micros_sub (ht : t.Normalised) (hother : other.Normalised) :
    (t.sub other).micros = t.micros - other.micros := by
  rcases sub_cases hother t with ⟨hlt, hzero⟩ | ⟨-, hmicros, -⟩
  · have hless := (lt_iff_micros ht hother).mp hlt
    rw [hzero, micros_zero]
    omega
  · omega

/-- Subtracting what was added gives the first time stamp back. A sum that is not normalised
does no harm here. -/
theorem add_sub (ht : t.Normalised) (hother : other.Normalised) (hfits : t.Fits other) :
    (t.add other).sub other = t := by
  have hno : t.microSec.toNat + other.microSec.toNat < 2 ^ 32 := by
    rw [Normalised] at ht hother
    omega
  have hsum := micros_add hno hfits
  have hfield := microSec_add hno
  rcases sub_cases hother (t.add other) with ⟨hlt, -⟩ | ⟨-, hmicros, hmicro⟩
  · -- the sum is not below what was added
    rw [lt_iff] at hlt
    rw [micros, micros, micros] at hsum
    rw [Normalised] at ht hother
    split at hfield <;> omega
  · have hnormal : ((t.add other).sub other).Normalised := by
      rw [Normalised] at ht hother ⊢
      rw [hmicro, hfield]
      split <;> split <;> omega
    rw [← micros_inj hnormal ht]
    omega

/-! ### Steps up to an end -/

section Steps

variable {c : TimeStamp} {millis : UInt32}

theorem not_lt_iff : c ≤ t ↔ ¬(t.seconds.toNat < c.seconds.toNat ∨
    t.seconds.toNat = c.seconds.toNat ∧ t.microSec.toNat < c.microSec.toNat) := by
  rw [← lt_iff, lt_iff_lt, not_lt]

/-- The microseconds are at most a second, or those of the end. -/
def Below (t c : TimeStamp) : Prop := c.microSec.toNat ≤ max t.microSec.toNat 1000000

theorem micros_le_of_le (hle : c ≤ t) (hbelow : t.Below c) : c.micros ≤ t.micros := by
  rw [not_lt_iff] at hle
  rw [Below] at hbelow
  rw [micros, micros]
  omega

/-- Going back by milliseconds. -/
theorem subMillis_le (t : TimeStamp) (millis : UInt32) :
    t.subMillis millis ≤ t ∧ t.Below (t.subMillis millis) := by
  have hother := normalised_ofMillis millis
  rw [not_lt_iff, Below, subMillis]
  rcases sub_cases hother t with ⟨-, hzero⟩ | ⟨-, hmicros, hmicro⟩
  · rw [hzero]
    simp [zero]
  · rw [Normalised] at hother
    rw [micros, micros, micros] at hmicros
    split at hmicro <;> omega

/-- A step from a time up to the end is exact and goes forward, as long as a step from the end
does not overflow. -/
theorem addMillis_step (hmillis : 0 < millis.toNat) (hfits : t.Fits (ofMillis millis))
    (hmicro : t.microSec.toNat + 999000 < 2 ^ 32) (hle : c ≤ t) (hbelow : t.Below c) :
    (c.addMillis millis).micros = c.micros + millis.toNat * 1000 ∧
      t.Below (c.addMillis millis) ∧ c < c.addMillis millis := by
  have hmicros := micros_le_of_le hle hbelow
  have hseconds := seconds_ofMillis millis
  have hfield := microSec_ofMillis millis
  rw [Below] at hbelow
  have hwrap : c.microSec.toNat + (ofMillis millis).microSec.toNat < 2 ^ 32 := by omega
  have hexact : c.Fits (ofMillis millis) := by
    rw [Fits] at hfits ⊢
    omega
  have hsum := micros_add hwrap hexact
  have hmicroSec := microSec_add hwrap
  rw [micros_ofMillis] at hsum
  refine ⟨hsum, ?_, ?_⟩
  · rw [Below, addMillis, hmicroSec]
    split <;> omega
  · rw [← lt_iff_lt, lt_iff, addMillis]
    rw [micros, micros] at hsum
    split at hmicroSec <;> omega

end Steps

/-! ### Exact arithmetic -/

/-- The arithmetic of two time stamps, and of one and milliseconds, is the one of their
microseconds, except for sums that overflow. -/
structure ExactArithmetic (t other : TimeStamp) (millis : UInt32) : Prop where
  add : t.Fits other →
    (t.add other).Normalised ∧ (t.add other).micros = t.micros + other.micros
  addMillis : t.Fits (ofMillis millis) →
    (t.addMillis millis).Normalised ∧
      (t.addMillis millis).micros = t.micros + millis.toNat * 1000
  sub : (t.sub other).Normalised ∧ (t.sub other).micros = t.micros - other.micros
  subMillis : (t.subMillis millis).Normalised ∧
    (t.subMillis millis).micros = t.micros - millis.toNat * 1000
  add_sub : t.Fits other → (t.add other).sub other = t
  lt : t.lt other = true ↔ t.micros < other.micros
  le : t.le other = true ↔ t.micros ≤ other.micros
  gt : t.gt other = true ↔ t.micros > other.micros
  ge : t.ge other = true ↔ t.micros ≥ other.micros
  eq : t.eq other = true ↔ t.micros = other.micros

/-- The arithmetic of normalised time stamps is exact as long as the microseconds of no sum make
up exactly a second. -/
theorem exactArithmetic_iff (ht : t.Normalised) (hother : other.Normalised) (millis : UInt32) :
    t.ExactArithmetic other millis ↔
      (t.Fits other → t.microSec.toNat + other.microSec.toNat ≠ 1000000) ∧
        (t.Fits (ofMillis millis) →
          t.microSec.toNat + (ofMillis millis).microSec.toNat ≠ 1000000) := by
  have hmillis := normalised_ofMillis millis
  have hwrap : ∀ {b : TimeStamp}, b.Normalised → t.microSec.toNat + b.microSec.toNat < 2 ^ 32 := by
    intro b hb
    rw [Normalised] at ht hb
    omega
  constructor
  · intro hexact
    exact ⟨fun hfits => (normalised_add_iff ht hother).mp (hexact.add hfits).1,
      fun hfits => (normalised_add_iff ht hmillis).mp (hexact.addMillis hfits).1⟩
  · rintro ⟨hsum, hsumMillis⟩
    refine ⟨fun hfits => ?_, fun hfits => ?_, ?_, ?_, add_sub ht hother, ?_, ?_, ?_, ?_, ?_⟩
    · exact ⟨(normalised_add_iff ht hother).mpr (hsum hfits), micros_add (hwrap hother) hfits⟩
    · rw [← micros_ofMillis]
      exact ⟨(normalised_add_iff ht hmillis).mpr (hsumMillis hfits),
        micros_add (hwrap hmillis) hfits⟩
    · exact ⟨normalised_sub ht hother, micros_sub ht hother⟩
    · rw [← micros_ofMillis]
      exact ⟨normalised_sub ht hmillis, micros_sub ht hmillis⟩
    · exact lt_iff_micros ht hother
    · rw [le_iff, lt_iff_micros hother ht, Nat.not_lt]
    · rw [gt_eq_lt, lt_iff_micros hother ht]
    · rw [ge_iff, le_iff, lt_iff_micros ht hother, Nat.not_lt]
    · rw [eq_iff, micros_inj ht hother]

/-- 1.4 and 2.6 seconds make up four seconds, but the sum is not normalised, and is below a time
stamp of four seconds. -/
theorem wholeSecond_not_normalised :
    Normalised ⟨1, 400000⟩ ∧ Normalised ⟨2, 600000⟩ ∧ Fits ⟨1, 400000⟩ ⟨2, 600000⟩ ∧
      add ⟨1, 400000⟩ ⟨2, 600000⟩ = ⟨3, 1000000⟩ ∧ lt ⟨3, 1000000⟩ ⟨4, 0⟩ = true ∧
      ¬ExactArithmetic ⟨1, 400000⟩ ⟨2, 600000⟩ 0 := by
  refine ⟨by decide, by decide, by decide, by decide, by decide, fun hexact => ?_⟩
  have hnormal : (add ⟨1, 400000⟩ ⟨2, 600000⟩).Normalised := (hexact.add (by decide)).1
  exact absurd hnormal (by decide)

/-- 1.4 and 2.5 seconds. -/
theorem exactArithmetic_carry : ExactArithmetic ⟨1, 400000⟩ ⟨2, 500000⟩ 1500 :=
  (exactArithmetic_iff (by decide) (by decide) 1500).mpr
    ⟨fun _ => by decide, fun _ => by decide⟩

end TimeStamp

end J1939
