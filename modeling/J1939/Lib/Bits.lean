import Mathlib.Data.Nat.Bitwise
import Mathlib.Data.Nat.Digits.Defs
import Mathlib.Tactic.Common

/-!
# Bit fields of machine words

Shifting and masking a word is division and remainder, and or-ing fields that do
not overlap is addition. These rules turn a bit-field codec into linear
arithmetic on the words' values.
-/

namespace Bits

/-- Shifting right by `k` and keeping `w` bits extracts a field. -/
theorem toNat_field (x k m : UInt32) {w : ℕ} (hk : k.toNat < 32) (hm : m.toNat = 2 ^ w - 1) :
    ((x >>> k) &&& m).toNat = x.toNat / 2 ^ k.toNat % 2 ^ w := by
  rw [UInt32.toNat_and, UInt32.toNat_shiftRight, hm, Nat.and_two_pow_sub_one_eq_mod,
    Nat.mod_eq_of_lt hk, Nat.shiftRight_eq_div_pow]

/-- Keeping the low `w` bits is a remainder. -/
theorem toNat_low (x m : UInt32) {w : ℕ} (hm : m.toNat = 2 ^ w - 1) :
    (x &&& m).toNat = x.toNat % 2 ^ w := by
  rw [UInt32.toNat_and, hm, Nat.and_two_pow_sub_one_eq_mod]

/-- Keeping the low `w` bits of a byte is a remainder, too. -/
theorem toNat_lowByte (x m : UInt8) {w : ℕ} (hm : m.toNat = 2 ^ w - 1) :
    (x &&& m).toNat = x.toNat % 2 ^ w := by
  rw [UInt8.toNat_and, hm, Nat.and_two_pow_sub_one_eq_mod]

/-- A mask keeps the bytes that have no other bits. -/
theorem and_lowByte_eq_iff (x m : UInt8) {w : ℕ} (hm : m.toNat = 2 ^ w - 1) :
    x &&& m = x ↔ x.toNat < 2 ^ w := by
  rw [← UInt8.toNat_inj, toNat_lowByte x m hm]
  exact Nat.mod_eq_iff_lt (Nat.two_pow_pos w).ne'

/-- Masking a field in place keeps its weight. -/
theorem toNat_inPlace (x m : UInt32) {k w : ℕ} (hm : m.toNat = (2 ^ w - 1) * 2 ^ k) :
    (x &&& m).toNat = x.toNat / 2 ^ k % 2 ^ w * 2 ^ k := by
  rw [UInt32.toNat_and, hm]
  apply Nat.eq_of_testBit_eq
  intro i
  rw [Nat.testBit_and, ← Nat.shiftLeft_eq, ← Nat.shiftLeft_eq, Nat.testBit_shiftLeft,
    Nat.testBit_shiftLeft, Nat.testBit_two_pow_sub_one, Nat.testBit_mod_two_pow,
    Nat.testBit_div_two_pow]
  by_cases hi : k ≤ i
  · simp [hi, Bool.and_comm]
  · simp [hi]

/-- Or-ing a shifted word onto one that lies below it adds the two. -/
theorem toNat_or_shiftLeft (x y k : UInt32) (hk : k.toNat < 32) (hx : x.toNat < 2 ^ k.toNat)
    (hy : y.toNat * 2 ^ k.toNat < 2 ^ 32) :
    (x ||| (y <<< k)).toNat = x.toNat + y.toNat * 2 ^ k.toNat := by
  rw [UInt32.toNat_or, UInt32.toNat_shiftLeft, Nat.mod_eq_of_lt hk, Nat.shiftLeft_eq,
    Nat.mod_eq_of_lt hy, Nat.or_comm, ← Nat.shiftLeft_eq, ← Nat.shiftLeft_add_eq_or_of_lt hx,
    Nat.shiftLeft_eq, Nat.add_comm]

/-- The same for words whose values are known. -/
theorem toNat_or_shifted {x y k : UInt32} {a b j : ℕ} (hx : x.toNat = a) (hy : y.toNat = b)
    (hk : k.toNat = j) (hj : j < 32) (ha : a < 2 ^ j) (hb : b * 2 ^ j < 2 ^ 32) :
    (x ||| (y <<< k)).toNat = a + b * 2 ^ j := by
  subst hx hy hk
  exact toNat_or_shiftLeft x y k hj ha hb

/-- Or-ing a word onto one whose low bits are clear adds the two. -/
theorem toNat_or_low (x y : UInt32) {w : ℕ} (hx : x.toNat % 2 ^ w = 0) (hy : y.toNat < 2 ^ w) :
    (x ||| y).toNat = x.toNat + y.toNat := by
  have hdiv : x.toNat = x.toNat / 2 ^ w * 2 ^ w := by
    rw [Nat.div_mul_cancel (Nat.dvd_of_mod_eq_zero hx)]
  rw [UInt32.toNat_or, hdiv, ← Nat.shiftLeft_eq, ← Nat.shiftLeft_add_eq_or_of_lt hy]

/-- A shift that loses no bits multiplies. -/
theorem toNat_shiftLeft64 (x k : UInt64) (hk : k.toNat < 64)
    (hx : x.toNat * 2 ^ k.toNat < 2 ^ 64) : (x <<< k).toNat = x.toNat * 2 ^ k.toNat := by
  rw [UInt64.toNat_shiftLeft, Nat.mod_eq_of_lt hk, Nat.shiftLeft_eq, Nat.mod_eq_of_lt hx]

/-- Or-ing a word onto one whose low bits are clear adds their values, also in 64 bits. -/
theorem toNat_or_low64 {x y : UInt64} {a b w : ℕ} (hx : x.toNat = a) (hy : y.toNat = b)
    (ha : a % 2 ^ w = 0) (hb : b < 2 ^ w) : (x ||| y).toNat = a + b := by
  have hdiv : a = a / 2 ^ w * 2 ^ w := by
    rw [Nat.div_mul_cancel (Nat.dvd_of_mod_eq_zero ha)]
  rw [UInt64.toNat_or, hx, hy, hdiv, ← Nat.shiftLeft_eq, ← Nat.shiftLeft_add_eq_or_of_lt hb]

/-- Clearing one bit takes its weight away. -/
theorem toNat_clearBit64 (x k : UInt64) {j : ℕ} (hk : k.toNat = j) (hj : j < 64) :
    (x &&& ~~~((1 : UInt64) <<< k)).toNat + x.toNat / 2 ^ j % 2 * 2 ^ j = x.toNat := by
  have hbit : ((1 : UInt64) <<< k).toNat = 2 ^ j := by
    have hlt : (1 : UInt64).toNat * 2 ^ k.toNat < 2 ^ 64 := by
      rw [hk]
      exact (Nat.one_mul _).trans_lt (Nat.pow_lt_pow_right (by decide) hj)
    rw [toNat_shiftLeft64 _ _ (by omega) hlt, hk]
    exact Nat.one_mul _
  generalize (1 : UInt64) <<< k = m at hbit
  have hkept : (x &&& m).toNat = x.toNat / 2 ^ j % 2 * 2 ^ j := by
    rw [UInt64.toNat_and, hbit, Nat.and_two_pow, Nat.toNat_testBit]
  have hdisjoint : (x.toBitVec &&& ~~~m.toBitVec) &&& (x.toBitVec &&& m.toBitVec) = 0#64 := by
    apply BitVec.eq_of_getLsbD_eq
    intro i hi
    simp only [BitVec.getLsbD_and, BitVec.getLsbD_not, BitVec.getLsbD_zero]
    grind
  have hunion : (x.toBitVec &&& ~~~m.toBitVec) ||| (x.toBitVec &&& m.toBitVec) = x.toBitVec := by
    apply BitVec.eq_of_getLsbD_eq
    intro i hi
    simp only [BitVec.getLsbD_and, BitVec.getLsbD_not, BitVec.getLsbD_or]
    grind
  have hsum := BitVec.toNat_add_of_and_eq_zero hdisjoint
  rw [BitVec.add_eq_or_of_and_eq_zero _ _ hdisjoint, hunion] at hsum
  rw [← hkept]
  exact hsum.symm

/-- Or-ing a byte that leaves the low bits clear onto one that has no other bits adds them. -/
theorem toNat_join8 {x y : UInt8} {a b w : ℕ} (hx : x.toNat = a) (hy : y.toNat = b * 2 ^ w)
    (ha : a < 2 ^ w) : (x ||| y).toNat = a + b * 2 ^ w := by
  rw [UInt8.toNat_or, hx, hy, Nat.or_comm, ← Nat.shiftLeft_eq, ← Nat.shiftLeft_add_eq_or_of_lt ha,
    Nat.add_comm]

/-- The integer that bytes spell, the least significant one first. -/
def littleEndian (bytes : List UInt8) : ℕ := Nat.ofDigits 256 (bytes.map UInt8.toNat)

@[simp] theorem littleEndian_nil : littleEndian [] = 0 := rfl

@[simp] theorem littleEndian_cons (b : UInt8) (bytes : List UInt8) :
    littleEndian (b :: bytes) = b.toNat + 256 * littleEndian bytes :=
  Nat.ofDigits_cons ..

theorem littleEndian_lt (bytes : List UInt8) : littleEndian bytes < 256 ^ bytes.length := by
  induction bytes with
  | nil => exact Nat.one_pos
  | cons b bytes ih =>
    have hb := b.toNat_lt
    rw [littleEndian_cons, List.length_cons, Nat.pow_succ]
    omega

/-- Two words agree under the union of two masks when they agree under both. -/
theorem and_or_eq_iff (x y m n : UInt32) :
    x &&& (m ||| n) = y &&& (m ||| n) ↔ x &&& m = y &&& m ∧ x &&& n = y &&& n := by
  simp only [← UInt32.toBitVec_inj, UInt32.toBitVec_and, UInt32.toBitVec_or,
    BitVec.eq_of_getLsbD_eq_iff, BitVec.getLsbD_and, BitVec.getLsbD_or]
  constructor
  · intro h
    constructor <;> intro i hi <;> have := h i hi <;> grind
  · rintro ⟨hm, hn⟩ i hi
    have := hm i hi
    have := hn i hi
    grind

/-- A shifted mask keeps the bits that the mask keeps of the word shifted back. -/
theorem and_shiftLeft (y m k : ℕ) : y &&& (m <<< k) = ((y >>> k) &&& m) <<< k := by
  apply Nat.eq_of_testBit_eq
  intro i
  rw [Nat.testBit_and, Nat.testBit_shiftLeft, Nat.testBit_shiftLeft, Nat.testBit_and,
    Nat.testBit_shiftRight]
  by_cases hi : k ≤ i
  · simp [hi]
  · simp [hi]

/-- Shifted words agree under a shifted mask as the words do under the mask. -/
theorem shifted_and_eq_iff (x y m k : UInt32) (hk : k.toNat < 32)
    (hm : m.toNat * 2 ^ k.toNat < 2 ^ 32) :
    (x <<< k) &&& (m <<< k) = y &&& (m <<< k) ↔ x &&& m = (y >>> k) &&& m := by
  have hmask : (m <<< k).toNat = m.toNat <<< k.toNat := by
    rw [UInt32.toNat_shiftLeft, Nat.mod_eq_of_lt hk, Nat.shiftLeft_eq, Nat.mod_eq_of_lt hm]
  have hleft : ((x <<< k) &&& (m <<< k)).toNat = (x &&& m).toNat <<< k.toNat := by
    have hle : (x &&& m).toNat * 2 ^ k.toNat ≤ m.toNat * 2 ^ k.toNat := by
      rw [UInt32.toNat_and]
      exact Nat.mul_le_mul_right _ Nat.and_le_right
    rw [← UInt32.shiftLeft_and, UInt32.toNat_shiftLeft, Nat.mod_eq_of_lt hk, Nat.shiftLeft_eq,
      Nat.mod_eq_of_lt (hle.trans_lt hm)]
  have hright : (y &&& (m <<< k)).toNat = ((y >>> k) &&& m).toNat <<< k.toNat := by
    rw [UInt32.toNat_and, hmask, and_shiftLeft, UInt32.toNat_and, UInt32.toNat_shiftRight,
      Nat.mod_eq_of_lt hk]
  rw [← UInt32.toNat_inj, hleft, hright, ← UInt32.toNat_inj, Nat.shiftLeft_eq, Nat.shiftLeft_eq]
  exact Nat.mul_left_inj (Nat.two_pow_pos _).ne'

/-- Masking drops a word that lies outside the mask. -/
theorem or_and_of_disjoint {y m : UInt32} (x : UInt32) (h : y &&& m = 0) :
    (x ||| y) &&& m = x &&& m := by
  have hbits : ∀ i, (y.toBitVec.getLsbD i && m.toBitVec.getLsbD i) = false := by
    intro i
    rw [← BitVec.getLsbD_and, ← UInt32.toBitVec_and, h]
    simp
  apply UInt32.toBitVec_inj.mp
  apply BitVec.eq_of_getLsbD_eq
  intro i hi
  simp only [UInt32.toBitVec_and, UInt32.toBitVec_or, BitVec.getLsbD_and, BitVec.getLsbD_or]
  have := hbits i
  grind

/-- A union of two fields agrees with a word when each field does, under its own mask. -/
theorem or_and_or_eq_iff {a b m n : UInt32} (x : UInt32) (ha : a &&& n = 0) (hb : b &&& m = 0) :
    (a ||| b) &&& (m ||| n) = x &&& (m ||| n) ↔ a &&& m = x &&& m ∧ b &&& n = x &&& n := by
  rw [and_or_eq_iff, or_and_of_disjoint a hb, UInt32.or_comm, or_and_of_disjoint b ha]

/-- Masking twice under one part of the mask is masking once. -/
theorem and_and_and_of_subset {m b c : UInt32} (x : UInt32) (h : b &&& c = c) :
    (x &&& b) &&& (m &&& c) = x &&& (m &&& c) := by
  rw [UInt32.and_assoc, ← UInt32.and_assoc b, UInt32.and_comm b, UInt32.and_assoc m, h]

/-- A mask disjoint from a word stays disjoint when it shrinks. -/
theorem and_and_eq_zero {y c : UInt32} (m : UInt32) (h : y &&& c = 0) : y &&& (m &&& c) = 0 := by
  rw [UInt32.and_comm m, ← UInt32.and_assoc, h, UInt32.zero_and]

/-- Splitting a 16-bit word into bytes and joining them again. -/
theorem join_bytes16 (x : UInt16) :
    (x &&& 0xFF).toUInt8.toUInt16 ||| (((x >>> 8) &&& 0xFF).toUInt8.toUInt16 <<< 8) = x := by
  have hx := x.toNat_lt
  have hlow : (x &&& 0xFF).toUInt8.toUInt16.toNat = x.toNat % 2 ^ 8 := by
    rw [UInt8.toNat_toUInt16, UInt16.toNat_toUInt8, UInt16.toNat_and]
    change (x.toNat &&& (2 ^ 8 - 1)) % 2 ^ 8 = _
    rw [Nat.and_two_pow_sub_one_eq_mod, Nat.mod_mod]
  have hhigh : ((x >>> 8) &&& 0xFF).toUInt8.toUInt16.toNat = x.toNat / 2 ^ 8 := by
    rw [UInt8.toNat_toUInt16, UInt16.toNat_toUInt8, UInt16.toNat_and, UInt16.toNat_shiftRight]
    change (x.toNat >>> 8 &&& (2 ^ 8 - 1)) % 2 ^ 8 = _
    rw [Nat.and_two_pow_sub_one_eq_mod, Nat.mod_mod, Nat.shiftRight_eq_div_pow]
    omega
  apply UInt16.toNat_inj.mp
  rw [UInt16.toNat_or, UInt16.toNat_shiftLeft, hlow, hhigh]
  change x.toNat % 2 ^ 8 ||| (x.toNat / 2 ^ 8) <<< 8 % 2 ^ 16 = x.toNat
  have hsmall : x.toNat / 2 ^ 8 * 2 ^ 8 < 2 ^ 16 := by omega
  rw [Nat.shiftLeft_eq, Nat.mod_eq_of_lt hsmall, Nat.or_comm, ← Nat.shiftLeft_eq,
    ← Nat.shiftLeft_add_eq_or_of_lt (Nat.mod_lt _ (by decide)), Nat.shiftLeft_eq]
  omega

theorem toNat_byte (x k : UInt32) (hk : k.toNat < 32) :
    ((x >>> k) &&& 0xFF).toUInt8.toUInt32.toNat = x.toNat / 2 ^ k.toNat % 2 ^ 8 := by
  rw [UInt8.toNat_toUInt32, UInt32.toNat_toUInt8, toNat_field x k 0xFF hk (w := 8) rfl,
    Nat.mod_mod]

/-- Splitting the low 24 bits of a value into bytes and joining them again. -/
theorem join_bytes24 (x : UInt32) :
    ((x &&& 0xFF).toUInt8.toUInt32 ||| (((x >>> 8) &&& 0xFF).toUInt8.toUInt32 <<< 8)) |||
      (((x >>> 16) &&& 0xFF).toUInt8.toUInt32 <<< 16) = x &&& 0xFFFFFF := by
  have h0 : (x &&& 0xFF).toUInt8.toUInt32.toNat = x.toNat % 2 ^ 8 := by
    rw [UInt8.toNat_toUInt32, UInt32.toNat_toUInt8, toNat_low x 0xFF (w := 8) rfl, Nat.mod_mod]
  have h8 : ((x >>> 8) &&& 0xFF).toUInt8.toUInt32.toNat = x.toNat / 2 ^ 8 % 2 ^ 8 :=
    toNat_byte x 8 (by decide)
  have h16 : ((x >>> 16) &&& 0xFF).toUInt8.toUInt32.toNat = x.toNat / 2 ^ 16 % 2 ^ 8 :=
    toNat_byte x 16 (by decide)
  have hfirst : ((x &&& 0xFF).toUInt8.toUInt32 |||
      (((x >>> 8) &&& 0xFF).toUInt8.toUInt32 <<< 8)).toNat = x.toNat % 2 ^ 16 := by
    rw [toNat_or_shiftLeft _ _ 8 (by decide) (by rw [h0]; exact Nat.mod_lt _ (by decide))
      (by rw [h8]; change _ * 2 ^ 8 < _; omega), h0, h8]
    change _ + _ * 2 ^ 8 = _
    omega
  apply UInt32.toNat_inj.mp
  rw [toNat_or_shiftLeft _ _ 16 (by decide)
    (by rw [hfirst]; exact Nat.mod_lt _ (by decide))
    (by rw [h16]; change _ * 2 ^ 16 < _; omega), hfirst, h16, toNat_low x 0xFFFFFF (w := 24) rfl]
  change _ + _ * 2 ^ 16 = _
  omega

end Bits
