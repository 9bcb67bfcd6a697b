import J1939.Lib.Reads
import J1939.Lib.Bits

/-!
# The bits of a byte buffer

Bit `8 * i + k` of a buffer is bit `k` of byte `i`. Fields that share bytes are
compared bit by bit.
-/

namespace Buffer

/-- A bit of a buffer; behind its end all bits are clear. -/
def bitAt (bytes : List UInt8) (j : ℕ) : Bool := (bytes.getD (j / 8) 0).toNat.testBit (j % 8)

/-- Bytes are equal when their bits are. -/
theorem byte_ext {a b : UInt8} (h : ∀ k < 8, a.toNat.testBit k = b.toNat.testBit k) : a = b := by
  apply UInt8.toNat_inj.mp
  apply Nat.eq_of_testBit_eq
  intro k
  by_cases hk : k < 8
  · exact h k hk
  · have hpow : 2 ^ 8 ≤ 2 ^ k := Nat.pow_le_pow_right (by decide) (by omega)
    have ha := a.toNat_lt
    have hb := b.toNat_lt
    rw [Nat.testBit_lt_two_pow (by omega), Nat.testBit_lt_two_pow (by omega)]

theorem testBit_not (a : UInt8) {k : ℕ} (hk : k < 8) :
    (~~~a).toNat.testBit k = !a.toNat.testBit k := by
  have ha := a.toNat_lt
  have hnot : (~~~a).toNat = 2 ^ 8 - (a.toNat + 1) := by
    rw [UInt8.toNat_not]
    change 2 ^ 8 - 1 - a.toNat = _
    omega
  rw [hnot, Nat.testBit_two_pow_sub_succ ha]
  simp [hk]

theorem testBit_shiftLeft (a n : UInt8) (hn : n.toNat < 8) {k : ℕ} (hk : k < 8) :
    (a <<< n).toNat.testBit k = (decide (n.toNat ≤ k) && a.toNat.testBit (k - n.toNat)) := by
  rw [UInt8.toNat_shiftLeft, Nat.mod_eq_of_lt hn, Nat.testBit_mod_two_pow,
    Nat.testBit_shiftLeft]
  simp [hk]

theorem testBit_shiftRight (a n : UInt8) (hn : n.toNat < 8) (k : ℕ) :
    (a >>> n).toNat.testBit k = a.toNat.testBit (n.toNat + k) := by
  rw [UInt8.toNat_shiftRight, Nat.mod_eq_of_lt hn, Nat.testBit_shiftRight]

/-- The mask of the low `n` bits. -/
theorem toNat_lowMask (n : UInt8) (hpos : 0 < n.toNat) (hle : n.toNat ≤ 8) :
    ((0xFF : UInt8) >>> (8 - n)).toNat = 2 ^ n.toNat - 1 := by
  have hall : ∀ m : Fin 9, 0 < m.val →
      ((0xFF : UInt8) >>> (8 - UInt8.ofNat m.val)).toNat = 2 ^ m.val - 1 := by
    decide
  have hn := hall ⟨n.toNat, by omega⟩ hpos
  rwa [UInt8.ofNat_toNat] at hn

theorem testBit_lowMask (n : UInt8) (hpos : 0 < n.toNat) (hle : n.toNat ≤ 8) (k : ℕ) :
    ((0xFF : UInt8) >>> (8 - n)).toNat.testBit k = decide (k < n.toNat) := by
  rw [toNat_lowMask n hpos hle, Nat.testBit_two_pow_sub_one]

/-- Writing bytes replaces those in their range and keeps the others. -/
theorem getD_writeBytes (buffer : List UInt8) (i : ℕ) (bytes : List UInt8)
    (hfit : i + bytes.length ≤ buffer.length) (k : ℕ) :
    (writeBytes buffer i bytes).getD k 0 =
      if i ≤ k ∧ k < i + bytes.length then bytes.getD (k - i) 0 else buffer.getD k 0 := by
  induction bytes generalizing buffer i with
  | nil =>
    rw [if_neg (by simp only [List.length_nil]; omega)]
    rfl
  | cons b bs ih =>
    rw [List.length_cons] at hfit
    rw [writeBytes, ih _ _ (by rw [List.length_set]; omega), List.length_cons]
    by_cases hlater : i + 1 ≤ k ∧ k < i + 1 + bs.length
    · have hindex : k - i = k - (i + 1) + 1 := by omega
      rw [if_pos hlater, if_pos (by omega), hindex, List.getD_cons_succ]
    · rw [if_neg hlater, List.getD_eq_getElem?_getD, List.getElem?_set]
      by_cases hki : i = k
      · subst hki
        have hi : i < buffer.length := by omega
        rw [if_pos rfl, if_pos hi, if_pos (by omega), Nat.sub_self]
        rfl
      · rw [if_neg hki, if_neg (by omega), List.getD_eq_getElem?_getD]

/-- Writing replaces a stretch of the buffer. -/
theorem writeBytes_eq (buffer : List UInt8) (i : ℕ) (bytes : List UInt8)
    (hfit : i + bytes.length ≤ buffer.length) :
    writeBytes buffer i bytes = buffer.take i ++ bytes ++ buffer.drop (i + bytes.length) := by
  induction bytes generalizing buffer i with
  | nil => simp [writeBytes]
  | cons b bs ih =>
    rw [List.length_cons] at hfit
    have htake : (buffer.set i b).take (i + 1) = buffer.take i ++ [b] := by
      rw [List.take_add_one, List.take_set_of_le le_rfl, List.getElem?_set_self (by omega)]
      rfl
    have hdrop : (buffer.set i b).drop (i + 1 + bs.length) = buffer.drop (i + 1 + bs.length) :=
      List.drop_set_of_lt (by omega)
    rw [writeBytes, ih _ _ (by rw [List.length_set]; omega), htake, hdrop, List.length_cons,
      Nat.add_right_comm i 1, Nat.add_assoc i]
    simp

/-- Writing as many bytes as a part of the buffer has replaces that part. -/
theorem writeBytes_middle {part bytes : List UInt8} {i : ℕ} (before after : List UInt8)
    (hi : before.length = i) (h : bytes.length = part.length) :
    writeBytes (before ++ part ++ after) i bytes = before ++ bytes ++ after := by
  subst hi
  have htake : (before ++ part ++ after).take before.length = before := by
    rw [List.append_assoc, List.take_left]
  have hdrop : (before ++ part ++ after).drop (before.length + bytes.length) = after := by
    rw [h, ← List.length_append, List.drop_left]
  rw [writeBytes_eq _ _ _ (by simp only [List.length_append]; omega), htake, hdrop]

/-- Writing in front leaves what is appended alone. -/
theorem writeBytes_append {buffer bytes : List UInt8} (rest : List UInt8) {i : ℕ}
    (hfit : i + bytes.length ≤ buffer.length) :
    writeBytes (buffer ++ rest) i bytes = writeBytes buffer i bytes ++ rest := by
  induction bytes generalizing buffer i with
  | nil => rfl
  | cons b bs ih =>
    rw [List.length_cons] at hfit
    rw [writeBytes, writeBytes, List.set_append_left _ _ (by omega),
      ih (by rw [List.length_set]; omega)]

/-- Writing bytes keeps those before the first one written. -/
theorem getD_writeBytes_of_lt {buffer bytes : List UInt8} {i k : ℕ} (h : k < i) :
    (writeBytes buffer i bytes).getD k 0 = buffer.getD k 0 := by
  induction bytes generalizing buffer i with
  | nil => rfl
  | cons b bs ih =>
    rw [writeBytes, ih (by omega), List.getD_eq_getElem?_getD, List.getElem?_set,
      if_neg (by omega), List.getD_eq_getElem?_getD]

/-- The bits of a byte in a word. -/
theorem testBit_byteOf (x k : UInt32) (hk : k.toNat < 32) {j : ℕ} (hj : j < 8) :
    ((x >>> k) &&& 0xFF).toUInt8.toNat.testBit j = x.toNat.testBit (k.toNat + j) := by
  have hbyte := Bits.toNat_byte x k hk
  rw [UInt8.toNat_toUInt32] at hbyte
  rw [hbyte, Nat.testBit_mod_two_pow, Nat.testBit_div_two_pow, Nat.add_comm]
  simp [hj]

end Buffer
