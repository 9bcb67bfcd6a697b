import J1939.SPN
import J1939.Lib.Bits

/-!
# Decoding one suspect parameter

What the decoders of the three kinds of SPNs do to their object, in closed form, and
which bytes they access.
-/

namespace J1939

namespace SPNNumeric

/-- The little-endian value of the first `n` bytes. -/
def readValue (n : ℕ) (mem : Memory) : UInt32 :=
  (List.range n).foldl (fun v i => v ||| ((mem i).toUInt32 <<< UInt32.ofNat (i * 8))) 0

theorem run_decodeByte (i : ℕ) (spn : SPNNumeric) (mem : Memory) :
    (decodeByte i).run spn mem =
      (.ok (), { spn with
        value := spn.value ||| ((mem i).toUInt32 <<< UInt32.ofNat (i * 8)) }) := rfl

theorem run_decode (length : ℕ) (spn : SPNNumeric) (mem : Memory) :
    (decode length).run spn mem =
      if spn.getByteSize.toNat > length then (.error .numericDecodeLength, spn)
      else (.ok (), { spn with value := readValue spn.getByteSize.toNat mem }) := by
  have hle : ¬spn.getByteSize.toNat > spnNumericMaxByteSize :=
    Nat.not_lt.mpr spn.numSpec.byteSize_le
  have hloop : ∀ (is : List ℕ) (v : UInt32),
      (Method.forEach is decodeByte).run { spn with value := v } mem =
        (.ok (), { spn with
          value := is.foldl
            (fun v i => v ||| ((mem i).toUInt32 <<< UInt32.ofNat (i * 8))) v }) := by
    intro is
    induction is with
    | nil => exact fun v => rfl
    | cons i is ih =>
      intro v
      rw [Method.forEach, Method.run_bind_of_ok (run_decodeByte i _ mem)]
      exact ih _
  simp only [decode, Method.run_get_bind, Method.run_throwIf_bind, Method.run_modify_bind, hle,
    or_false]
  by_cases hlength : spn.getByteSize.toNat > length
  · rw [if_pos hlength, if_pos hlength]
  · rw [if_neg hlength, if_neg hlength]
    exact hloop _ 0

theorem within_decode (length : ℕ) : (decode length).Within length := by
  refine Method.Within.get_bind fun self => Method.Within.throwIf_bind fun hfits =>
    Method.Within.modify_bind (Method.Within.forEach fun i hi => ?_)
  rw [not_or] at hfits
  have hlt := List.mem_range.mp hi
  exact Method.Within.byte_bind (by omega) fun _ => Method.Within.modify _

/-- The next byte stands above those that have been read. -/
theorem toNat_readValue {n : ℕ} (hn : n ≤ 4) (mem : Memory) :
    (readValue n mem).toNat < 2 ^ (8 * n) ∧ (n < 4 → (readValue (n + 1) mem).toNat =
      (readValue n mem).toNat + 2 ^ (8 * n) * (mem n).toNat) := by
  have hnext : ∀ n < 4, (readValue n mem).toNat < 2 ^ (8 * n) →
      (readValue (n + 1) mem).toNat =
        (readValue n mem).toNat + 2 ^ (8 * n) * (mem n).toNat := by
    intro n hn hlt
    have hk : (UInt32.ofNat (n * 8)).toNat = 8 * n := by
      rw [UInt32.toNat_ofNat']
      omega
    have hbyte : (mem n).toUInt32.toNat < 2 ^ 8 := (mem n).toNat_lt
    have hpow : 2 ^ 8 * 2 ^ (8 * n) ≤ 2 ^ 32 := by
      rw [← pow_add]
      exact Nat.pow_le_pow_right (by decide) (by omega)
    have hfit : (mem n).toUInt32.toNat * 2 ^ (8 * n) < 2 ^ 32 :=
      lt_of_lt_of_le (Nat.mul_lt_mul_of_pos_right hbyte (Nat.two_pow_pos _)) hpow
    rw [readValue, List.range_succ, List.foldl_append, List.foldl_cons, List.foldl_nil]
    change (readValue n mem ||| _).toNat = _
    rw [Bits.toNat_or_shiftLeft _ _ _ (by omega) (by rw [hk]; exact hlt) (by rw [hk]; exact hfit),
      hk, Nat.mul_comm]
    rfl
  have hlt : ∀ n ≤ 4, (readValue n mem).toNat < 2 ^ (8 * n) := by
    intro n
    induction n with
    | zero => exact fun _ => Nat.one_pos
    | succ n ih =>
      intro hn
      have hlow := ih (by omega)
      have hbyte : (mem n).toNat < 2 ^ 8 := (mem n).toNat_lt
      rw [hnext n (by omega) hlow, Nat.mul_succ, pow_add]
      have hmul := Nat.mul_le_mul_left (2 ^ (8 * n)) (Nat.le_pred_of_lt hbyte)
      have hsplit : 2 ^ (8 * n) * 2 ^ 8 = 2 ^ (8 * n) * (2 ^ 8).pred + 2 ^ (8 * n) := rfl
      omega
  exact ⟨hlt n hn, fun h => hnext n h (hlt n hn)⟩

/-- Reading back the bytes of a value. -/
theorem readValue_toNat (v : UInt32) {n : ℕ} (hn : n ≤ 4) {mem : Memory}
    (hmem : ∀ i < n, mem i = ((v >>> UInt32.ofNat (i * 8)) &&& 0xFF).toUInt8) :
    (readValue n mem).toNat = v.toNat % 2 ^ (8 * n) := by
  induction n with
  | zero => simp [readValue, Nat.mod_one]
  | succ n ih =>
    have hprev := ih (by omega) fun i hi => hmem i (by omega)
    have hk : (UInt32.ofNat (n * 8)).toNat = 8 * n := by
      rw [UInt32.toNat_ofNat']
      omega
    have hbyte : (mem n).toUInt32.toNat = v.toNat / 2 ^ (8 * n) % 2 ^ 8 := by
      rw [hmem n (by omega), Bits.toNat_byte v _ (by omega), hk]
    have hbyte' : (mem n).toNat = v.toNat / 2 ^ (8 * n) % 2 ^ 8 := hbyte
    rw [(toNat_readValue (by omega) mem).2 (by omega), hprev, hbyte', Nat.mul_succ, pow_add,
      Nat.mod_mul]

/-- Different bytes have different values. -/
theorem readValue_inj {n : ℕ} (hn : n ≤ 4) {mem mem' : Memory} :
    readValue n mem = readValue n mem' ↔ ∀ i < n, mem i = mem' i := by
  induction n with
  | zero => exact iff_of_true rfl nofun
  | succ n ih =>
    obtain ⟨hlt, hnext⟩ := toNat_readValue (show n ≤ 4 by omega) mem
    obtain ⟨hlt', hnext'⟩ := toNat_readValue (show n ≤ 4 by omega) mem'
    rw [← UInt32.toNat_inj, hnext (by omega), hnext' (by omega)]
    constructor
    · intro heq
      have hlow := congrArg (· % 2 ^ (8 * n)) heq
      have hhigh := congrArg (· / 2 ^ (8 * n)) heq
      simp only [Nat.add_mul_mod_self_left, Nat.mod_eq_of_lt hlt, Nat.mod_eq_of_lt hlt'] at hlow
      simp only [Nat.add_mul_div_left _ _ (Nat.two_pow_pos _), Nat.div_eq_of_lt hlt,
        Nat.div_eq_of_lt hlt', Nat.zero_add] at hhigh
      have hbefore := (ih (by omega)).mp (UInt32.toNat_inj.mp hlow)
      intro i hi
      rcases Nat.lt_succ_iff_lt_or_eq.mp hi with hi | rfl
      · exact hbefore i hi
      · exact UInt8.toNat_inj.mp hhigh
    · intro hsame
      rw [(ih (by omega)).mpr fun i hi => hsame i (by omega), hsame n (by omega)]

end SPNNumeric

namespace SPNStatus

/-- The mask of the value, in place. -/
def mask (spn : SPNStatus) : UInt8 := 0xFF >>> (8 - spn.getBitSize)

/-- The assertions of the constructor rule the format error out. -/
theorem not_formatIncorrect (spn : SPNStatus) : ¬spn.formatIncorrect := by
  have hpos := spn.statSpec.bitSize_pos
  have hle := spn.statSpec.bits_le
  unfold formatIncorrect getBitOffset getBitSize
  omega

theorem run_decode (length : ℕ) (spn : SPNStatus) (mem : Memory) :
    (decode length).run spn mem =
      (.ok (), { spn with value := (mem 0 >>> spn.getBitOffset) &&& spn.mask }) := by
  rw [decode, Method.run_get_bind, Method.run_throwIf_bind, if_neg spn.not_formatIncorrect]
  rfl

/-- The byte is accessed whatever the length is. -/
theorem within_decode {length : ℕ} (h : 0 < length) : (decode length).Within length :=
  Method.Within.get_bind fun _ => Method.Within.throwIf_bind fun _ =>
    Method.Within.byte_bind h fun _ => Method.Within.modify _

end SPNStatus

namespace SPNString

/-- The first of the `n` indices from `i` on that holds the byte. -/
def findByte (mem : Memory) (c : UInt8) (i n : ℕ) : Option ℕ :=
  (List.range' i n).find? fun k => mem k = c

theorem run_memchr (c : UInt8) (i n : ℕ) (spn : SPNString) (mem : Memory) :
    (memchr c i n).run spn mem = (.ok (findByte mem c i n), spn) := by
  induction n generalizing i with
  | zero => rfl
  | succ n ih =>
    rw [memchr, Method.run_byte_bind, findByte, List.range'_succ]
    by_cases hc : mem i = c
    · rw [if_pos hc, List.find?_cons_of_pos (by simpa using hc)]
      rfl
    · rw [if_neg hc, List.find?_cons_of_neg (by simpa using hc)]
      exact ih (i + 1)

theorem within_memchr {c : UInt8} {i n length : ℕ} (h : i + n ≤ length) :
    (memchr c i n).Within length := by
  induction n generalizing i with
  | zero => exact Method.Within.pure none
  | succ n ih =>
    refine Method.Within.byte_bind (by omega) fun b => ?_
    by_cases hb : b = c
    · rw [if_pos hb]
      exact Method.Within.pure _
    · rw [if_neg hb]
      exact ih (by omega)

theorem findByte_eq_some {mem : Memory} {c : UInt8} {n k : ℕ} :
    findByte mem c 0 n = some k ↔ k < n ∧ mem k = c ∧ ∀ j < k, mem j ≠ c := by
  rw [findByte, List.find?_range'_eq_some]
  simp only [decide_eq_true_eq, decide_eq_false_iff_not, List.mem_range'_1, Nat.zero_add,
    Bool.not_eq_eq_eq_not, Bool.not_true]
  constructor
  · rintro ⟨hk, ⟨-, hlt⟩, hbefore⟩
    exact ⟨hlt, hk, fun j hj => hbefore j (Nat.zero_le j) hj⟩
  · rintro ⟨hlt, hk, hbefore⟩
    exact ⟨hk, ⟨Nat.zero_le k, hlt⟩, fun j _ hj => hbefore j hj⟩

/-- The ASCII test over the characters before the terminator. -/
theorem run_asciiTest (is : List ℕ) (spn : SPNString) (mem : Memory) :
    (Method.forEach is fun i => do
      let c ← Method.byte i
      Method.throwIf (isAscii c = false) J1939Exception.stringNotAscii).run spn mem =
      (if ∀ i ∈ is, isAscii (mem i) = true then .ok () else .error .stringNotAscii, spn) := by
  induction is with
  | nil => simp [Method.forEach]
  | cons i is ih =>
    rw [Method.forEach]
    by_cases hascii : isAscii (mem i) = true
    · have hstep : (do
          let c ← Method.byte i
          Method.throwIf (isAscii c = false) J1939Exception.stringNotAscii :
            Method SPNString J1939Exception Unit).run spn mem = (.ok (), spn) := by
        rw [Method.run_byte_bind, Method.run_throwIf, if_neg (by simp [hascii])]
      rw [Method.run_bind_of_ok hstep, ih]
      simp only [List.forall_mem_cons, hascii, true_and]
    · have hstep : (do
          let c ← Method.byte i
          Method.throwIf (isAscii c = false) J1939Exception.stringNotAscii :
            Method SPNString J1939Exception Unit).run spn mem =
              (.error .stringNotAscii, spn) := by
        rw [Method.run_byte_bind, Method.run_throwIf, if_pos (by simpa using hascii)]
      rw [Method.run_bind_of_error hstep, if_neg]
      exact fun h => hascii (h i (List.mem_cons_self ..))

/-- The characters read up to the terminator, when it is there and they are ASCII. -/
def readString (mem : Memory) (length : ℕ) : Option (List UInt8) :=
  (findByte mem strTerminator 0 length).bind fun n =>
    if (mem.slice 0 n).all isAscii then some (mem.slice 0 n) else none

/-- A string SPN decodes to the characters before the terminator. -/
theorem run_decode (length : ℕ) (spn : SPNString) (mem : Memory) :
    (∃ v, readString mem length = some v ∧
        (decode length).run spn mem = (.ok (), { spn with value := v })) ∨
      (readString mem length = none ∧ ∃ e,
        (decode length).run spn mem = (.error e, { spn with value := [] }) ∧
          e.isDecode = true) := by
  rw [decode, Method.run_bind_of_ok (run_memchr strTerminator 0 length spn mem),
    Method.run_modify_bind]
  unfold readString
  cases hfind : findByte mem strTerminator 0 length with
  | none => exact Or.inr ⟨rfl, .stringTerminator, rfl, rfl⟩
  | some n =>
    have hall : (mem.slice 0 n).all isAscii = true ↔
        ∀ i ∈ List.range n, isAscii (mem i) = true := by
      rw [List.all_eq_true, Memory.slice, List.forall_mem_map]
      simp only [Nat.zero_add]
    by_cases hascii : ∀ i ∈ List.range n, isAscii (mem i) = true
    · refine Or.inl ⟨mem.slice 0 n, ?_, ?_⟩
      · rw [Option.bind_some, if_pos (hall.mpr hascii)]
      · have htest := run_asciiTest (List.range n) { spn with value := [] } mem
        rw [if_pos hascii] at htest
        rw [Method.run_bind_of_ok htest, Method.run_bytes_bind]
        rfl
    · refine Or.inr ⟨?_, .stringNotAscii, ?_, rfl⟩
      · rw [Option.bind_some, if_neg (mt hall.mp hascii)]
      · have htest := run_asciiTest (List.range n) { spn with value := [] } mem
        rw [if_neg hascii] at htest
        rw [Method.run_bind_of_error htest]

theorem within_decode (length : ℕ) : (decode length).Within length := by
  refine (within_memchr (by omega)).bind_of_returned fun terminator hreturned =>
    Method.Within.modify_bind ?_
  cases terminator with
  | none => exact Method.Within.throw _
  | some n =>
    obtain ⟨s, mem, s', hrun⟩ := hreturned
    rw [run_memchr] at hrun
    have hfind : findByte mem strTerminator 0 length = some n :=
      Except.ok.inj (Prod.ext_iff.mp hrun).1
    have hn := (findByte_eq_some.mp hfind).1
    refine Method.Within.bind (Method.Within.forEach fun i hi => ?_) fun _ =>
      Method.Within.bind (Method.Within.bytes (by omega)) fun _ => Method.Within.modify _
    have hlt := List.mem_range.mp hi
    exact Method.Within.byte_bind (by omega) fun _ => Method.Within.throwIf _ _

end SPNString

namespace SPN

theorem run_decode_numeric (length : ℕ) (n : SPNNumeric) (mem : Memory) :
    (SPN.decode length).run (numeric n) mem =
      (((SPNNumeric.decode length).run n mem).1,
        numeric ((SPNNumeric.decode length).run n mem).2) :=
  Method.run_onPart (fun _ => n) (fun _ => numeric) _ (numeric n) mem

theorem run_decode_status (length : ℕ) (s : SPNStatus) (mem : Memory) :
    (SPN.decode length).run (status s) mem =
      (((SPNStatus.decode length).run s mem).1,
        status ((SPNStatus.decode length).run s mem).2) :=
  Method.run_onPart (fun _ => s) (fun _ => status) _ (status s) mem

theorem run_decode_string (length : ℕ) (s : SPNString) (mem : Memory) :
    (SPN.decode length).run (string s) mem =
      (((SPNString.decode length).run s mem).1,
        string ((SPNString.decode length).run s mem).2) :=
  Method.run_onPart (fun _ => s) (fun _ => string) _ (string s) mem

/-- No decoder of an SPN reads behind the length it is given, if that is not 0. -/
theorem within_decode (spn : SPN) {length : ℕ} (h : 0 < length) (mem : Memory) :
    ∀ i ∈ (SPN.decode length).accessed spn mem, i < length := by
  intro i hi
  cases spn with
  | numeric n =>
    have haccessed : (SPN.decode length).accessed (numeric n) mem = _ :=
      Method.accessed_onPart (fun _ => n) (fun _ => numeric) _ (numeric n) mem
    rw [haccessed] at hi
    exact SPNNumeric.within_decode length n mem i hi
  | status s =>
    have haccessed : (SPN.decode length).accessed (status s) mem = _ :=
      Method.accessed_onPart (fun _ => s) (fun _ => status) _ (status s) mem
    rw [haccessed] at hi
    exact SPNStatus.within_decode h s mem i hi
  | string s =>
    have haccessed : (SPN.decode length).accessed (string s) mem = _ :=
      Method.accessed_onPart (fun _ => s) (fun _ => string) _ (string s) mem
    rw [haccessed] at hi
    exact SPNString.within_decode length s mem i hi

end SPN

end J1939
